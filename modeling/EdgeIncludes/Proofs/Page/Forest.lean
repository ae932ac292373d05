/-
Well-nested pages and what they mean.

A page in which every element ends where it should is a sequence of siblings, each of them
text or an element with children of its own.  What such a page means can be said by recursion
on it, without a stack and without looking at the order in which its tags come: `value` has
the bytes and the includes of the page, and of a group it has either the attempts or the
branches that stand.
-/
import EdgeIncludes.Proofs.Markup.Lexeme
import EdgeIncludes.Proofs.Page.Builder
import EdgeIncludes.Proofs.Page.History

namespace EdgeIncludes

open Markup (Attribute Event IsGap IsName Lexeme Piece PiecesValid Token piecesAttributes
  tokensBytes tokensEvents)

namespace Tag

/-- The tag's name without the namespace. -/
def letters (tag : Tag) : Bytes :=
  tag.localName.map Char.toUInt8

end Tag

namespace Page

/-! ## What a page consists of -/

/-- What a reader of a page gets: bytes, and the fragments that are asked for. -/
inductive Content where
  | byte (b : UInt8)
  | fragment (request : Include.Request)
deriving Repr, DecidableEq

def Atom.content? (request? : Nat → Option Include.Request) : Atom → Option Content
  | .byte b => some (.byte b)
  | .slot number => (request? number).map .fragment

/-- The document's content in order, where a slot without a request has none. -/
def Document.contents (document : Document) : List (Option Content) :=
  document.atoms.map (Atom.content? document.request?)

/-! ## Forests -/

/-- A sequence of siblings.  The end tag of an element can have whitespace in it, and an
element without an end tag is one that is its own end. -/
inductive Forest where
  | nothing
  | text (bytes : Bytes) (rest : Forest)
  | element (tag : Tag) (pieces : List Piece) (stop : Option Bytes) (children rest : Forest)
deriving Repr, DecidableEq

namespace Forest

def tokens : Forest → List Token
  | nothing => []
  | text bytes rest => .text bytes :: rest.tokens
  | element tag pieces stop children rest =>
    .tag (.start tag.letters pieces stop.isNone) :: children.tokens ++
      (stop.map fun gap => Token.tag (.stop tag.letters gap)).toList ++ rest.tokens

/-- The forest as markup. -/
def written (forest : Forest) : Bytes :=
  tokensBytes forest.tokens

def events (forest : Forest) : List Event :=
  tokensEvents forest.tokens

/-- What the attributes of an include ask for, if they ask for something. -/
def request? (pieces : List Piece) : Option Include.Request :=
  (Include.Request.ofAttributes (piecesAttributes pieces)).toOption

/-- The element is an include that asks for nothing. -/
def asksNothing (tag : Tag) (pieces : List Piece) : Bool :=
  tag == .inclusion && (request? pieces).isNone

/-- There is an include in the forest that asks for nothing. -/
def misses : Forest → Bool
  | nothing => false
  | text _ rest => rest.misses
  | element tag pieces _ children rest =>
    asksNothing tag pieces || children.misses || rest.misses

/-- What a group means, by what its attempts mean and what the branches mean that stand. -/
def chosen (attempts : List Content) : List (List Content) → List Content
  | [] => attempts
  | standing => standing.flatten

mutual

def value : Forest → List Content
  | nothing => []
  | text bytes rest => bytes.map .byte ++ rest.value
  | element tag pieces _ children rest =>
    (match tag with
      | .inclusion => (request? pieces).toList.map .fragment
      | .vars | .attempt | .except => children.value
      | .invalidate | .remove => []
      | .tryBlock => chosen children.attempts (children.branches false)) ++ rest.value

/-- What the attempts among the children of a group mean together. -/
def attempts : Forest → List Content
  | nothing => []
  | text _ rest => rest.attempts
  | element tag _ _ children rest =>
    (if tag = .attempt then children.value else []) ++ rest.attempts

/-- What the branches among the children of a group mean that stand, one by one.  A branch
stands if an include in front of it asked for nothing; an include in a branch that does not
stand asks nobody. -/
def branches (failed : Bool) : Forest → List (List Content)
  | nothing => []
  | text _ rest => rest.branches failed
  | element tag pieces _ children rest =>
    if tag = .except then (if failed then [children.value] else []) ++ rest.branches failed
    else rest.branches (failed || asksNothing tag pieces || children.misses)

end

end Forest
end Page
end EdgeIncludes
