/-
What a tag looks like.

The automaton decides byte by byte; here is the shape of the byte strings that it takes for
tags, said without it.  A start tag is `<esi:`, a name, pieces and `>` or `/>`, where a
piece is a whitespace byte or an attribute and the first piece is whitespace.  An end tag
is `</esi:`, a name, whitespace and `>`.  A lexeme is kept as the parts it is written from,
so that what it says can be read off the parts, and `written` gives its bytes.

A value is a sequence of escape units, which is how a reader from the left sees it: a
backslash takes the next byte with it, and no other byte of the value can be the quote
that encloses it.
-/
import EdgeIncludes.Markup.Event
import EdgeIncludes.Markup.Trim

namespace EdgeIncludes
namespace Markup

open Ascii

/-! ## Values -/

/-- A byte of a value as it is written: by itself, or behind a backslash. -/
inductive EscapeUnit where
  | plain (b : UInt8)
  | escaped (b : UInt8)
deriving Repr, DecidableEq

def EscapeUnit.written : EscapeUnit → Bytes
  | .plain b => [b]
  | .escaped b => [backslash, b]

/-- The unit can stand in a value enclosed by the quote: neither a backslash nor the quote
stands by itself. -/
def EscapeUnit.FitsIn (quote : UInt8) : EscapeUnit → Prop
  | .plain b => b ≠ backslash ∧ b ≠ quote
  | .escaped _ => True

def contentBytes (content : List EscapeUnit) : Bytes :=
  content.flatMap EscapeUnit.written

@[simp] theorem contentBytes_nil : contentBytes [] = [] := rfl

@[simp] theorem contentBytes_append (front back : List EscapeUnit) :
    contentBytes (front ++ back) = contentBytes front ++ contentBytes back :=
  List.flatMap_append

@[simp] theorem contentBytes_plain (b : UInt8) : contentBytes [.plain b] = [b] := rfl

@[simp] theorem contentBytes_escaped (b : UInt8) :
    contentBytes [.escaped b] = [backslash, b] := rfl

/-! ## Tags -/

/-- A tag's name after the namespace: one or more lower-case letters. -/
def IsName (letters : Bytes) : Prop :=
  letters ≠ [] ∧ ∀ b ∈ letters, isLower b

def IsKey : Bytes → Prop
  | [] => False
  | b :: rest => isKeyStart b ∧ ∀ c ∈ rest, isKeyByte c

/-- Whitespace, which may be none at all. -/
def IsGap (gap : Bytes) : Prop :=
  ∀ b ∈ gap, isSpace b

/-- The character that an ASCII byte is. -/
def character (b : UInt8) : Char :=
  Char.ofNat b.toNat

/-- A piece of a start tag between its name and its end. -/
inductive Piece where
  | space (b : UInt8)
  | pair (key gap : Bytes) (quote : UInt8) (content : List EscapeUnit)
deriving Repr, DecidableEq

namespace Piece

def written : Piece → Bytes
  | space b => [b]
  | pair key gap quote content =>
    key ++ equals :: (gap ++ quote :: (contentBytes content ++ [quote]))

def Valid : Piece → Prop
  | space b => isSpace b
  | pair key gap quote content =>
    IsKey key ∧ IsGap gap ∧ isQuote quote ∧ ∀ unit ∈ content, unit.FitsIn quote

/-- What a piece says: the key as it is written, and what its value spells. -/
def attributes : Piece → List Attribute
  | space _ => []
  | pair key _ _ content =>
    [⟨String.ofList (key.map character), Utf8.lenient (valueBytes (contentBytes content))⟩]

def IsSpace : Piece → Prop
  | space _ => True
  | pair .. => False

end Piece

/-- The pieces of a start tag: the first of them, if there are any, is whitespace. -/
def PiecesValid (pieces : List Piece) : Prop :=
  (∀ piece ∈ pieces.head?, piece.IsSpace) ∧ ∀ piece ∈ pieces, piece.Valid

def piecesBytes (pieces : List Piece) : Bytes :=
  pieces.flatMap Piece.written

/-- What the attributes among the pieces say, in the order they are written. -/
def piecesAttributes (pieces : List Piece) : List Attribute :=
  pieces.flatMap Piece.attributes

@[simp] theorem piecesBytes_nil : piecesBytes [] = [] := rfl

@[simp] theorem piecesBytes_append (front back : List Piece) :
    piecesBytes (front ++ back) = piecesBytes front ++ piecesBytes back :=
  List.flatMap_append

@[simp] theorem piecesBytes_singleton (piece : Piece) :
    piecesBytes [piece] = piece.written :=
  List.append_nil _

@[simp] theorem piecesAttributes_append (front back : List Piece) :
    piecesAttributes (front ++ back) = piecesAttributes front ++ piecesAttributes back :=
  List.flatMap_append

@[simp] theorem piecesAttributes_singleton (piece : Piece) :
    piecesAttributes [piece] = piece.attributes :=
  List.append_nil _

/-- What comes before the letters of a tag's name: `<esi:` or `</esi:`. -/
def opener (closing : Bool) : Bytes :=
  lessThan :: ((if closing then [slash] else []) ++ namespaceBytes)

/-- A tag, by the parts it is written from. -/
inductive Lexeme where
  | start (letters : Bytes) (pieces : List Piece) (selfClosing : Bool)
  | stop (letters gap : Bytes)
deriving Repr, DecidableEq

namespace Lexeme

def written : Lexeme → Bytes
  | start letters pieces selfClosing =>
    opener false ++ letters ++ piecesBytes pieces ++
      (if selfClosing then [slash, greaterThan] else [greaterThan])
  | stop letters gap => opener true ++ letters ++ gap ++ [greaterThan]

def Valid : Lexeme → Prop
  | start letters pieces _ => IsName letters ∧ PiecesValid pieces
  | stop letters gap => IsName letters ∧ IsGap gap

/-- What a tag says.  A tag that is its own end says so after it has said what it is. -/
def events : Lexeme → List Event
  | start letters pieces selfClosing =>
    .startTag (namespaceBytes ++ letters) (piecesAttributes pieces) ::
      if selfClosing then [.endTag (namespaceBytes ++ letters)] else []
  | stop letters _ => [.endTag (namespaceBytes ++ letters)]

end Lexeme

/-- The bytes are the beginning of a tag, or all of it. -/
def IsOpening (bytes : Bytes) : Prop :=
  ∃ lexeme : Lexeme, lexeme.Valid ∧ bytes <+: lexeme.written

theorem IsOpening.of_front {bytes front : Bytes} (h : IsOpening bytes) (hfront : front <+: bytes) :
    IsOpening front :=
  h.imp fun _ hlexeme => ⟨hlexeme.1, hfront.trans hlexeme.2⟩

/-! ## Tokens -/

/-- A part of a body: a tag, or bytes that belong to none. -/
inductive Token where
  | text (bytes : Bytes)
  | tag (lexeme : Lexeme)
deriving Repr, DecidableEq

namespace Token

def written : Token → Bytes
  | text bytes => bytes
  | tag lexeme => lexeme.written

def events : Token → List Event
  | text bytes => [.output bytes]
  | tag lexeme => lexeme.events

def Valid : Token → Prop
  | text _ => True
  | tag lexeme => lexeme.Valid

end Token

def tokensBytes (tokens : List Token) : Bytes :=
  tokens.flatMap Token.written

def tokensEvents (tokens : List Token) : List Event :=
  tokens.flatMap Token.events

@[simp] theorem tokensBytes_nil : tokensBytes [] = [] := rfl

@[simp] theorem tokensBytes_cons (token : Token) (tokens : List Token) :
    tokensBytes (token :: tokens) = token.written ++ tokensBytes tokens := rfl

@[simp] theorem tokensBytes_append (front back : List Token) :
    tokensBytes (front ++ back) = tokensBytes front ++ tokensBytes back :=
  List.flatMap_append

@[simp] theorem tokensEvents_nil : tokensEvents [] = [] := rfl

@[simp] theorem tokensEvents_cons (token : Token) (tokens : List Token) :
    tokensEvents (token :: tokens) = token.events ++ tokensEvents tokens := rfl

@[simp] theorem tokensEvents_append (front back : List Token) :
    tokensEvents (front ++ back) = tokensEvents front ++ tokensEvents back :=
  List.flatMap_append

end Markup
end EdgeIncludes
