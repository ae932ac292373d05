/-
The automaton that tells tags from text.

A start tag is `<esi:`, a name of lower-case letters, attributes set off by whitespace or
by the quote that ends the attribute before, and `>` or `/>`.  An end tag is `</esi:`, a
name, whitespace and `>`.  An attribute is a key, `=` with whitespace allowed after it,
and a quoted value in which a backslash takes the next byte with it.

The automaton reads one byte at a time and decides two things about it: what the byte
does to the tag in hand (`State.move`), and which part of the tag it brings to an end
(`State.delimits?`).  Neither looks at the bytes before, so everything the automaton
knows about them is in the state.  Text in which no tag can start need not be read that
closely, and `tagStart?` finds the first place where one can.
-/
import EdgeIncludes.Markup.Event

namespace EdgeIncludes
namespace Scan

open Ascii

inductive State where
  | text
  | opened
  /-- Inside `esi:`, with so many of its bytes read. -/
  | inNamespace (closing : Bool) (matched : Nat)
  | inName (closing : Bool)
  | afterName
  | betweenAttributes
  | inKey
  | beforeValue
  | inValue (quote : UInt8)
  | escaped (quote : UInt8)
  /-- After the `/` that must be followed by `>`. -/
  | selfClosing
deriving Repr, DecidableEq

def State.isIdle (state : State) : Bool :=
  state == .text

/-! ## Moves -/

inductive Shape where
  | start
  | selfClosing
  | stop
deriving Repr, DecidableEq

def Shape.events (shape : Shape) (name : Bytes) (attributes : List Markup.Attribute) :
    List Markup.Event :=
  match shape with
  | .start => [.startTag name attributes]
  | .selfClosing => [.startTag name attributes, .endTag name]
  | .stop => [.endTag name]

inductive Move where
  | text
  /-- The byte starts a new tag, and what was in hand before is text. -/
  | begun
  | staged (next : State)
  /-- The byte cannot belong to the tag, so all of it is text. -/
  | rejected
  | completed (shape : Shape)
deriving Repr, DecidableEq

/-- What a byte does outside quotes, when it is not `<`. -/
def State.moveUnquoted (state : State) (b : UInt8) : Move :=
  match state with
  | .text => .text
  | .opened =>
    if b = slash then .staged (.inNamespace true 0)
    else if some b = namespaceBytes.head? then .staged (.inNamespace false 1)
    else .rejected
  | .inNamespace closing matched =>
    match namespaceBytes[matched]? with
    | some expected =>
      if b = expected then .staged (.inNamespace closing (matched + 1)) else .rejected
    | none => if isLower b then .staged (.inName closing) else .rejected
  | .inName closing =>
    if isLower b then .staged (.inName closing)
    else if b = greaterThan then .completed (if closing then .stop else .start)
    else if b = slash && !closing then .staged .selfClosing
    else if isSpace b then .staged (if closing then .afterName else .betweenAttributes)
    else .rejected
  | .afterName =>
    if b = greaterThan then .completed .stop
    else if isSpace b then .staged .afterName
    else .rejected
  | .betweenAttributes =>
    if b = greaterThan then .completed .start
    else if b = slash then .staged .selfClosing
    else if isSpace b then .staged .betweenAttributes
    else if isKeyStart b then .staged .inKey
    else .rejected
  | .inKey =>
    if b = equals then .staged .beforeValue
    else if isKeyByte b then .staged .inKey
    else .rejected
  | .beforeValue =>
    if isQuote b then .staged (.inValue b)
    else if isSpace b then .staged .beforeValue
    else .rejected
  | .selfClosing =>
    if b = greaterThan then .completed .selfClosing else .rejected
  | .inValue quote => .staged (.inValue quote)
  | .escaped quote => .staged (.inValue quote)

/-- What a byte does.  Inside quotes every byte is taken, `<` as well; outside them a
`<` always starts afresh. -/
def State.move (state : State) (b : UInt8) : Move :=
  match state with
  | .inValue quote =>
    if b = backslash then .staged (.escaped quote)
    else if b = quote then .staged .betweenAttributes
    else .staged (.inValue quote)
  | .escaped quote => .staged (.inValue quote)
  | _ => if b = lessThan then .begun else state.moveUnquoted b

/-! ## Parts -/

inductive Part where
  | nameEnd (closing : Bool)
  | keyEnd
  | valueStart
  | valueEnd
deriving Repr, DecidableEq

/-- The part of the tag that a byte sets a bound to, if there is one. -/
def State.delimits? (state : State) (b : UInt8) : Option Part :=
  match state with
  | .inName closing =>
    if b = greaterThan || isSpace b || (b = slash && !closing) then some (.nameEnd closing)
    else none
  | .inKey => if b = equals then some .keyEnd else none
  | .beforeValue => if isQuote b then some .valueStart else none
  | .inValue quote => if b = quote then some .valueEnd else none
  | _ => none

end Scan

namespace Markup

/-! ## Where a tag can start

Most of a body is no markup, and a chunk that starts outside every tag can be searched
for the first place that deserves a closer look.  Such a place is a suffix of the chunk
that is comparable with `<esi:` or `</esi:`: either it begins with one of the two, or the
chunk ends before the two can be told apart. -/

def startOpener : Bytes := Ascii.lessThan :: Ascii.namespaceBytes

def endOpener : Bytes := Ascii.lessThan :: Ascii.slash :: Ascii.namespaceBytes

/-- One of the two byte strings begins with the other. -/
def comparable (a b : Bytes) : Bool :=
  a.isPrefixOf b || b.isPrefixOf a

def mayOpen (bytes : Bytes) : Bool :=
  comparable startOpener bytes || comparable endOpener bytes

/-- The search of `tagStart?`, where `offset` is the offset of the given suffix. -/
def tagStartFrom? (offset : Nat) : Bytes → Option Nat
  | [] => none
  | b :: rest => if mayOpen (b :: rest) then some offset else tagStartFrom? (offset + 1) rest

/-- The least offset at which a tag could start, if there is one. -/
def tagStart? (bytes : Bytes) : Option Nat :=
  tagStartFrom? 0 bytes

end Markup
end EdgeIncludes
