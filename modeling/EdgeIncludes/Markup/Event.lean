/-
The events that scanned markup consists of.

A body is told as a sequence of start tags, end tags and output, where output is every
byte that belongs to no tag.  How much output comes at a time carries no meaning, and so
two event sequences say the same when they agree after adjacent outputs are joined.
`coalesce` is that normal form: no output in it is empty, and no two outputs in it are
adjacent.
-/
import EdgeIncludes.Text.Utf8

namespace EdgeIncludes
namespace Markup

/-! ## Attributes -/

structure Attribute where
  name : String
  value : String
deriving Repr, DecidableEq

/-- The attribute that a key and a value spell.  Bytes that are no text are replaced,
since an attribute must not make the body unreadable. -/
def Attribute.ofBytes (name value : Bytes) : Attribute :=
  ⟨Utf8.lenient name, Utf8.lenient value⟩

def Attribute.valueOf? (name : String) (attributes : List Attribute) : Option String :=
  (attributes.find? fun a => a.name == name).map Attribute.value

/-! ## Events -/

inductive Event where
  /-- A start tag with its name, which includes the namespace, and its attributes. -/
  | startTag (name : Bytes) (attributes : List Attribute)
  /-- An end tag, or the end that a self-closing tag implies. -/
  | endTag (name : Bytes)
  | output (bytes : Bytes)
deriving Repr, DecidableEq

inductive Event.Kind where
  | startTag
  | endTag
  | output
deriving Repr, DecidableEq

def Event.kind : Event → Event.Kind
  | .startTag .. => .startTag
  | .endTag _ => .endTag
  | .output _ => .output

/-- Put an event before events that are coalesced already: empty output adds nothing,
and output before output joins it. -/
def Event.prepend : Event → List Event → List Event
  | .output [], rest => rest
  | .output bytes, .output more :: rest => .output (bytes ++ more) :: rest
  | event, rest => event :: rest

/-- The same events with adjacent outputs joined and empty ones left out. -/
def Event.coalesce (events : List Event) : List Event :=
  events.foldr Event.prepend []

/-- What is heard of the events by a listener to these kinds only.  Outputs on both
sides of an event that is not heard become adjacent. -/
def Event.heard (kinds : List Event.Kind) (events : List Event) : List Event :=
  Event.coalesce (events.filter fun event => kinds.contains event.kind)

@[simp] theorem Event.coalesce_nil : Event.coalesce [] = [] := rfl

@[simp] theorem Event.coalesce_cons (event : Event) (rest : List Event) :
    Event.coalesce (event :: rest) = event.prepend (Event.coalesce rest) := rfl

@[simp] theorem Event.prepend_output_nil (rest : List Event) :
    Event.prepend (.output []) rest = rest := by
  cases rest <;> rfl

end Markup
end EdgeIncludes
