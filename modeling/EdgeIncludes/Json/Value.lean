/-
JSON values, and their reading from tokens.

A reader holds the containers that are not closed yet in a list, innermost first, so that
no text is nested too deep for it.  What it waits for is a state of its own, and the two
together say exactly which tokens may follow.
-/
import EdgeIncludes.Json.Token

namespace EdgeIncludes
namespace Json

/-- A JSON value.  Members are kept in the order in which they are written, also those
that have the same name. -/
inductive Value where
  | null
  | bool (value : Bool)
  /-- A number, with its value if it is written as a count. -/
  | number (count : Option Nat)
  /-- A string, with its text if it has one. -/
  | text (value : Option (List Char))
  | array (items : List Value)
  | object (members : List (Option (List Char) × Value))

/-- The name of a member, if it has a text, and its value. -/
abbrev Member := Option (List Char) × Value

/-- A container that the value being read is part of, with its parts so far, last one
first. -/
inductive Frame where
  | array (done : List Value)
  | object (done : List Member) (name : Option (List Char))

inductive Awaiting where
  | value
  | firstItem
  | firstName
  | name (done : List Member)
  | colon (done : List Member) (name : Option (List Char))
  | afterItem (done : List Value)
  | afterMember (done : List Member)
  /-- Nothing: the value is complete. -/
  | nothing (value : Value)

structure Reader where
  awaiting : Awaiting := .value
  /-- The containers around it, innermost first. -/
  frames : List Frame := []

namespace Reader

def complete (value : Value) : List Frame → Reader
  | [] => ⟨.nothing value, []⟩
  | .array done :: outer => ⟨.afterItem (value :: done), outer⟩
  | .object done name :: outer => ⟨.afterMember ((name, value) :: done), outer⟩

def start? (frames : List Frame) : Token → Option Reader
  | .null => some (complete .null frames)
  | .bool value => some (complete (.bool value) frames)
  | .number count => some (complete (.number count) frames)
  | .text value => some (complete (.text value) frames)
  | .beginArray => some ⟨.firstItem, .array [] :: frames⟩
  | .beginObject => some ⟨.firstName, frames⟩
  | _ => none

def step? (reader : Reader) (token : Token) : Option Reader :=
  match reader.awaiting, token with
  | .value, token => start? reader.frames token
  | .firstItem, .endArray => some (complete (.array []) (reader.frames.drop 1))
  | .firstItem, token => start? reader.frames token
  | .firstName, .endObject => some (complete (.object []) reader.frames)
  | .firstName, .text name => some { reader with awaiting := .colon [] name }
  | .name done, .text name => some { reader with awaiting := .colon done name }
  | .colon done name, .colon => some ⟨.value, .object done name :: reader.frames⟩
  | .afterItem done, .comma => some ⟨.value, .array done :: reader.frames⟩
  | .afterItem done, .endArray => some (complete (.array done.reverse) reader.frames)
  | .afterMember done, .comma => some { reader with awaiting := .name done }
  | .afterMember done, .endObject => some (complete (.object done.reverse) reader.frames)
  | _, _ => none

def value? (reader : Reader) : Option Value :=
  match reader.awaiting with
  | .nothing value => some value
  | _ => none

end Reader

def Value.ofTokens? (tokens : List Token) : Option Value :=
  (tokens.foldlM Reader.step? {}).bind Reader.value?

def Value.read? (text : List Char) : Option Value :=
  (tokens? text).bind Value.ofTokens?

end Json
end EdgeIncludes
