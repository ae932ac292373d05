/-
The tags that have a meaning.

A tag name is scanned as bytes and includes the namespace.  Seven names are known; every
other name of the namespace is scanned like them and then ignored.
-/
import EdgeIncludes.Bytes

namespace EdgeIncludes

inductive Tag where
  /-- `esi:try`: a group of attempts with what replaces them if they fail. -/
  | tryBlock
  /-- `esi:attempt`: content that stands unless its group fails. -/
  | attempt
  /-- `esi:except`: content that stands if its group has failed. -/
  | except
  /-- `esi:include`: a fragment to be fetched. -/
  | inclusion
  /-- `esi:invalidate`: an instruction to a cache, whose content is dropped. -/
  | invalidate
  /-- `esi:vars`: content in which variables may stand. -/
  | vars
  /-- `esi:remove`: content for clients that read no markup, which is dropped. -/
  | remove
deriving Repr, DecidableEq

namespace Tag

def all : List Tag :=
  [.tryBlock, .attempt, .except, .inclusion, .invalidate, .vars, .remove]

def localName : Tag → List Char
  | .tryBlock => ['t', 'r', 'y']
  | .attempt => ['a', 't', 't', 'e', 'm', 'p', 't']
  | .except => ['e', 'x', 'c', 'e', 'p', 't']
  | .inclusion => ['i', 'n', 'c', 'l', 'u', 'd', 'e']
  | .invalidate => ['i', 'n', 'v', 'a', 'l', 'i', 'd', 'a', 't', 'e']
  | .vars => ['v', 'a', 'r', 's']
  | .remove => ['r', 'e', 'm', 'o', 'v', 'e']

def name (tag : Tag) : Bytes :=
  Ascii.namespaceBytes ++ tag.localName.map Char.toUInt8

def text (tag : Tag) : String :=
  String.ofList ('e' :: 's' :: 'i' :: ':' :: tag.localName)

def ofName? (name : Bytes) : Option Tag :=
  all.find? fun tag => tag.name == name

/-- Output inside the tag can reach the page.  For `esi:except` this is subject to the
group it belongs to. -/
def retains : Tag → Bool
  | .attempt | .except | .vars => true
  | _ => false

@[simp] theorem ofName?_name (tag : Tag) : ofName? tag.name = some tag := by
  cases tag <;> decide

theorem eq_name_of_ofName? {tag : Tag} {name : Bytes} (h : ofName? name = some tag) :
    name = tag.name := by
  have hfound := List.find?_some h
  exact (eq_of_beq hfound).symm

end Tag
end EdgeIncludes
