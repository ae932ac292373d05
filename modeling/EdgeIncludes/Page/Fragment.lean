/-
Output that still has gaps in it.

What a tag collects is a list of segments: bytes of the body, and slots for fragments
that are to be fetched.  The list is kept in a normal form, with no empty bytes and no
two byte segments side by side, so that two fragments with the same content are equal
however the content came in.
-/
import EdgeIncludes.Bytes

namespace EdgeIncludes
namespace Page

inductive Segment where
  | literal (bytes : Bytes)
  | slot (number : Nat)
deriving Repr, DecidableEq

structure Fragment where
  segments : List Segment := []
deriving Repr, DecidableEq

namespace Fragment

def empty : Fragment := {}

/-- Put bytes at the end of the segments, joining them to bytes that stand there. -/
def addLiteral (bytes : Bytes) : List Segment → List Segment
  | [] => [.literal bytes]
  | [.literal last] => [.literal (last ++ bytes)]
  | segment :: rest => segment :: addLiteral bytes rest

def pushBytes (fragment : Fragment) (bytes : Bytes) : Fragment :=
  if bytes.isEmpty then fragment else ⟨addLiteral bytes fragment.segments⟩

def pushSlot (fragment : Fragment) (number : Nat) : Fragment :=
  ⟨fragment.segments ++ [.slot number]⟩

def push (fragment : Fragment) : Segment → Fragment
  | .literal bytes => fragment.pushBytes bytes
  | .slot number => fragment.pushSlot number

def append (fragment other : Fragment) : Fragment :=
  other.segments.foldl push fragment

instance : Append Fragment := ⟨append⟩

end Fragment
end Page
end EdgeIncludes
