/-
A page whose fragments are to be fetched.

A document is the output of a whole body with the requests of its includes.  The request
of a slot is found by the slot's number, and a request need not have a slot: an include
in a part that was dropped is registered and not fetched.
-/
import EdgeIncludes.Include.Request
import EdgeIncludes.Page.Fragment

namespace EdgeIncludes
namespace Page

def Segment.slot? : Segment → Option Nat
  | .literal _ => none
  | .slot number => some number

def Segment.fill (fragment? : Nat → Option Bytes) : Segment → Bytes
  | .literal bytes => bytes
  | .slot number => (fragment? number).getD []

structure Document where
  segments : List Segment := []
  /-- The registered requests, in the order of their numbers. -/
  requests : List Include.Request := []
deriving Repr, DecidableEq

namespace Document

def of (output : Fragment) (requests : List Include.Request) : Document :=
  ⟨output.segments, requests⟩

def request? (document : Document) (number : Nat) : Option Include.Request :=
  document.requests[number]?

/-- The slots of the output, each once, in the order of their first occurrence. -/
def pending (document : Document) : List Nat :=
  (document.segments.filterMap Segment.slot?).eraseDups

def isStatic (document : Document) : Bool :=
  !document.segments.any fun segment => segment.slot?.isSome

/-- The page with the given fragments in their slots.  A slot whose fragment is not there
stays empty. -/
def render (document : Document) (fragment? : Nat → Option Bytes) : Bytes :=
  document.segments.flatMap (Segment.fill fragment?)

end Document
end Page
end EdgeIncludes
