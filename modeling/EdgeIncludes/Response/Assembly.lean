/-
A page whose fragments are being fetched.

A fetch is known by the token that the host gave for it, and the assembly remembers what
each token stands for until it is answered.  The fragments fetched so far are kept by
slot.  The page is done when no fetch is outstanding, whether or not every slot has been
filled.
-/
import EdgeIncludes.Page.Document
import Std.Data.TreeMap

namespace EdgeIncludes
namespace Response

structure Fetch where
  slot : Nat
  viaAlt : Bool
deriving Repr, DecidableEq

structure Assembly where
  document : Page.Document
  bodySize : Nat
  fragments : Std.TreeMap Nat Bytes := {}
  /-- The fetches that are not answered, by token. -/
  outstanding : Std.TreeMap Nat Fetch := {}

namespace Assembly

def request? (assembly : Assembly) (slot : Nat) : Option Include.Request :=
  assembly.document.request? slot

def track (assembly : Assembly) (token : Nat) (fetch : Fetch) : Assembly :=
  { assembly with outstanding := assembly.outstanding.insert token fetch }

def fetch? (assembly : Assembly) (token : Nat) : Option Fetch :=
  assembly.outstanding[token]?

def settle (assembly : Assembly) (token : Nat) : Assembly :=
  { assembly with outstanding := assembly.outstanding.erase token }

def fill (assembly : Assembly) (slot : Nat) (fragment : Bytes) : Assembly :=
  { assembly with fragments := assembly.fragments.insert slot fragment }

def isDone (assembly : Assembly) : Bool :=
  assembly.outstanding.isEmpty

def filled (assembly : Assembly) : Nat :=
  assembly.fragments.size

def render (assembly : Assembly) : Bytes :=
  assembly.document.render fun slot => assembly.fragments[slot]?

inductive Call where
  | track (token : Nat) (fetch : Fetch)
  | settle (token : Nat)
  | fill (slot : Nat) (fragment : Bytes)
deriving Repr, DecidableEq

def after (assembly : Assembly) : Call → Assembly
  | .track token fetch => assembly.track token fetch
  | .settle token => assembly.settle token
  | .fill slot fragment => assembly.fill slot fragment

end Assembly
end Response
end EdgeIncludes
