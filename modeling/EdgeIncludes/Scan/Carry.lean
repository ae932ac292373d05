/-
The bytes of a tag that is not over yet, kept twice.

A `<` may start a tag or be text.  The bytes from there on are staged until it is known:
a completed tag discards them, and anything else lets them out as output.

A body may be cut anywhere, also inside a tag.  When a chunk ends there, its bytes from
the lowest cursor on are carried and the cursors are moved along; the next chunk is put
behind them.  Offsets are not disturbed by what is put behind, so that only the cut at
the front ever moves a cursor.
-/
import EdgeIncludes.Markup.Event
import EdgeIncludes.Scan.Cursors

namespace EdgeIncludes
namespace Scan

/-! ## The bytes whose fate is not decided -/

/-- Bytes that are neither output nor part of a tag so far. -/
structure Staging where
  /-- The staged bytes, oldest first. -/
  bytes : Array UInt8 := #[]
deriving Repr, DecidableEq

namespace Staging

def push (staging : Staging) (b : UInt8) : Staging :=
  ⟨staging.bytes.push b⟩

def pushAll (staging : Staging) (bytes : Bytes) : Staging :=
  bytes.foldl push staging

def empty : Staging := {}

/-- What comes out when the staged bytes turn out to be text, which is nothing at all
if none are staged. -/
def released? (staging : Staging) : Option Bytes :=
  if staging.bytes.isEmpty then none else some staging.bytes.toList

def release (staging : Staging) : List Markup.Event :=
  staging.released?.toList.map Markup.Event.output

end Staging

/-! ## The bytes that wait for the next chunk -/

/-- The unread end of the body so far, starting no later than the lowest cursor. -/
structure Carry where
  data : Bytes
deriving Repr, DecidableEq

namespace Carry

/-- How many bytes at the front of the buffer no cursor needs.  Cursors past the end need
none of them, and neither do cursors that are not set. -/
def surplus (buffer : Bytes) (cursors : Cursors) : Nat :=
  min (cursors.lowest?.getD buffer.length) buffer.length

/-- Keep what the cursors still need of a buffer, and move them along. -/
def capture? (buffer : Bytes) (cursors : Cursors) : Option (Carry × Cursors) := do
  let surplus := surplus buffer cursors
  let moved ← cursors.rebase? surplus
  some (⟨buffer.drop surplus⟩, moved)

def append (carry : Carry) (chunk : Bytes) : Carry :=
  ⟨carry.data ++ chunk⟩

def resumeAt (carry : Carry) : Nat :=
  carry.data.length

def compact? (carry : Carry) (cursors : Cursors) : Option (Carry × Cursors) :=
  capture? carry.data cursors

end Carry
end Scan
end EdgeIncludes
