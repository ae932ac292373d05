/-
The places in the scan buffer that an unfinished tag still needs.

A tag in progress remembers where it started, where its name is, and where the key and
the value being read are, all as offsets into the bytes at hand.  When bytes are dropped
from the front of the buffer every one of these offsets moves by the same amount.  The
operations that could go wrong check themselves: a span that reaches past the buffer has
no bytes, and offsets that would pass below zero cannot be moved.
-/
import EdgeIncludes.Markup.Trim

namespace EdgeIncludes
namespace Scan

/-! ## Spans -/

structure Span where
  start : Nat
  length : Nat
deriving Repr, DecidableEq

def Span.stop (span : Span) : Nat := span.start + span.length

/-- The span from one offset up to another, which is empty if they are the wrong way
round. -/
def Span.between (start stop : Nat) : Span := ⟨start, stop - start⟩

def Span.slice? (span : Span) (buffer : Bytes) : Option Bytes :=
  if span.stop ≤ buffer.length then some ((buffer.drop span.start).take span.length) else none

def Span.trim? (span : Span) (buffer : Bytes) : Option Span := do
  let bytes ← span.slice? buffer
  let kept := Markup.trimLeft bytes
  some ⟨span.start + (bytes.length - kept.length), (Markup.trimRight kept).length⟩

/-! ## Cursors -/

/-- Every offset that must outlive the chunk it was found in. -/
structure Cursors where
  /-- Where the piece of the tag that is being read starts. -/
  mark : Option Nat := none
  name : Option Span := none
  /-- The attribute's key, once its `=` was read. -/
  key : Option Span := none
  value : Option Span := none
deriving Repr, DecidableEq

namespace Cursors

def offsets (cursors : Cursors) : List Nat :=
  [cursors.mark, cursors.name.map Span.start, cursors.key.map Span.start,
    cursors.value.map Span.start].filterMap id

/-- The least offset that is still needed, if any is. -/
def lowest? (cursors : Cursors) : Option Nat :=
  cursors.offsets.min?

/-- The span as it reads once `shift` bytes in front of it are gone. -/
def shifted (shift : Nat) (span : Span) : Span :=
  { span with start := span.start - shift }

/-- The cursors once `shift` bytes are gone from the front of the buffer.  None of them
may point at a byte that is gone. -/
def rebase? (cursors : Cursors) (shift : Nat) : Option Cursors :=
  if cursors.offsets.all fun offset => shift ≤ offset then
    some {
      mark := cursors.mark.map fun mark => mark - shift
      name := cursors.name.map (shifted shift)
      key := cursors.key.map (shifted shift)
      value := cursors.value.map (shifted shift) }
  else none

end Cursors
end Scan
end EdgeIncludes
