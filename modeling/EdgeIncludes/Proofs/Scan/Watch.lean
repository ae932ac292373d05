/-
The scanner under watch.

A watched scanner goes through its buffer as the scanner is meant to: one loop over offsets
that skips to the next `<` outside of tags and reads byte by byte inside them, with the
text let out in runs that are cut from the buffer.  Everything it does with an offset is
checked, and so is everything it relies on.  It stops where a byte or a range is not inside
the buffer, where a difference of offsets would be negative, where a span that is needed is
not there, and where a span does not denote what it was set on.

For the last of these it keeps what the scanner does not: the whole stream, and for the key
and the value the place in the stream and the bytes that their spans were set on.  None of
that is looked at except to check.
-/
import EdgeIncludes.Proofs.Scan.Offsets

namespace EdgeIncludes
namespace Scan

open Ascii Markup

/-- What a span was set on: a place in the stream, and the bytes that are there. -/
structure Memory where
  place : Nat
  bytes : Bytes
deriving Repr, DecidableEq

/-- The name of a tag is the namespace and at least one lower-case letter. -/
def isTagName (name : Bytes) : Bool :=
  name.take namespaceBytes.length == namespaceBytes &&
    name.length > namespaceBytes.length && (name.drop namespaceBytes.length).all isLower

/-- Go on only if the condition holds. -/
def require (p : Prop) [Decidable p] : Option Unit :=
  if p then some () else none

theorem require_of {p : Prop} [Decidable p] (h : p) : require p = some () :=
  if_pos h

structure Watch where
  scanner : Scanner := .fresh
  /-- Every byte that was taken so far, in the order in which they came. -/
  stream : Bytes := []
  key : Option Memory := none
  value : Option Memory := none
deriving Repr, DecidableEq

namespace Watch

/-! ## One byte -/

/-- The place in the stream of an offset into the buffer, which is the stream's end. -/
def place (watch : Watch) (buffer : Bytes) (offset : Nat) : Nat :=
  watch.stream.length - buffer.length + offset

def discharged (watch : Watch) : Watch :=
  { watch with scanner := watch.scanner.discharged, key := none, value := none }

def withCursors (watch : Watch) (cursors : Cursors) : Watch :=
  { watch with scanner := { watch.scanner with cursors } }

/-- Remember what the byte at `offset` sets a bound to.  A value's span is set on the `=` in
front of it, and what must be found there again is everything up to its opening quote. -/
def note? (buffer : Bytes) (offset : Nat) (part : Part) (watch : Watch) : Option Watch := do
  let scanner := watch.scanner
  let cursors := scanner.cursors
  match part with
  | .nameEnd closing =>
    let mark ← cursors.mark
    let between ← Span.ordered? (mark + Scanner.bracketLength closing) offset
    let name ← between.trimmed? buffer
    some (watch.withCursors { cursors with name := some name, mark := some offset })
  | .keyEnd =>
    let mark ← cursors.mark
    let between ← Span.ordered? mark offset
    let key ← between.trimmed? buffer
    let bytes ← key.slice? buffer
    some { watch.withCursors { cursors with key := some key, mark := some offset } with
      key := some ⟨watch.place buffer key.start, bytes⟩ }
  | .valueStart =>
    let mark ← cursors.mark
    let bytes ← range? buffer mark (offset + 1)
    some { watch.withCursors { cursors with value := some ⟨mark, 0⟩ } with
      value := some ⟨watch.place buffer mark, bytes⟩ }
  | .valueEnd =>
    let key ← cursors.key
    let value ← cursors.value
    let name ← key.slice? buffer
    let between ← Span.ordered? value.start offset
    let raw ← between.slice? buffer
    let trimmed ← between.trimmedValue? buffer
    let bytes ← trimmed.slice? buffer
    let opening ← watch.value
    require (watch.key = some ⟨watch.place buffer key.start, name⟩)
    require (opening.place = watch.place buffer value.start ∧ opening.bytes <+: raw)
    some { watch with
      scanner := { scanner with
        cursors := { cursors with key := none, value := none, mark := some offset }
        attributes := scanner.attributes ++ [Attribute.ofBytes name (unescape bytes)] }
      key := none
      value := none }

/-- Act on the byte at `offset`.  A byte that is text itself is not let out here: the loop
does so with the run that it belongs to. -/
def perform? (buffer : Bytes) (offset : Nat) (b : UInt8) (move : Move) (watch : Watch) :
    Option (Watch × List Event) :=
  let scanner := watch.scanner
  match move with
  | .text => some (watch, [])
  | .begun => some ({ watch.discharged with
      scanner := { scanner.discharged with
        state := .opened
        staging := Staging.empty.push b
        cursors := { mark := some offset } } },
      scanner.staging.release)
  | .staged next => some ({ watch with
      scanner := { scanner with state := next, staging := scanner.staging.push b } }, [])
  | .rejected => some (watch.discharged, scanner.staging.release)
  | .completed shape => do
    let span ← scanner.cursors.name
    let name ← span.slice? buffer
    require (isTagName name)
    require (range? watch.stream (watch.place buffer span.start) (watch.place buffer span.stop) =
      some name)
    some (watch.discharged, shape.events name scanner.attributes)

/-- Read the byte at `offset` closely, and tell what it did. -/
def step? (buffer : Bytes) (offset : Nat) (watch : Watch) :
    Option (Watch × Move × List Event) := do
  let b ← buffer[offset]?
  let state := watch.scanner.state
  let noted ← match state.delimits? b with
    | none => some watch
    | some part => watch.note? buffer offset part
  let (after, events) ← noted.perform? buffer offset b (state.move b)
  some ({ after with scanner := { after.scanner with previous := state } }, state.move b, events)

end Watch

/-! ## The loop over a buffer -/

/-- How far the loop over a buffer has come. -/
structure Loop where
  watch : Watch
  /-- Where the text starts that was not let out yet. -/
  run : Nat
  offset : Nat
deriving Repr, DecidableEq

namespace Loop

/-- Where the text that was not let out starts once the byte at `offset` did its move. -/
def runAfter (run offset : Nat) : Move → Nat
  | .text | .begun | .staged _ => run
  | .rejected => offset
  | .completed _ => offset + 1

/-- The loop behind the byte at its offset, which did the move under this watch. -/
def stepped (loop : Loop) (watch : Watch) (move : Move) : Loop :=
  ⟨watch, runAfter loop.run loop.offset move, loop.offset + 1⟩

/-- Outside of tags go to the next `<` and let out the text before it, or go to the end. -/
def skip? (buffer : Bytes) (loop : Loop) : Option (Loop × List Event) :=
  if loop.watch.scanner.state.isIdle then do
    let ahead ← range? buffer loop.offset buffer.length
    match ahead.idxOf? lessThan with
    | some skipped =>
      let found := loop.offset + skipped
      let text ← range? buffer loop.run found
      some ({ loop with run := found, offset := found }, [.output text])
    | none => some ({ loop with offset := buffer.length }, [])
  else some (loop, [])

def turn? (buffer : Bytes) (loop : Loop) : Option (Loop × List Event) := do
  let (found, text) ← loop.skip? buffer
  if found.offset < buffer.length then
    let (watch, move, events) ← found.watch.step? buffer found.offset
    some (found.stepped watch move, text ++ events)
  else some (found, text)

/-- Turn after turn to the end of the buffer.  A turn must move on. -/
def toEnd? (buffer : Bytes) (loop : Loop) : Option (Loop × List Event) :=
  if loop.offset < buffer.length then
    match loop.turn? buffer with
    | none => none
    | some (next, events) =>
      if loop.offset < next.offset then
        (next.toEnd? buffer).map fun (last, more) => (last, events ++ more)
      else none
  else some (loop, [])
termination_by buffer.length - loop.offset

end Loop

namespace Watch

/-- Read the buffer, which must be the end of the stream, from an offset on. -/
def scan? (buffer : Bytes) (start : Nat) (watch : Watch) : Option (Watch × List Event) := do
  require (buffer <:+ watch.stream)
  let (last, events) ← Loop.toEnd? buffer ⟨watch, start, start⟩
  if last.watch.scanner.state.isIdle then
    let text ← range? buffer last.run last.offset
    some (last.watch, events ++ [.output text])
  else some (last.watch, events)

/-! ## Calls -/

def retain? (buffer : Bytes) (watch : Watch) : Option Watch :=
  if watch.scanner.state.isIdle then
    some { watch with scanner := { watch.scanner with carry := none } }
  else do
    let surplus := Carry.surplus buffer watch.scanner.cursors
    let kept ← range? buffer surplus buffer.length
    let cursors ← watch.scanner.cursors.rebase? surplus
    some { watch with scanner := { watch.scanner with carry := some ⟨kept⟩, cursors } }

def feed? (watch : Watch) (chunk : Bytes) : Option (Watch × List Event) :=
  let taken := { watch with stream := watch.stream ++ chunk }
  match watch.scanner.carry with
  | some carry => do
    let whole := carry.append chunk
    let (after, events) ← taken.scan? whole.data carry.resumeAt
    let kept ← after.retain? whole.data
    some (kept, Event.coalesce events)
  | none =>
    match tagStart? chunk with
    | none => some (taken, Event.coalesce [.output chunk])
    | some offset => do
      let text ← range? chunk 0 offset
      let (after, events) ← taken.scan? chunk offset
      let kept ← after.retain? chunk
      some (kept, Event.coalesce (.output text :: events))

/-- End the body.  Nothing is in hand after that, but the stream goes on. -/
def ended (watch : Watch) (scanner : Scanner) : Watch :=
  { scanner, stream := watch.stream }

def call? (watch : Watch) : Scanner.Call → Option (Watch × List Event)
  | .feed chunk => watch.feed? chunk
  | .finish => some (watch.ended watch.scanner.finish.1, watch.scanner.finish.2)
  | .reset => some (watch.ended .fresh, [])

def run? (watch : Watch) : List Scanner.Call → Option (Watch × List Event)
  | [] => some (watch, [])
  | first :: rest => do
    let (next, events) ← watch.call? first
    let (last, more) ← next.run? rest
    some (last, events ++ more)

end Watch
end Scan
end EdgeIncludes
