/-
The scanner: a body in chunks in, markup events out.

A scanner is a value.  `feed?` takes the next chunk and gives the scanner after it with
the events the chunk completed, and `finish` ends the body.  Where the body is cut must
not show in the events, which is why an unfinished tag keeps its bytes twice: staged, to
be let out if it turns out to be text, and carried, to read its name and its attributes
from if it is completed.

Every look into the carried bytes is checked, and `feed?` has no answer when a check
fails.  No scanner that starts fresh ever fails one; `feed` is the operation for those
who do not ask.
-/
import EdgeIncludes.Scan.Carry
import EdgeIncludes.Scan.State

namespace EdgeIncludes
namespace Scan

open Markup (Attribute Event)

structure Scanner where
  state : State := .text
  /-- The state before the last byte that was looked at closely. -/
  previous : State := .text
  /-- The bytes of the tag in hand, from its `<` on. -/
  staging : Staging := .empty
  /-- The bytes kept from earlier chunks, while a tag is in hand. -/
  carry : Option Carry := none
  cursors : Cursors := {}
  /-- The attributes of the tag in hand, oldest first. -/
  attributes : List Attribute := []
deriving Repr, DecidableEq

namespace Scanner

def fresh : Scanner := {}

/-! ## One byte -/

def discharged (scanner : Scanner) : Scanner :=
  { scanner with state := .text, staging := .empty, cursors := {}, attributes := [] }

/-- How many bytes come before the namespace in a tag: `<` or `</`. -/
def bracketLength (closing : Bool) : Nat :=
  if closing then 2 else 1

/-- Remember what the byte at `offset` sets a bound to.  The mark is where the next part
will be looked for, so it moves to that byte; what lies between the two marks is the part
with its delimiters. -/
def note? (buffer : Bytes) (offset : Nat) (part : Part) (scanner : Scanner) :
    Option Scanner := do
  let cursors := scanner.cursors
  match part with
  | .nameEnd closing =>
    let mark ← cursors.mark
    let name ← (Span.between (mark + bracketLength closing) offset).trim? buffer
    some { scanner with cursors := { cursors with name := some name, mark := some offset } }
  | .keyEnd =>
    let mark ← cursors.mark
    let key ← (Span.between mark offset).trim? buffer
    some { scanner with cursors := { cursors with key := some key, mark := some offset } }
  | .valueStart =>
    let mark ← cursors.mark
    some { scanner with cursors := { cursors with value := some ⟨mark, 0⟩ } }
  | .valueEnd =>
    let key ← cursors.key
    let value ← cursors.value
    let name ← key.slice? buffer
    let raw ← (Span.between value.start offset).slice? buffer
    some { scanner with
      cursors := { cursors with key := none, value := none, mark := some offset }
      attributes := scanner.attributes ++ [Attribute.ofBytes name (Markup.valueBytes raw)] }

def perform? (buffer : Bytes) (offset : Nat) (b : UInt8) (move : Move) (scanner : Scanner) :
    Option (Scanner × List Event) :=
  match move with
  | .text => some (scanner, [.output [b]])
  | .begun =>
    some ({ scanner.discharged with
        state := .opened
        staging := Staging.empty.push b
        cursors := { mark := some offset } },
      scanner.staging.release)
  | .staged next => some ({ scanner with state := next, staging := scanner.staging.push b }, [])
  | .rejected => some (scanner.discharged, scanner.staging.release ++ [.output [b]])
  | .completed shape => do
    let span ← scanner.cursors.name
    let name ← span.slice? buffer
    some (scanner.discharged, shape.events name scanner.attributes)

/-- Read the byte `b` at `offset` of the buffer.  Text outside every tag is not looked at
closely, so it leaves the previous state alone. -/
def step? (buffer : Bytes) (offset : Nat) (b : UInt8) (scanner : Scanner) :
    Option (Scanner × List Event) := do
  let move := scanner.state.move b
  let noted ← match scanner.state.delimits? b with
    | none => some scanner
    | some part => scanner.note? buffer offset part
  let previous := if move = .text then scanner.previous else scanner.state
  noted.perform? buffer offset b move |>.map fun (after, events) =>
    ({ after with previous }, events)

/-! ## A run of bytes -/

structure Run where
  scanner : Scanner
  offset : Nat
  events : Array Event

def Run.step? (buffer : Bytes) (run : Run) (b : UInt8) : Option Run := do
  let (scanner, events) ← run.scanner.step? buffer run.offset b
  some ⟨scanner, run.offset + 1, run.events ++ events⟩

/-- Read the buffer from `offset` on, where `rest` is what it holds from there. -/
def scan? (buffer : Bytes) (offset : Nat) (rest : Bytes) (scanner : Scanner) :
    Option (Scanner × List Event) := do
  let run ← rest.foldlM (Run.step? buffer) ⟨scanner, offset, #[]⟩
  some (run.scanner, run.events.toList)

/-! ## Chunks -/

def retain? (buffer : Bytes) (scanner : Scanner) : Option Scanner :=
  if scanner.state.isIdle then some { scanner with carry := none }
  else do
    let (carry, cursors) ← Carry.capture? buffer scanner.cursors
    some { scanner with carry := some carry, cursors }

/-- Take the next chunk.  With a tag in hand the chunk goes behind the bytes carried;
without one it is searched for the first place where a tag could start, and what comes
before is text. -/
def feed? (scanner : Scanner) (chunk : Bytes) : Option (Scanner × List Event) :=
  match scanner.carry with
  | some carry => do
    let whole := carry.append chunk
    let (after, events) ← scanner.scan? whole.data carry.resumeAt chunk
    let kept ← after.retain? whole.data
    some (kept, Event.coalesce events)
  | none =>
    match Markup.tagStart? chunk with
    | none => some (scanner, Event.coalesce [.output chunk])
    | some offset => do
      let (after, events) ← scanner.scan? chunk offset (chunk.drop offset)
      let kept ← after.retain? chunk
      some (kept, Event.coalesce (.output (chunk.take offset) :: events))

/-- Take the next chunk; a scanner that cannot, which no fresh one becomes, stays as it
is. -/
def feed (scanner : Scanner) (chunk : Bytes) : Scanner × List Event :=
  (scanner.feed? chunk).getD (scanner, [])

/-- End the body: the bytes of an unfinished tag are text. -/
def finish (scanner : Scanner) : Scanner × List Event :=
  ({ fresh with previous := scanner.state }, scanner.staging.release)

/-! ## Sequences of calls -/

inductive Call where
  | feed (chunk : Bytes)
  | finish
  | reset
deriving Repr, DecidableEq

def call? (scanner : Scanner) : Call → Option (Scanner × List Event)
  | .feed chunk => scanner.feed? chunk
  | .finish => some scanner.finish
  | .reset => some (fresh, [])

/-! ## Bodies -/

/-- Take chunks one after the other.  The events are given as they come. -/
def feedAll (scanner : Scanner) : List Bytes → Scanner × List Event
  | [] => (scanner, [])
  | chunk :: rest =>
    let (next, events) := scanner.feed chunk
    let (last, more) := next.feedAll rest
    (last, events ++ more)

def events (body : List Bytes) : List Event :=
  let (scanner, events) := fresh.feedAll body
  Event.coalesce (events ++ scanner.finish.2)

end Scanner
end Scan
end EdgeIncludes
