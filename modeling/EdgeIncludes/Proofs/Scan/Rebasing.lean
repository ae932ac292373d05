/-
Dropping bytes from the front moves no cursor off its byte.

A carry is cut at its front whenever it is captured or compacted, and it grows at its end in
between.  Cursors are offsets into what is left of it, and so one and the same byte has a smaller
offset after every cut.  What stays is the place of a cursor in the stream, that is, in all the
bytes there were: its offset and the number of bytes dropped so far.  `Holding.Tracks` says this
of the bytes at hand and all cursors together, one operation keeps it (`Tracks.perform`), and so
does any sequence of them.

A cut is made at the lowest cursor, but not behind the end.  Cursors may lie there too, and then
they are moved by what was dropped and not by what they would allow to drop; the rest is dropped
by a later cut, once the bytes have come.  This is why the place of a cut in the stream is that of
the lowest cursor as far as the stream reaches (`Tracks.surplus_eq`), whatever was cut before.

Nothing is asked of the bytes and the cursors to start from.  Someone who sets a cursor or lets one
go between two operations starts anew from there.
-/
import EdgeIncludes.Proofs.Scan.Offsets
import EdgeIncludes.Scan.Carry
import Mathlib.Data.List.Induction

namespace EdgeIncludes
namespace Scan

/-! ## Spans and the front of the buffer -/

namespace Span

/-- The span as it reads once so many bytes are put in front of the buffer. -/
def advanced (distance : Nat) (span : Span) : Span :=
  { span with start := span.start + distance }

theorem advanced_advanced (span : Span) (first second : Nat) :
    (span.advanced first).advanced second = span.advanced (first + second) := by
  rw [advanced, advanced, advanced, Nat.add_assoc]

theorem shifted_advanced (shift : Nat) (span : Span) :
    Cursors.shifted shift (span.advanced shift) = span := by
  rw [Cursors.shifted, advanced, Nat.add_sub_cancel]

theorem advanced_shifted {shift : Nat} {span : Span} (h : shift ≤ span.start) :
    (Cursors.shifted shift span).advanced shift = span := by
  rw [Cursors.shifted, advanced, Nat.sub_add_cancel h]

theorem slice?_drop {stream : Bytes} {dropped : Nat} (h : dropped ≤ stream.length) (span : Span) :
    span.slice? (stream.drop dropped) = (span.advanced dropped).slice? stream := by
  have hstop : span.stop ≤ (stream.drop dropped).length ↔
      (span.advanced dropped).stop ≤ stream.length := by
    show span.start + span.length ≤ (stream.drop dropped).length ↔
      span.start + dropped + span.length ≤ stream.length
    rw [List.length_drop]
    omega
  simp only [slice?, hstop, List.drop_drop]
  rw [advanced, Nat.add_comm]

/-- A span inside the buffer does not see what is put behind it. -/
theorem slice?_append {span : Span} {buffer bytes : Bytes} (h : span.slice? buffer = some bytes)
    (more : Bytes) : span.slice? (buffer ++ more) = some bytes := by
  obtain ⟨front, back, rfl, rfl⟩ := exists_split h
  rw [List.append_assoc _ back]
  exact slice?_middle front bytes (back ++ more)

end Span

/-! ## All cursors at once -/

namespace Cursors

/-- The cursors as they read once so many bytes are put in front of the buffer. -/
def advanced (distance : Nat) (cursors : Cursors) : Cursors where
  mark := cursors.mark.map fun mark => mark + distance
  name := cursors.name.map (Span.advanced distance)
  key := cursors.key.map (Span.advanced distance)
  value := cursors.value.map (Span.advanced distance)

theorem advanced_zero (cursors : Cursors) : cursors.advanced 0 = cursors := by
  have hspan : Span.advanced 0 = id := rfl
  simp [advanced, hspan]

theorem advanced_advanced (cursors : Cursors) (first second : Nat) :
    (cursors.advanced first).advanced second = cursors.advanced (first + second) := by
  simp only [advanced, Option.map_map, Function.comp_def, Span.advanced_advanced, Nat.add_assoc]

theorem offsets_advanced (cursors : Cursors) (distance : Nat) :
    (cursors.advanced distance).offsets = cursors.offsets.map fun offset => offset + distance := by
  obtain ⟨mark, name, key, value⟩ := cursors
  cases mark <;> cases name <;> cases key <;> cases value <;> rfl

theorem lowest?_advanced (cursors : Cursors) (distance : Nat) :
    (cursors.advanced distance).lowest? = cursors.lowest?.map fun low => low + distance := by
  rw [lowest?, lowest?, offsets_advanced]
  cases hlow : cursors.offsets.min? with
  | none =>
    rw [List.min?_eq_none_iff.mp hlow]
    rfl
  | some low =>
    obtain ⟨hmem, hleast⟩ := List.min?_eq_some_iff.mp hlow
    rw [Option.map_some, List.min?_eq_some_iff]
    refine ⟨List.mem_map_of_mem hmem, ?_⟩
    intro _ hmoved
    obtain ⟨offset, hoffset, rfl⟩ := List.mem_map.mp hmoved
    exact Nat.add_le_add_right (hleast offset hoffset) distance

/-- Rebasing undoes putting bytes in front. -/
theorem rebase?_advanced (cursors : Cursors) (shift : Nat) :
    (cursors.advanced shift).rebase? shift = some cursors := by
  have hle : ((cursors.advanced shift).offsets.all fun offset => shift ≤ offset) = true := by
    simp [offsets_advanced]
  rw [rebase?, if_pos hle]
  simp [advanced, Function.comp_def, Span.shifted_advanced]

theorem eq_of_advanced_eq {cursors others : Cursors} {distance : Nat}
    (h : cursors.advanced distance = others.advanced distance) : cursors = others := by
  have hrebase := cursors.rebase?_advanced distance
  rw [h, others.rebase?_advanced distance] at hrebase
  exact (Option.some.inj hrebase).symm

theorem exists_advanced {cursors : Cursors} {shift : Nat}
    (h : ∀ offset ∈ cursors.offsets, shift ≤ offset) :
    ∃ moved : Cursors, moved.advanced shift = cursors := by
  have hmark : (cursors.mark.map fun mark => mark - shift).map (fun mark => mark + shift) =
      cursors.mark := by
    cases hmark : cursors.mark with
    | none => rfl
    | some mark => exact congrArg some (Nat.sub_add_cancel (h mark (by simp [offsets, hmark])))
  have hpart : ∀ {part}, part = cursors.name ∨ part = cursors.key ∨ part = cursors.value →
      (part.map (shifted shift)).map (Span.advanced shift) = part := by
    intro part hpart
    cases part with
    | none => rfl
    | some span =>
      have hstart : span.start ∈ cursors.offsets := by
        rcases hpart with h | h | h <;> simp [offsets, ← h]
      exact congrArg some (Span.advanced_shifted (h span.start hstart))
  refine ⟨⟨cursors.mark.map fun mark => mark - shift, cursors.name.map (shifted shift),
    cursors.key.map (shifted shift), cursors.value.map (shifted shift)⟩, ?_⟩
  rw [advanced, hmark, hpart (.inl rfl), hpart (.inr (.inl rfl)), hpart (.inr (.inr rfl))]

/-- Cursors of which none passes below zero can be rebased. -/
theorem exists_rebase? {cursors : Cursors} {shift : Nat}
    (h : ∀ offset ∈ cursors.offsets, shift ≤ offset) :
    ∃ moved, cursors.rebase? shift = some moved ∧ moved.advanced shift = cursors := by
  obtain ⟨moved, rfl⟩ := exists_advanced h
  exact ⟨moved, rebase?_advanced moved shift, rfl⟩

end Cursors

/-! ## The cut -/

namespace Carry

theorem surplus_le_of_mem_offsets {cursors : Cursors} {offset : Nat}
    (h : offset ∈ cursors.offsets) (buffer : Bytes) : surplus buffer cursors ≤ offset := by
  obtain ⟨low, hlow⟩ := Option.isSome_iff_exists.mp (List.isSome_min?_of_mem h)
  have hle : low ≤ offset := (List.min?_eq_some_iff.mp hlow).2 offset h
  rw [surplus, Cursors.lowest?, hlow, Option.getD_some]
  exact Nat.le_trans (Nat.min_le_left low buffer.length) hle

/-- A capture cannot fail, and the bytes that it drops are the surplus. -/
theorem exists_capture? (buffer : Bytes) (cursors : Cursors) :
    ∃ moved, capture? buffer cursors = some (⟨buffer.drop (surplus buffer cursors)⟩, moved) ∧
      moved.advanced (surplus buffer cursors) = cursors := by
  have hle : ∀ offset ∈ cursors.offsets, surplus buffer cursors ≤ offset :=
    fun offset h => surplus_le_of_mem_offsets h buffer
  obtain ⟨moved, hrebase, hmoved⟩ := Cursors.exists_rebase? hle
  refine ⟨moved, ?_, hmoved⟩
  rw [capture?]
  simp only [hrebase, Option.bind_eq_bind, Option.bind_some]

theorem capture?_of_surplus_eq_zero {buffer : Bytes} {cursors : Cursors}
    (h : surplus buffer cursors = 0) : capture? buffer cursors = some (⟨buffer⟩, cursors) := by
  obtain ⟨moved, hcapture, hmoved⟩ := exists_capture? buffer cursors
  rw [h, Cursors.advanced_zero] at hmoved
  rw [hcapture, h, List.drop_zero, hmoved]

/-- Of the surplus of a stream only what is still there is left to drop. -/
theorem surplus_advanced {stream : Bytes} {dropped : Nat} (h : dropped ≤ stream.length)
    (cursors : Cursors) :
    surplus stream (cursors.advanced dropped) =
      dropped + surplus (stream.drop dropped) cursors := by
  rw [surplus, surplus, Cursors.lowest?_advanced, List.length_drop]
  cases cursors.lowest? with
  | none =>
    rw [Option.map_none, Option.getD_none, Option.getD_none]
    omega
  | some low =>
    rw [Option.map_some, Option.getD_some, Option.getD_some]
    omega

/-! ## Sequences of operations -/

inductive Operation where
  /-- Make the bytes at hand a carry.  At first they are a buffer, and later what was carried. -/
  | capture
  | append (chunk : Bytes)
  | compact
deriving Repr, DecidableEq

def Operation.appended : Operation → Bytes
  | .append chunk => chunk
  | .capture | .compact => []

/-- Whether the operation drops what no cursor needs. -/
def Operation.cuts : Operation → Bool
  | .append _ => false
  | .capture | .compact => true

/-- All the bytes there were: those to start from, and behind them what was appended. -/
def streamOf (buffer : Bytes) (operations : List Operation) : Bytes :=
  buffer ++ operations.flatMap Operation.appended

theorem streamOf_append (buffer : Bytes) (earlier later : List Operation) :
    streamOf buffer (earlier ++ later) = streamOf (streamOf buffer earlier) later := by
  rw [streamOf, List.flatMap_append, ← List.append_assoc, streamOf, streamOf]

theorem streamOf_singleton (buffer : Bytes) (operation : Operation) :
    streamOf buffer [operation] = buffer ++ operation.appended := by
  rw [streamOf, List.flatMap_singleton]

end Carry

/-- The bytes at hand, and the cursors into them. -/
structure Holding where
  carry : Carry
  cursors : Cursors
deriving Repr, DecidableEq

namespace Holding

open Carry (Operation surplus streamOf)

def perform? (holding : Holding) : Operation → Option Holding
  | .capture =>
    (Carry.capture? holding.carry.data holding.cursors).map fun (carry, cursors) =>
      ⟨carry, cursors⟩
  | .append chunk => some { holding with carry := holding.carry.append chunk }
  | .compact => (holding.carry.compact? holding.cursors).map fun (carry, cursors) =>
      ⟨carry, cursors⟩

/-- To compact is to capture what is carried. -/
theorem perform?_compact (holding : Holding) :
    holding.perform? .compact = holding.perform? .capture :=
  rfl

def run? (holding : Holding) (operations : List Operation) : Option Holding :=
  operations.foldlM perform? holding

theorem run?_snoc (holding : Holding) (operations : List Operation) (operation : Operation) :
    holding.run? (operations ++ [operation]) =
      (holding.run? operations).bind fun last => last.perform? operation := by
  rw [run?, List.foldlM_append]
  simp only [List.foldlM_cons, List.foldlM_nil, bind_pure]
  rfl

/-- The bytes at hand are the stream without the bytes dropped from its front, and every cursor
is as far before its place in the stream. -/
structure Tracks (holding : Holding) (stream : Bytes) (places : Cursors) (dropped : Nat) :
    Prop where
  within : dropped ≤ stream.length
  data : holding.carry.data = stream.drop dropped
  places : holding.cursors.advanced dropped = places

section
variable {holding : Holding} {stream : Bytes} {places : Cursors} {dropped : Nat}

theorem tracks_start (buffer : Bytes) (cursors : Cursors) :
    Tracks ⟨⟨buffer⟩, cursors⟩ buffer cursors 0 :=
  ⟨Nat.zero_le _, rfl, cursors.advanced_zero⟩

/-- Where the next cut is in the stream depends on the places of the cursors in it, and not on what
was dropped so far. -/
theorem Tracks.surplus_eq (tracks : holding.Tracks stream places dropped) :
    surplus stream places = dropped + surplus holding.carry.data holding.cursors := by
  rw [← tracks.places, Carry.surplus_advanced tracks.within, tracks.data]

theorem Tracks.capture (tracks : holding.Tracks stream places dropped) :
    ∃ after, holding.perform? .capture = some after ∧
      after.Tracks stream places (surplus stream places) := by
  obtain ⟨moved, hcapture, hmoved⟩ := Carry.exists_capture? holding.carry.data holding.cursors
  refine ⟨⟨⟨holding.carry.data.drop (surplus holding.carry.data holding.cursors)⟩, moved⟩, ?_,
    Nat.min_le_right _ _, ?_, ?_⟩
  · rw [perform?, hcapture, Option.map_some]
  · rw [tracks.surplus_eq, tracks.data, List.drop_drop]
  · rw [tracks.surplus_eq, Nat.add_comm, ← Cursors.advanced_advanced, hmoved, tracks.places]

theorem Tracks.append (tracks : holding.Tracks stream places dropped) (chunk : Bytes) :
    Tracks { holding with carry := holding.carry.append chunk } (stream ++ chunk) places
      dropped where
  within := by
    rw [List.length_append]
    exact Nat.le_add_right_of_le tracks.within
  data := by
    rw [Carry.append, tracks.data, List.drop_append_of_le_length tracks.within]
  places := tracks.places

/-- An operation has an answer and leaves every cursor at its place.  A cut brings the number of
bytes dropped up to the surplus of the stream. -/
theorem Tracks.perform (tracks : holding.Tracks stream places dropped) (operation : Operation) :
    ∃ after total, holding.perform? operation = some after ∧
      after.Tracks (stream ++ operation.appended) places total ∧ dropped ≤ total ∧
      (operation.cuts → total = surplus (stream ++ operation.appended) places) := by
  have hle : dropped ≤ surplus stream places := by
    rw [tracks.surplus_eq]
    exact Nat.le_add_right dropped _
  obtain ⟨after, hcapture, hafter⟩ := tracks.capture
  rw [← List.append_nil stream] at hafter hle
  cases operation with
  | capture => exact ⟨after, _, hcapture, hafter, hle, fun _ => rfl⟩
  | append chunk => exact ⟨_, dropped, rfl, tracks.append chunk, Nat.le_refl _, nofun⟩
  | compact =>
    exact ⟨after, _, holding.perform?_compact.trans hcapture, hafter, hle, fun _ => rfl⟩

theorem Tracks.run (tracks : holding.Tracks stream places dropped)
    (operations : List Operation) :
    ∃ after total, holding.run? operations = some after ∧
      after.Tracks (streamOf stream operations) places total ∧ dropped ≤ total ∧
      (operations.getLast?.any Operation.cuts →
        total = surplus (streamOf stream operations) places) := by
  -- from the end, because it is the last operation that says whether a cut was just made
  induction operations using List.reverseRecOn with
  | nil =>
    refine ⟨holding, dropped, rfl, ?_, Nat.le_refl _, nofun⟩
    rw [streamOf, List.flatMap_nil, List.append_nil]
    exact tracks
  | append_singleton operations operation ih =>
    obtain ⟨last, sofar, hrun, hlast, hsofar, -⟩ := ih
    obtain ⟨after, total, hperform, hafter, htotal, hcut⟩ := hlast.perform operation
    rw [Carry.streamOf_append, Carry.streamOf_singleton, List.getLast?_concat, Option.any_some]
    refine ⟨after, total, ?_, hafter, Nat.le_trans hsofar htotal, hcut⟩
    rw [run?_snoc, hrun, Option.bind_some, hperform]

/-- A span inside the bytes at hand denotes the same bytes at any later time. -/
theorem Tracks.slice?_later {after : Holding} {chunk : Bytes} {more : Nat}
    (tracks : holding.Tracks stream places dropped)
    (later : after.Tracks (stream ++ chunk) places (dropped + more)) {span : Span} {bytes : Bytes}
    (h : (span.advanced more).slice? holding.carry.data = some bytes) :
    span.slice? after.carry.data = some bytes := by
  rw [tracks.data, Span.slice?_drop tracks.within, Span.advanced_advanced, Nat.add_comm] at h
  rw [later.data, Span.slice?_drop later.within]
  exact Span.slice?_append h chunk

/-- Where a cut was just made there is nothing left to drop. -/
theorem Tracks.surplus_eq_zero (tracks : holding.Tracks stream places dropped)
    (hcut : dropped = surplus stream places) :
    surplus holding.carry.data holding.cursors = 0 := by
  have hsurplus := tracks.surplus_eq
  omega

theorem compact_of_surplus_eq_zero (h : surplus holding.carry.data holding.cursors = 0) :
    holding.perform? .compact = some holding := by
  rw [perform?_compact, perform?, Carry.capture?_of_surplus_eq_zero h, Option.map_some]

theorem eq_zero_of_surplus_eq_zero (h : surplus holding.carry.data holding.cursors = 0)
    {low : Nat} (hlow : holding.cursors.lowest? = some low)
    (hle : low ≤ holding.carry.data.length) : low = 0 := by
  rw [surplus, hlow, Option.getD_some, Nat.min_eq_left hle] at h
  exact h

end

/-- Whatever the buffer and the cursors to start from, any sequence of operations has an answer,
which it would not have if an offset passed below zero.  At any two moments of it the bytes at hand
are the stream so far without the bytes dropped so far, the offset of each cursor and that number
together are what the offset was at the start, and a span that lay inside the bytes at hand before
denotes the same bytes after (a single byte is a span too, and so is the one at the mark).  After a
cut the number of bytes dropped is the place of the lowest cursor, or the length of the stream if
there is none or it lies past the end; the lowest cursor is then at zero, unless it lies past the
end, and compacting once more changes nothing. -/
theorem cursors_keep_their_bytes (buffer : Bytes) (cursors : Cursors)
    (earlier later : List Operation) :
    ∃ before after dropped more,
      run? ⟨⟨buffer⟩, cursors⟩ earlier = some before ∧ before.run? later = some after ∧
      before.Tracks (streamOf buffer earlier) cursors dropped ∧
      after.Tracks (streamOf buffer (earlier ++ later)) cursors (dropped + more) ∧
      before.cursors = after.cursors.advanced more ∧
      (∀ (span : Span) (bytes : Bytes),
        (span.advanced more).slice? before.carry.data = some bytes →
          span.slice? after.carry.data = some bytes) ∧
      (later.getLast?.any Operation.cuts →
        let length := (streamOf buffer (earlier ++ later)).length
        dropped + more = min (cursors.lowest?.getD length) length ∧
        (∀ low, after.cursors.lowest? = some low → low ≤ after.carry.data.length → low = 0) ∧
        after.perform? .compact = some after) := by
  obtain ⟨before, dropped, hearlier, hbefore, -, -⟩ := (tracks_start buffer cursors).run earlier
  obtain ⟨after, total, hlater, hafter, hle, hcut⟩ := hbefore.run later
  obtain ⟨more, rfl⟩ := Nat.exists_eq_add_of_le hle
  -- both moments have the same places, and so the cursors differ by what was dropped in between
  have hmoved : before.cursors.advanced dropped =
      (after.cursors.advanced more).advanced dropped := by
    rw [hbefore.places, Cursors.advanced_advanced, Nat.add_comm, hafter.places]
  rw [Carry.streamOf_append]
  refine ⟨before, after, dropped, more, hearlier, hlater, hbefore, hafter,
    Cursors.eq_of_advanced_eq hmoved, fun span bytes => hbefore.slice?_later hafter, ?_⟩
  intro hlast
  have hzero := hafter.surplus_eq_zero (hcut hlast)
  exact ⟨hcut hlast, fun low hlow hle => eq_zero_of_surplus_eq_zero hzero hlow hle,
    compact_of_surplus_eq_zero hzero⟩

/-- A mark two bytes past the end is reached by the bytes that come later. -/
example : run? ⟨⟨[0x61, 0x62]⟩, { mark := some 4 }⟩
    [.capture, .append [0x63, 0x64, 0x65], .compact] = some ⟨⟨[0x65]⟩, { mark := some 0 }⟩ := by
  decide

end Holding
end Scan
end EdgeIncludes
