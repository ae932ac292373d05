/-
The scanner cannot fail.

Every call under watch is the call without it (`call?_ready`): a chunk is read by the loop
that checks what it does, and at its end the bytes that are kept are cut from inside the
buffer.  Hence no check of the watch ever fails on a new scanner, whatever it is called with
(`run?_watched`).
-/
import EdgeIncludes.Proofs.Scan.Chunking
import EdgeIncludes.Proofs.Scan.Lockstep

namespace EdgeIncludes
namespace Scan

open Markup Event

namespace Watch

section
variable {watch : Watch} {draft : Draft} {past : Bytes}

theorem scan?_reads {buffer before rest : Bytes}
    (reads : watch.Reads buffer draft past before rest) :
    ∃ after events told draft' later front,
      watch.scan? buffer (before ++ draft.kept).length = some (after, events) ∧
      watch.scanner.scan? buffer (before ++ draft.kept).length rest =
        some (after.scanner, told) ∧
      coalesce told = coalesce events ∧ after.Reads buffer draft' later front [] := by
  have hstart : Loop.Reads ⟨watch, (before ++ draft.kept).length, (before ++ draft.kept).length⟩
      buffer draft past before rest := ⟨reads, rfl, Nat.le_refl _⟩
  obtain ⟨last, events, draft', later, front, hlast, ⟨⟨told, hscan, htold⟩, -⟩, hend⟩ :=
    Loop.toEnd?_reads hstart
  rw [Loop.settled_of_run_eq rfl] at htold
  refine ⟨last.watch, events ++ last.pending buffer, told, draft', later, front, ?_, hscan, htold,
    hend.watch⟩
  have hoffset : last.offset ≤ buffer.length := by
    rw [← hend.offset_add]
    exact Nat.le_add_right _ _
  have hrange : range? buffer last.run last.offset =
      some ((buffer.take last.offset).drop last.run) := if_pos ⟨hend.run, hoffset⟩
  rw [scan?, require_of reads.suffix]
  simp only [Option.bind_eq_bind, Option.bind_some, hlast, hrange, Loop.pending]
  split
  · rfl
  · rw [List.append_nil]

/-- At the end of a buffer the watched scanner keeps what the scanner keeps. -/
theorem retain?_eq (buffer : Bytes) (watch : Watch) :
    watch.retain? buffer =
      (watch.scanner.retain? buffer).map fun scanner => { watch with scanner } := by
  rw [retain?, Scanner.retain?]
  cases watch.scanner.state.isIdle with
  | true => rfl
  | false =>
    have hle : Carry.surplus buffer watch.scanner.cursors ≤ buffer.length := Nat.min_le_right _ _
    have hkept : range? buffer (Carry.surplus buffer watch.scanner.cursors) buffer.length =
        some (buffer.drop (Carry.surplus buffer watch.scanner.cursors)) := by
      have hrange := range?_of_le hle []
      rw [List.append_nil] at hrange
      exact hrange
    rw [if_neg Bool.false_ne_true, if_neg Bool.false_ne_true, Carry.capture?]
    simp only [hkept, Option.bind_eq_bind, Option.bind_some]
    cases watch.scanner.cursors.rebase? (Carry.surplus buffer watch.scanner.cursors) <;> rfl

/-- Between two calls the watched scanner has the draft in hand, and remembers what the draft
says. -/
structure Ready (watch : Watch) (draft : Draft) (past : Bytes) : Prop where
  scanner : watch.scanner.Ready draft
  taken : watch.stream = past ++ draft.bytes
  memory : watch.Remembers draft past.length

/-- What is read of a chunk and what is kept at its end is what it is without the watch. -/
theorem scan?_ready {buffer before rest : Bytes}
    (reads : watch.Reads buffer draft past before rest) :
    ∃ after kept events told draft' later,
      watch.scan? buffer (before ++ draft.kept).length = some (after, events) ∧
      after.retain? buffer = some kept ∧
      watch.scanner.scan? buffer (before ++ draft.kept).length rest =
        some (after.scanner, told) ∧
      after.scanner.retain? buffer = some kept.scanner ∧
      coalesce told = coalesce events ∧ kept.Ready draft' later := by
  obtain ⟨after, events, told, draft', later, front, hwatched, hscan, htold, hafter⟩ :=
    scan?_reads reads
  have hbuffer : buffer = front ++ draft'.kept := by
    rw [hafter.layout, List.append_nil]
  obtain ⟨kept, hretain, hheld, hcarry⟩ := Scanner.retain?_holds hafter.holds
  rw [← hbuffer] at hretain
  refine ⟨after, { after with scanner := kept }, events, told, draft', later, hwatched, ?_, hscan,
    hretain, htold, ⟨⟨hheld, hafter.valid, hcarry⟩, ?_, ⟨hafter.memory.key, hafter.memory.value⟩⟩⟩
  · rw [retain?_eq, hretain, Option.map_some]
  · exact hafter.taken.trans (List.append_nil _)

/-- A chunk that is put behind the carried bytes. -/
theorem Ready.reads_carried (ready : watch.Ready draft past) (chunk : Bytes) :
    Reads { watch with stream := watch.stream ++ chunk } (draft.kept ++ chunk) draft past []
      chunk where
  holds := ready.scanner.holds
  valid := ready.scanner.valid
  layout := rfl
  taken := by rw [ready.taken]
  suffix := ⟨past ++ draft.bracket, by
    rw [ready.taken, ← draft.bracket_append_kept]
    simp only [List.append_assoc]⟩
  memory := ⟨ready.memory.key, ready.memory.value⟩

/-- A chunk outside of tags, from any place on. -/
theorem Ready.reads_chunk (ready : watch.Ready .text past) (front rest : Bytes) :
    Reads { watch with stream := watch.stream ++ (front ++ rest) } (front ++ rest) .text
      (past ++ front) front rest where
  holds := ⟨ready.scanner.holds.state, ready.scanner.holds.staging, ready.scanner.holds.cursors,
    ready.scanner.holds.attributes⟩
  valid := trivial
  layout := by simp [Draft.kept, Draft.bytes]
  taken := by simp [ready.taken, Draft.bytes]
  suffix := List.suffix_append _ _
  memory := ⟨ready.memory.key, ready.memory.value⟩

theorem feed?_inTag (ready : watch.Ready draft past) (hdraft : draft ≠ .text) (chunk : Bytes) :
    ∃ after events draft' later,
      watch.feed? chunk = some (after, events) ∧
      watch.scanner.feed? chunk = some (after.scanner, events) ∧ after.Ready draft' later := by
  have hcarry : watch.scanner.carry = some ⟨draft.kept⟩ := by
    rw [ready.scanner.carry, if_neg hdraft]
  obtain ⟨after, kept, events, told, draft', later, hwatched, hkept, hscan, hretain, htold,
    hready⟩ := scan?_ready (ready.reads_carried chunk)
  rw [List.nil_append] at hwatched hscan
  refine ⟨kept, coalesce events, draft', later, ?_, ?_, hready⟩
  · rw [feed?, hcarry]
    simp only [Carry.append, Carry.resumeAt, Option.bind_eq_bind, Option.bind_some, hwatched, hkept]
  · rw [Scanner.feed?, hcarry]
    simp only [Carry.append, Carry.resumeAt, Option.bind_eq_bind, Option.bind_some, hscan, hretain,
      htold]

theorem feed?_text (ready : watch.Ready .text past) (chunk : Bytes) :
    ∃ after events draft' later,
      watch.feed? chunk = some (after, events) ∧
      watch.scanner.feed? chunk = some (after.scanner, events) ∧ after.Ready draft' later := by
  have hcarry : watch.scanner.carry = none := ready.scanner.carry
  cases hstart : tagStart? chunk with
  | none =>
    refine ⟨{ watch with stream := watch.stream ++ chunk }, coalesce [.output chunk], .text,
      watch.stream ++ chunk, ?_, ?_, ⟨ready.scanner, (List.append_nil _).symm,
        ⟨ready.memory.key, ready.memory.value⟩⟩⟩
    · rw [feed?, hcarry]
      simp only [hstart]
    · rw [Scanner.feed?, hcarry]
      simp only [hstart]
  | some offset =>
    have hle : offset ≤ chunk.length := by
      have hskipped := skipped_le chunk
      rwa [skipped, hstart, Option.getD_some] at hskipped
    have hsplit := List.take_append_drop offset chunk
    have hlength : (chunk.take offset).length = offset := List.length_take_of_le hle
    have hrange : range? chunk 0 offset = some (chunk.take offset) :=
      if_pos ⟨Nat.zero_le _, hle⟩
    obtain ⟨after, kept, events, told, draft', later, hwatched, hkept, hscan, hretain, htold,
      hready⟩ := scan?_ready (ready.reads_chunk (chunk.take offset) (chunk.drop offset))
    rw [show Draft.text.kept = [] from rfl, List.append_nil, hlength] at hwatched hscan
    rw [hsplit] at hwatched hkept hscan hretain
    refine ⟨kept, coalesce (.output (chunk.take offset) :: events), draft', later, ?_, ?_, hready⟩
    · rw [feed?, hcarry]
      simp only [hstart, Option.bind_eq_bind, Option.bind_some, hrange, hwatched, hkept]
    · have hevents := coalesce_append_left [.output (chunk.take offset)] htold
      rw [Scanner.feed?, hcarry]
      simp only [hstart, Option.bind_eq_bind, Option.bind_some, hscan, hretain]
      exact congrArg (fun events => some (kept.scanner, events)) hevents

theorem feed?_ready (ready : watch.Ready draft past) (chunk : Bytes) :
    ∃ after events draft' later,
      watch.feed? chunk = some (after, events) ∧
      watch.scanner.feed? chunk = some (after.scanner, events) ∧ after.Ready draft' later := by
  by_cases hdraft : draft = .text
  · subst hdraft
    exact feed?_text ready chunk
  · exact feed?_inTag ready hdraft chunk

/-- A call under watch is the call without it. -/
theorem call?_ready (ready : watch.Ready draft past) (call : Scanner.Call) :
    ∃ after events draft' later,
      watch.call? call = some (after, events) ∧
      watch.scanner.call? call = some (after.scanner, events) ∧ after.Ready draft' later := by
  cases call with
  | feed chunk => exact feed?_ready ready chunk
  | finish =>
    exact ⟨_, _, .text, watch.stream, rfl, rfl, Scanner.finish_ready watch.scanner,
      (List.append_nil _).symm, ⟨rfl, rfl⟩⟩
  | reset =>
    exact ⟨_, _, .text, watch.stream, rfl, rfl, Scanner.fresh_ready, (List.append_nil _).symm,
      ⟨rfl, rfl⟩⟩

theorem run?_ready (ready : watch.Ready draft past) (calls : List Scanner.Call) :
    ∃ after events,
      watch.run? calls = some (after, events) ∧
      watch.scanner.run? calls = some (after.scanner, events) := by
  induction calls generalizing watch draft past with
  | nil => exact ⟨watch, [], rfl, rfl⟩
  | cons call calls ih =>
    obtain ⟨next, events, draft', later, hcall, hscanner, hnext⟩ := call?_ready ready call
    obtain ⟨last, more, hrun, hlast⟩ := ih hnext
    refine ⟨last, events ++ more, ?_, ?_⟩
    · rw [run?, hcall]
      simp only [Option.bind_eq_bind, Option.bind_some, hrun]
    · rw [Scanner.run?, hscanner]
      simp only [Option.bind_eq_bind, Option.bind_some, hlast]

end
end Watch

/-- Whatever a new scanner is called with, no check of the watch fails, and the watched scanner
is where the scanner is and tells what it tells. -/
theorem Scanner.run?_watched (calls : List Call) :
    ∃ watch events, Watch.run? {} calls = some (watch, events) ∧
      fresh.run? calls = some (watch.scanner, events) := by
  have hready : Watch.Ready {} .text [] := ⟨fresh_ready, rfl, ⟨rfl, rfl⟩⟩
  exact Watch.run?_ready hready calls

/-- Between two chunks of a value the key's span is moved by one byte, and the watch notices. -/
example : ((Watch.run? {} [.feed [0x3C, 0x65, 0x73, 0x69, 0x3A, 0x61, 0x20, 0x62, 0x3D, 0x27]]).bind
      fun (watch, _) =>
        let cursors := watch.scanner.cursors
        let moved := cursors.key.map fun span => { span with start := span.start + 1 }
        (watch.withCursors { cursors with key := moved }).feed? [0x63, 0x27]) = none := by
  decide +kernel

end Scan
end EdgeIncludes
