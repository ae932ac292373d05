/-
The loop under watch and the scanner without it.

The watched loop goes through a buffer by offsets, and the scanner reads it byte by byte.
They go together: a closely read byte does under watch what it does without
(`Watch.step?_reads`), and a turn of the loop is such a byte, or text and the `<` behind it
(`Loop.turn?_reads`).  What the two have told differs by the text that the loop has passed
and not let out, which is `pending`.  The induction over the loop is on how much of the
buffer is left, since every turn takes at least one byte of it.
-/
import EdgeIncludes.Proofs.Scan.Recall
import EdgeIncludes.Proofs.Scan.Search

namespace EdgeIncludes
namespace Scan

open Ascii Markup Event

namespace Watch

/-! ## One byte -/

/-- What the unwatched step tells at once, and the loop under watch only with its run. -/
def bounced (move : Move) (b : UInt8) : List Event :=
  if move = .rejected then [.output [b]] else []

theorem isTagName_append {letters : Bytes} (h : IsName letters) :
    isTagName (namespaceBytes ++ letters) := by
  have hpos := List.length_pos_iff.mpr h.1
  simp only [isTagName, List.take_left, List.drop_left, List.length_append, beq_self_eq_true,
    Bool.true_and, Bool.and_eq_true, decide_eq_true_eq, List.all_eq_true]
  exact ⟨by omega, h.2⟩

end Watch

theorem Draft.isName_of_completes {draft : Draft} {b : UInt8} {shape : Shape} (hv : draft.Valid)
    (h : Completes draft.state b shape) : IsName draft.letters := by
  cases draft with
  | inName closing letters => exact hv
  | afterName letters gap => exact hv.1
  | inTag letters pieces tail => exact hv.1
  | _ => cases h

namespace Watch

section
variable {watch : Watch} {buffer : Bytes} {draft : Draft} {past before rest : Bytes}

/-- Acting under watch goes through where acting does, with the same outcome. -/
theorem exists_perform? {noted : Watch} {offset : Nat} {b : UInt8} {move : Move}
    {after : Scanner} {told : List Event}
    (h : noted.scanner.perform? buffer offset b move = some (after, told)) (hmove : move ≠ .text)
    (hname : ∀ span name shape, move = .completed shape → noted.scanner.cursors.name = some span →
      span.slice? buffer = some name → isTagName name ∧
        range? noted.stream (noted.place buffer span.start) (noted.place buffer span.stop) =
          some name) :
    ∃ acted events, noted.perform? buffer offset b move = some (acted, events) ∧
      acted.scanner = after ∧ told = events ++ bounced move b ∧ acted.stream = noted.stream ∧
      ((∃ next, move = .staged next ∧ acted.key = noted.key ∧ acted.value = noted.value) ∨
        (∀ next, move ≠ .staged next) ∧ acted.key = none ∧ acted.value = none) := by
  cases move with
  | text => exact absurd rfl hmove
  | begun =>
    cases h
    exact ⟨_, _, rfl, rfl, (List.append_nil _).symm, rfl, .inr ⟨by simp, rfl, rfl⟩⟩
  | staged next =>
    cases h
    exact ⟨_, _, rfl, rfl, (List.append_nil _).symm, rfl, .inl ⟨next, rfl, rfl, rfl⟩⟩
  | rejected =>
    cases h
    exact ⟨_, _, rfl, rfl, rfl, rfl, .inr ⟨by simp, rfl, rfl⟩⟩
  | completed shape =>
    rw [Scanner.perform?] at h
    simp only [Option.bind_eq_bind, Option.bind_eq_some_iff] at h
    obtain ⟨span, hspan, name, hslice, hevents⟩ := h
    cases hevents
    obtain ⟨htag, hrange⟩ := hname span name shape rfl hspan hslice
    refine ⟨noted.discharged, shape.events name noted.scanner.attributes, ?_, rfl,
      (List.append_nil _).symm, rfl, .inr ⟨by simp, rfl, rfl⟩⟩
    rw [perform?]
    simp only [hspan, hslice, require_of htag, require_of hrange, Option.bind_eq_bind,
      Option.bind_some]

/-- The name of a tag that is completed is there, and it is the stream's. -/
theorem name_of_completes {noted : Watch} {b : UInt8} {shape : Shape}
    (reads : watch.Reads buffer draft past before (b :: rest))
    (notes : Notes watch buffer draft past.length (before ++ draft.kept).length b noted)
    (h : Completes draft.state b shape) {span : Span} {name : Bytes}
    (hspan : noted.scanner.cursors.name = some span) (hslice : span.slice? buffer = some name) :
    isTagName name ∧
      range? noted.stream (noted.place buffer span.start) (noted.place buffer span.stop) =
        some name := by
  obtain ⟨unwatched, found, hnoted, hfound, hname, -⟩ :=
    Scanner.exists_noted_of_completes reads.holds reads.valid h rest
  rw [← reads.layout, notes.scanner] at hnoted
  cases hnoted
  cases hspan.symm.trans hfound
  rw [← reads.layout] at hname
  cases hslice.symm.trans hname
  have hsuffix : buffer <:+ noted.stream := by
    rw [notes.stream]
    exact reads.suffix
  exact ⟨isTagName_append (Draft.isName_of_completes reads.valid h),
    range?_place hsuffix (Span.slice?_eq_range? span buffer ▸ hslice)⟩

theorem step?_of_noted {noted acted : Watch} {offset : Nat} {b : UInt8} {events : List Event}
    (hget : buffer[offset]? = some b) (hnoted : watch.noted? buffer offset b = some noted)
    (hacted : noted.perform? buffer offset b (watch.scanner.state.move b) = some (acted, events)) :
    watch.step? buffer offset =
      some ({ acted with scanner := { acted.scanner with previous := watch.scanner.state } },
        watch.scanner.state.move b, events) := by
  rw [noted?] at hnoted
  rw [step?, hget]
  cases hpart : watch.scanner.state.delimits? b with
  | none =>
    rw [hpart] at hnoted
    cases hnoted
    simp only [Option.bind_eq_bind, Option.bind_some, hpart, hacted]
  | some part =>
    rw [hpart] at hnoted
    simp only [Option.bind_eq_bind, Option.bind_some, hpart, hnoted, hacted]

/-- Reading a byte under watch goes through, and it does what it does without. -/
theorem step?_reads {b : UInt8} (reads : watch.Reads buffer draft past before (b :: rest))
    (hmove : draft.state.move b ≠ .text) :
    ∃ after events later front,
      watch.step? buffer (before ++ draft.kept).length =
        some (after, draft.state.move b, events) ∧
      watch.scanner.step? buffer (before ++ draft.kept).length b =
        some (after.scanner, events ++ bounced (draft.state.move b) b) ∧
      after.Reads buffer (draft.step b).1 later front rest := by
  obtain ⟨unwatched, front, hstep, hheld, hbuffer⟩ :=
    Scanner.step?_holds reads.holds reads.valid b rest
  obtain ⟨noted, notes⟩ := exists_notes reads
  rw [← reads.layout, Scanner.step?_eq_of_noted notes.scanner, Option.map_eq_some_iff] at hstep
  obtain ⟨⟨performed, told⟩, hperform, hafter⟩ := hstep
  have hstate : watch.scanner.state = draft.state := reads.holds.state
  have hget : buffer[(before ++ draft.kept).length]? = some b := by
    rw [reads.layout, List.getElem?_append_right (Nat.le_refl _), Nat.sub_self]
    rfl
  rw [hstate] at hperform
  obtain ⟨acted, events, hacted, rfl, rfl, hstream, hmemory⟩ :=
    exists_perform? hperform hmove fun span name shape hshape =>
      name_of_completes reads notes (State.completes_of_move hshape)
  rw [hstate, if_neg hmove] at hafter
  refine ⟨_, events, past ++ tokensBytes (draft.step b).2, front,
    hstate ▸ step?_of_noted hget notes.run (hstate.symm ▸ hacted), ?_, ?_⟩
  · rw [Scanner.step?_eq_of_noted notes.scanner, hstate, hperform, Option.map_some, if_neg hmove]
  · obtain ⟨rfl, -⟩ := Prod.mk.inj hafter
    have hstart : acted.stream = watch.stream := hstream.trans notes.stream
    refine ⟨hheld, (Draft.step_valid reads.valid b).1, ?_, ?_, hstart ▸ reads.suffix, ?_⟩
    · rw [reads.layout, ← hbuffer, List.append_assoc _ [b], List.singleton_append]
    · show acted.stream = _
      rw [hstart, reads.taken, List.append_assoc past (tokensBytes _), Draft.step_bytes,
        ← List.append_assoc past, List.append_assoc _ [b], List.singleton_append]
    · obtain ⟨next, hnext, hkey, hvalue⟩ | ⟨hnone, hkey, hvalue⟩ := hmemory
      · have hleads := State.leads_of_move hnext
        obtain ⟨hnotedKey, hnotedValue⟩ := notes.memory next hleads
        rw [Draft.step_of_leads draft hleads, tokensBytes, List.flatMap_nil, List.append_nil]
        exact ⟨hkey.trans hnotedKey, hvalue.trans hnotedValue⟩
      · obtain ⟨hnokey, hnovalue⟩ := Draft.memory_step hnone
          (past ++ tokensBytes (draft.step b).2).length
        exact ⟨hkey.trans hnokey.symm, hvalue.trans hnovalue.symm⟩

end
end Watch

/-! ## Text -/

theorem exists_split_of_idxOf? {b : UInt8} {bytes : Bytes} {n : Nat}
    (h : bytes.idxOf? b = some n) :
    ∃ front back, bytes = front ++ b :: back ∧ b ∉ front ∧ front.length = n := by
  induction bytes generalizing n with
  | nil => cases h
  | cons c bytes ih =>
    rw [List.idxOf?_cons] at h
    by_cases hc : c = b
    · rw [if_pos (beq_iff_eq.mpr hc)] at h
      cases h
      exact ⟨[], bytes, by rw [hc]; rfl, List.not_mem_nil, rfl⟩
    · rw [if_neg (by simpa using hc), Option.map_eq_some_iff] at h
      obtain ⟨m, hm, rfl⟩ := h
      obtain ⟨front, back, rfl, hfront, rfl⟩ := ih hm
      exact ⟨c :: front, back, rfl, by simp [Ne.symm hc, hfront], rfl⟩

namespace Scanner

/-- Reading text outside of tags changes nothing. -/
theorem scan?_text {scanner : Scanner} (hstate : scanner.state = .text) (buffer : Bytes)
    (offset : Nat) {text : Bytes} (htext : lessThan ∉ text) :
    scanner.scan? buffer offset text =
      some (scanner, tokensEvents (text.map fun b => .text [b])) := by
  induction text generalizing offset with
  | nil => rfl
  | cons b text ih =>
    have hb : b ≠ lessThan := fun heq => htext (heq ▸ List.mem_cons_self)
    have hrest : lessThan ∉ text := fun hmem => htext (List.mem_cons_of_mem b hmem)
    have hmove : scanner.state.move b = .text := by
      rw [hstate]
      exact if_neg hb
    have hnoted : scanner.noted? buffer offset b = some scanner := by
      rw [noted?, hstate]
      rfl
    have hstep : scanner.step? buffer offset b = some (scanner, [.output [b]]) :=
      step?_of_noted hnoted hmove rfl
    simp only [scan?_cons, hstep, Option.bind_some, ih (offset + 1) hrest, Option.map_some]
    rfl

end Scanner

/-- Text behind text, told byte by byte, is one text. -/
theorem coalesce_output_bytes (front text : Bytes) :
    coalesce ([.output front] ++ tokensEvents (text.map fun b => .text [b])) =
      coalesce [.output (front ++ text)] := by
  have htext := coalesce_append_left [.output front] (coalesce_bytes text [])
  rw [List.append_nil] at htext
  exact htext.trans (coalesce_output_output front text [])

/-! ## The loop -/

/-- Text that is passed stands in front of what is read next. -/
theorem Watch.Reads.skip {watch : Watch} {buffer past before text rest : Bytes}
    (reads : watch.Reads buffer .text past before (text ++ rest)) :
    watch.Reads buffer .text (past ++ text) (before ++ text) rest where
  holds := ⟨reads.holds.state, reads.holds.staging, reads.holds.cursors, reads.holds.attributes⟩
  valid := trivial
  layout := by simpa [Draft.kept, Draft.bytes] using reads.layout
  taken := by simpa [Draft.bytes] using reads.taken
  suffix := reads.suffix
  memory := ⟨reads.memory.key, reads.memory.value⟩

theorem Watch.Reads.isIdle_iff {watch : Watch} {buffer : Bytes} {draft : Draft}
    {past before rest : Bytes} (reads : watch.Reads buffer draft past before rest) :
    watch.scanner.state.isIdle = true ↔ draft = .text := by
  rw [reads.holds.state, State.isIdle, beq_iff_eq, Draft.state_eq_text_iff]

namespace Loop

/-- The text that was passed and not let out. -/
def pending (buffer : Bytes) (loop : Loop) : List Event :=
  if loop.watch.scanner.state.isIdle then [.output ((buffer.take loop.offset).drop loop.run)]
  else []

/-- The loop has come to the next one over the passed bytes, as the scanner that reads them
byte by byte has, and what that one tells is what was pending, what the loop told, and what
is pending now. -/
structure Advances (buffer : Bytes) (loop : Loop) (passed : Bytes) (next : Loop)
    (events : List Event) : Prop where
  told : ∃ told, loop.watch.scanner.scan? buffer loop.offset passed =
      some (next.watch.scanner, told) ∧
    coalesce (loop.pending buffer ++ told) = coalesce (events ++ next.pending buffer)
  offset : next.offset = loop.offset + passed.length

theorem Advances.refl (buffer : Bytes) (loop : Loop) : loop.Advances buffer [] loop [] :=
  ⟨⟨[], rfl, by rw [List.append_nil, List.nil_append]⟩, rfl⟩

theorem Advances.trans {buffer passed more : Bytes} {loop mid last : Loop}
    {events later : List Event} (hfirst : Advances buffer loop passed mid events)
    (hsecond : Advances buffer mid more last later) :
    Advances buffer loop (passed ++ more) last (events ++ later) := by
  obtain ⟨⟨told, hscan, htold⟩, hoffset⟩ := hfirst
  obtain ⟨⟨rest, hrest, hmore⟩, hlast⟩ := hsecond
  refine ⟨⟨told ++ rest, Scanner.scan?_append hscan (hoffset ▸ hrest), ?_⟩, ?_⟩
  · rw [← List.append_assoc, coalesce_append_right htold, List.append_assoc,
      coalesce_append_left _ hmore, List.append_assoc]
  · rw [hlast, hoffset, List.length_append, Nat.add_assoc]

/-- The loop stands behind the draft, and what it has not let out is behind it too. -/
structure Reads (loop : Loop) (buffer : Bytes) (draft : Draft) (past before rest : Bytes) :
    Prop where
  watch : loop.watch.Reads buffer draft past before rest
  offset : loop.offset = (before ++ draft.kept).length
  run : loop.run ≤ loop.offset

section
variable {loop : Loop} {buffer : Bytes} {draft : Draft} {past before rest : Bytes}

theorem Reads.offset_add (reads : loop.Reads buffer draft past before rest) :
    loop.offset + rest.length = buffer.length := by
  rw [reads.offset, reads.watch.layout, ← List.length_append]

theorem pending_of_ne_text (reads : loop.Reads buffer draft past before rest)
    (h : draft ≠ .text) : loop.pending buffer = [] :=
  if_neg fun hidle => h (reads.watch.isIdle_iff.mp hidle)

theorem Reads.offset_text (reads : loop.Reads buffer .text past before rest) :
    loop.offset = before.length := by
  rw [reads.offset, show Draft.text.kept = [] from rfl, List.append_nil]

theorem Reads.layout_text (reads : loop.Reads buffer .text past before rest) :
    buffer = before ++ rest := by
  rw [reads.watch.layout, show Draft.text.kept = [] from rfl, List.append_nil]

/-- Going to an offset behind more text, from which on the run starts or not. -/
theorem Reads.past_text {text left : Bytes} {run : Nat}
    (reads : loop.Reads buffer .text past before (text ++ left))
    (hrun : run ≤ loop.offset + text.length) :
    Reads ⟨loop.watch, run, loop.offset + text.length⟩ buffer .text (past ++ text)
      (before ++ text) left where
  watch := reads.watch.skip
  offset := by
    rw [reads.offset_text, show Draft.text.kept = [] from rfl, List.append_nil, List.length_append]
  run := hrun

/-- Nothing is pending that would show. -/
def Settled (buffer : Bytes) (loop : Loop) : Prop :=
  ∀ events, coalesce (loop.pending buffer ++ events) = coalesce events

theorem settled_of_run_eq (h : loop.run = loop.offset) : loop.Settled buffer := by
  intro events
  have hnone : (buffer.take loop.offset).drop loop.run = [] :=
    List.drop_eq_nil_of_le (h ▸ List.length_take_le _ _)
  rw [pending, hnone]
  split
  · exact prepend_output_nil _
  · rfl

section
variable (reads : loop.Reads buffer .text past before rest)
include reads

/-- Outside of tags all that was read since the run started is pending. -/
theorem pending_of_text : loop.pending buffer = [.output (before.drop loop.run)] := by
  rw [pending, if_pos (reads.watch.isIdle_iff.mpr rfl), reads.offset_text, reads.layout_text,
    List.take_left]

theorem range?_ahead : range? buffer loop.offset buffer.length = some rest := by
  have hahead := range?_middle before rest []
  rw [List.append_nil, ← reads.layout_text, ← reads.offset_text] at hahead
  exact hahead

theorem skip?_to_end (hfind : rest.idxOf? lessThan = none) :
    ∃ found, loop.skip? buffer = some (found, []) ∧ Advances buffer loop rest found [] ∧
      found.Reads buffer .text (past ++ rest) (before ++ rest) [] := by
  have hfound : Reads ⟨loop.watch, loop.run, loop.offset + rest.length⟩ buffer .text
      (past ++ rest) (before ++ rest) [] :=
    Reads.past_text (by rw [List.append_nil]; exact reads)
      (Nat.le_trans reads.run (Nat.le_add_right _ _))
  rw [reads.offset_add] at hfound
  have hscan := Scanner.scan?_text reads.watch.holds.state buffer loop.offset
    (List.idxOf?_eq_none_iff.mp hfind)
  refine ⟨{ loop with offset := buffer.length }, ?_, ⟨⟨_, hscan, ?_⟩, reads.offset_add.symm⟩,
    hfound⟩
  · rw [skip?, if_pos (reads.watch.isIdle_iff.mpr rfl), range?_ahead reads]
    simp only [Option.bind_eq_bind, Option.bind_some, hfind]
  · rw [pending_of_text reads, pending_of_text hfound, coalesce_output_bytes, List.nil_append,
      List.drop_append_of_le_length (reads.offset_text ▸ reads.run)]

theorem skip?_to_tag {skipped : Nat} (hfind : rest.idxOf? lessThan = some skipped) :
    ∃ found events text more,
      loop.skip? buffer = some (found, events) ∧ rest = text ++ lessThan :: more ∧
      Advances buffer loop text found events ∧
      found.Reads buffer .text (past ++ text) (before ++ text) (lessThan :: more) ∧
      found.Settled buffer := by
  obtain ⟨text, more, rfl, htext, rfl⟩ := exists_split_of_idxOf? hfind
  have hfound : Reads ⟨loop.watch, loop.offset + text.length, loop.offset + text.length⟩ buffer
      .text (past ++ text) (before ++ text) (lessThan :: more) :=
    Reads.past_text reads (Nat.le_refl _)
  have hsettled : Settled buffer
      ⟨loop.watch, loop.offset + text.length, loop.offset + text.length⟩ := settled_of_run_eq rfl
  have hrun : loop.run ≤ before.length := reads.offset_text ▸ reads.run
  have hpassed : range? buffer loop.run (loop.offset + text.length) =
      some (before.drop loop.run ++ text) := by
    have hle : loop.run ≤ (before ++ text).length := by
      rw [List.length_append]
      exact Nat.le_trans hrun (Nat.le_add_right _ _)
    have hrange := range?_of_le hle (lessThan :: more)
    rw [List.append_assoc, ← reads.layout_text, List.length_append, ← reads.offset_text,
      List.drop_append_of_le_length hrun] at hrange
    exact hrange
  have hscan := Scanner.scan?_text reads.watch.holds.state buffer loop.offset htext
  refine ⟨⟨loop.watch, loop.offset + text.length, loop.offset + text.length⟩,
    [.output (before.drop loop.run ++ text)], text, more, ?_, rfl, ⟨⟨_, hscan, ?_⟩, rfl⟩, hfound,
    hsettled⟩
  · rw [skip?, if_pos (reads.watch.isIdle_iff.mpr rfl), range?_ahead reads]
    simp only [Option.bind_eq_bind, Option.bind_some, hfind, hpassed]
  · have hpending := coalesce_append_left [.output (before.drop loop.run ++ text)] (hsettled [])
    rw [List.append_nil, List.append_nil] at hpending
    rw [pending_of_text reads, coalesce_output_bytes, hpending]

end

/-- Going to the next `<` gets there, or to the end, and inside a tag it is there already. -/
theorem skip?_reads (reads : loop.Reads buffer draft past before rest) :
    ∃ found events passed left later front,
      loop.skip? buffer = some (found, events) ∧ rest = passed ++ left ∧
      Advances buffer loop passed found events ∧ found.Reads buffer draft later front left ∧
      (left = [] ∨ ∃ b more, left = b :: more ∧ draft.state.move b ≠ .text ∧
        found.Settled buffer) := by
  by_cases htext : draft = .text
  · subst htext
    cases hfind : rest.idxOf? lessThan with
    | none =>
      obtain ⟨found, hskip, hadvances, hfound⟩ := skip?_to_end reads hfind
      exact ⟨found, [], rest, [], _, _, hskip, (List.append_nil rest).symm, hadvances, hfound,
        .inl rfl⟩
    | some skipped =>
      obtain ⟨found, events, text, more, hskip, hrest, hadvances, hfound, hsettled⟩ :=
        skip?_to_tag reads hfind
      exact ⟨found, events, text, _, _, _, hskip, hrest, hadvances, hfound,
        .inr ⟨lessThan, more, rfl, by decide, hsettled⟩⟩
  · have hskip : loop.skip? buffer = some (loop, []) :=
      if_neg fun hidle => htext (reads.watch.isIdle_iff.mp hidle)
    refine ⟨loop, [], [], rest, past, before, hskip, rfl, Advances.refl buffer loop, reads, ?_⟩
    cases rest with
    | nil => exact .inl rfl
    | cons b more =>
      refine .inr ⟨b, more, rfl, fun hmove => ?_, fun events => ?_⟩
      · exact htext (Draft.state_eq_text_iff.mp (State.eq_text_of_move hmove).1)
      · rw [pending_of_ne_text reads htext, List.nil_append]

theorem runAfter_le {run offset : Nat} (h : run ≤ offset) (move : Move) :
    runAfter run offset move ≤ offset + 1 := by
  cases move <;> simp only [runAfter] <;> omega

/-- What the loop has yet to tell after a byte is what the step without it told at once. -/
theorem coalesce_pending_step {b : UInt8} {watch : Watch} {later front : Bytes}
    (reads : loop.Reads buffer draft past before (b :: rest)) (hmove : draft.state.move b ≠ .text)
    (hnext : Reads (loop.stepped watch (draft.state.move b)) buffer (draft.step b).1 later front
      rest) :
    coalesce (pending buffer (loop.stepped watch (draft.state.move b))) =
      coalesce (Watch.bounced (draft.state.move b) b) := by
  have htake : buffer.take (loop.offset + 1) = before ++ draft.kept ++ [b] := by
    rw [reads.watch.layout, ← List.singleton_append, ← List.append_assoc _ [b]]
    exact List.take_left' (by rw [reads.offset, @List.length_append _ _ [b], List.length_singleton])
  cases hcase : draft.state.move b with
  | text => exact absurd hcase hmove
  | begun =>
    rw [hcase, Draft.step_of_begun hcase] at hnext
    rw [pending_of_ne_text hnext (by simp)]
    rfl
  | staged next =>
    have hleads := State.leads_of_move hcase
    rw [hcase, Draft.step_of_leads draft hleads] at hnext
    rw [pending_of_ne_text hnext (Draft.stage_ne_text hleads)]
    rfl
  | rejected =>
    rw [hcase, Draft.step_of_rejected hcase] at hnext
    have hrun : (buffer.take (loop.offset + 1)).drop loop.offset = [b] := by
      rw [htake, reads.offset, List.drop_left]
    rw [pending, if_pos (hnext.watch.isIdle_iff.mpr rfl)]
    exact congrArg (fun bytes => coalesce [.output bytes]) hrun
  | completed shape =>
    rw [hcase, Draft.step_of_completes draft (State.completes_of_move hcase)] at hnext
    have hrun : (buffer.take (loop.offset + 1)).drop (loop.offset + 1) = [] :=
      List.drop_eq_nil_of_le (List.length_take_le _ _)
    rw [pending, if_pos (hnext.watch.isIdle_iff.mpr rfl)]
    exact congrArg (fun bytes => coalesce [.output bytes]) hrun

/-- Reading a byte closely goes on by one byte, and what it does not tell is pending. -/
theorem step?_reads {b : UInt8} (reads : loop.Reads buffer draft past before (b :: rest))
    (hmove : draft.state.move b ≠ .text) (hsettled : loop.Settled buffer) :
    ∃ watch events later front,
      loop.watch.step? buffer loop.offset = some (watch, draft.state.move b, events) ∧
      Advances buffer loop [b] (loop.stepped watch (draft.state.move b)) events ∧
      Reads (loop.stepped watch (draft.state.move b)) buffer (draft.step b).1 later front rest := by
  obtain ⟨watch, events, later, front, hstep, hscanner, hwatch⟩ :=
    Watch.step?_reads reads.watch hmove
  rw [← reads.offset] at hstep hscanner
  have hnext : Reads (loop.stepped watch (draft.state.move b)) buffer (draft.step b).1 later front
      rest := by
    refine ⟨hwatch, ?_, runAfter_le reads.run _⟩
    have hbefore := reads.offset_add
    have hafter := congrArg List.length hwatch.layout
    rw [List.length_cons] at hbefore
    rw [@List.length_append _ _ rest] at hafter
    show loop.offset + 1 = _
    omega
  have hscan : loop.watch.scanner.scan? buffer loop.offset [b] =
      some (watch.scanner, events ++ Watch.bounced (draft.state.move b) b) := by
    simp only [Scanner.scan?_cons, hscanner, Option.bind_some, Scanner.scan?_nil, Option.map_some,
      List.append_nil]
  refine ⟨watch, events, later, front, hstep, ⟨⟨_, hscan, ?_⟩, rfl⟩, hnext⟩
  rw [hsettled, coalesce_append_left events (coalesce_pending_step reads hmove hnext)]

/-- A turn goes on by at least one byte. -/
theorem turn?_reads (reads : loop.Reads buffer draft past before rest) (hrest : rest ≠ []) :
    ∃ next events passed left draft' later front,
      loop.turn? buffer = some (next, events) ∧ rest = passed ++ left ∧ passed ≠ [] ∧
      Advances buffer loop passed next events ∧ next.Reads buffer draft' later front left := by
  obtain ⟨found, text, passed, left, later, front, hskip, rfl, hadvances, hfound, hleft⟩ :=
    skip?_reads reads
  have hadd := hfound.offset_add
  rcases hleft with rfl | ⟨b, more, rfl, hmove, hsettled⟩
  · refine ⟨found, text, passed, [], draft, later, front, ?_, rfl, ?_, hadvances, hfound⟩
    · rw [List.length_nil] at hadd
      rw [turn?, hskip]
      simp only [Option.bind_eq_bind, Option.bind_some]
      rw [if_neg (by omega)]
    · simpa using hrest
  · obtain ⟨watch, events, later, front, hstep, hstepped, hnext⟩ :=
      step?_reads hfound hmove hsettled
    refine ⟨_, text ++ events, passed ++ [b], more, (draft.step b).1, later, front, ?_, ?_, ?_,
      hadvances.trans hstepped, hnext⟩
    · rw [List.length_cons] at hadd
      rw [turn?, hskip]
      simp only [Option.bind_eq_bind, Option.bind_some]
      rw [if_pos (by omega), hstep]
      rfl
    · rw [List.append_assoc, List.singleton_append]
    · exact List.append_ne_nil_of_right_ne_nil _ (List.cons_ne_nil b [])

/-- Turn after turn the loop comes to the end of the buffer. -/
theorem toEnd?_reads (reads : loop.Reads buffer draft past before rest) :
    ∃ last events draft' later front,
      loop.toEnd? buffer = some (last, events) ∧ Advances buffer loop rest last events ∧
      last.Reads buffer draft' later front [] := by
  induction hlength : rest.length using Nat.strongRecOn generalizing loop draft past
    before rest with
  | ind length ih =>
    have hadd := reads.offset_add
    by_cases hrest : rest = []
    · subst hrest
      refine ⟨loop, [], draft, past, before, ?_, Advances.refl buffer loop, reads⟩
      rw [List.length_nil] at hadd
      rw [toEnd?, if_neg (by omega)]
    · obtain ⟨next, events, passed, left, draft', later, front, hturn, rfl, hpassed, hadvances,
        hnext⟩ := turn?_reads reads hrest
      have hpos : 0 < passed.length := List.length_pos_iff.mpr hpassed
      rw [List.length_append] at hadd hlength
      obtain ⟨last, more, draft'', later', front', hlast, hend, hreads⟩ :=
        ih left.length (by omega) hnext rfl
      have hoffset := hadvances.offset
      refine ⟨last, events ++ more, draft'', later', front', ?_, hadvances.trans hend, hreads⟩
      rw [toEnd?, if_pos (by omega), hturn]
      simp only
      rw [if_pos (by omega), hlast]
      rfl

end
end Loop

end Scan
end EdgeIncludes
