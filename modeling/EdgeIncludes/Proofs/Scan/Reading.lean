/-
The scanner reads what the draft says.

One byte does to the scanner what it does to the draft (`step?_holds`), and so do the bytes
of a buffer one after the other (`scan?_holds`).  No look into the buffer fails on the way.
At the end of the buffer the bytes before the kept ones are dropped, and the offsets are
those of the same draft at the front of a new buffer (`retain?_holds`).
-/
import EdgeIncludes.Proofs.Scan.Noting

namespace EdgeIncludes
namespace Scan

open Ascii Markup

namespace Scanner

/-! ## One byte -/

theorem release_of_holds {scanner : Scanner} {draft : Draft} {base : Nat}
    (held : scanner.Holds draft base) :
    scanner.staging.release = tokensEvents draft.release := by
  rw [Staging.release, Staging.released?, Draft.release]
  by_cases hnil : draft.bytes = []
  · have hempty : scanner.staging.bytes = #[] := by
      rw [← Array.toList_eq_nil_iff, held.staging, hnil]
    rw [if_pos hnil, hempty]
    rfl
  · have hsome : scanner.staging.bytes.isEmpty = false := by
      rw [← Array.isEmpty_toList, held.staging, List.isEmpty_eq_false_iff]
      exact hnil
    rw [if_neg hnil, hsome, held.staging]
    rfl

end Scanner

theorem State.delimits?_eq_none {state : State} {b : UInt8}
    (h : state.move b = .begun ∨ state.move b = .rejected) : state.delimits? b = none := by
  rcases h with h | h
  · obtain rfl := State.eq_lessThan_of_move h
    cases state <;> grind [State.move, State.delimits?, isSpace, isQuote]
  · cases state <;> grind [State.move, State.moveUnquoted, State.delimits?]

namespace Scanner

/-- A step is what the byte moves, with what it notes noted before. -/
theorem step?_eq_of_noted {scanner noted : Scanner} {buffer : Bytes} {offset : Nat} {b : UInt8}
    (hnoted : scanner.noted? buffer offset b = some noted) :
    scanner.step? buffer offset b =
      (noted.perform? buffer offset b (scanner.state.move b)).map fun (after, events) =>
        ({ after with previous :=
            if scanner.state.move b = .text then scanner.previous else scanner.state },
          events) := by
  rw [noted?] at hnoted
  rw [step?]
  cases hpart : scanner.state.delimits? b with
  | none =>
    rw [hpart] at hnoted
    cases hnoted
    rfl
  | some part =>
    rw [hpart] at hnoted
    simp only [Option.bind_eq_bind, hnoted, Option.bind_some]

theorem step?_of_noted {scanner noted : Scanner} {buffer : Bytes} {offset : Nat} {b : UInt8}
    {move : Move} {after : Scanner} {events : List Event}
    (hnoted : scanner.noted? buffer offset b = some noted) (hmove : scanner.state.move b = move)
    (hafter : noted.perform? buffer offset b move = some (after, events)) :
    scanner.step? buffer offset b = some ({ after with
      previous := if move = .text then scanner.previous else scanner.state }, events) := by
  subst hmove
  rw [step?_eq_of_noted hnoted, hafter, Option.map_some]

theorem Holds.withPrevious {scanner : Scanner} {draft : Draft} {base : Nat}
    (held : scanner.Holds draft base) (previous : State) :
    { scanner with previous }.Holds draft base :=
  ⟨held.state, held.staging, held.cursors, held.attributes⟩

theorem discharged_holds (scanner : Scanner) (base : Nat) : scanner.discharged.Holds .text base :=
  ⟨rfl, rfl, rfl, rfl⟩

/-- One byte does to the scanner what it does to the draft. -/
theorem step?_holds {scanner : Scanner} {draft : Draft} {before : Bytes}
    (held : scanner.Holds draft before.length) (hv : draft.Valid) (b : UInt8) (rest : Bytes) :
    ∃ after front,
      scanner.step? (before ++ draft.kept ++ b :: rest) (before ++ draft.kept).length b =
        some (after, tokensEvents (draft.step b).2) ∧
      after.Holds (draft.step b).1 (List.length front) ∧
      before ++ draft.kept ++ [b] = front ++ (draft.step b).1.kept := by
  have hrelease := release_of_holds held
  have hunnoted : draft.state.delimits? b = none →
      scanner.noted? (before ++ draft.kept ++ b :: rest) (before ++ draft.kept).length b =
        some scanner := by
    intro hnone
    rw [noted?, held.state, hnone]
  cases hmove : draft.state.move b with
  | text =>
    obtain ⟨htext, hb⟩ := State.eq_text_of_move hmove
    cases Draft.state_eq_text_iff.mp htext
    rw [Draft.step_text_of_ne hb]
    refine ⟨_, before ++ [b], step?_of_noted (hunnoted rfl) (held.state ▸ hmove) rfl,
      Holds.withPrevious ?_ _, ?_⟩
    · exact ⟨held.state, held.staging, held.cursors, held.attributes⟩
    · simp only [Draft.kept, Draft.bytes, List.append_nil]
  | begun =>
    have hb := State.eq_lessThan_of_move hmove
    have hnone : draft.state.delimits? b = none := State.delimits?_eq_none (.inl hmove)
    rw [Draft.step_of_begun hmove, ← hrelease]
    refine ⟨_, before ++ draft.kept, step?_of_noted (hunnoted hnone) (held.state ▸ hmove) rfl,
      Holds.withPrevious ?_ _, ?_⟩
    · exact ⟨rfl, congrArg (fun c => [c]) hb, rfl, rfl⟩
    · rw [hb]; rfl
  | staged next =>
    have hleads := State.leads_of_move hmove
    obtain ⟨noted, front, hnoted⟩ := exists_notes held hv hleads rest
    rw [Draft.step_of_leads draft hleads]
    refine ⟨_, front, step?_of_noted hnoted.run (held.state ▸ hmove) rfl,
      Holds.withPrevious ?_ _, hnoted.buffer⟩
    refine ⟨(Draft.stage_state hleads).symm, ?_, hnoted.cursors, hnoted.attributes⟩
    rw [Draft.stage_bytes hleads, Staging.push, Array.toList_push, hnoted.staging, held.staging]
  | rejected =>
    have hnone : draft.state.delimits? b = none := State.delimits?_eq_none (.inr hmove)
    rw [Draft.step_of_rejected hmove, tokensEvents_append, ← hrelease]
    refine ⟨_, before ++ draft.kept ++ [b],
      step?_of_noted (hunnoted hnone) (held.state ▸ hmove) rfl,
      Holds.withPrevious (discharged_holds scanner _) _, ?_⟩
    exact (List.append_nil _).symm
  | completed shape =>
    have hcompletes := State.completes_of_move hmove
    obtain ⟨noted, span, hnoted, hname, hslice, hattributes⟩ :=
      exists_noted_of_completes held hv hcompletes rest
    have hperform : noted.perform? (before ++ draft.kept ++ b :: rest)
        (before ++ draft.kept).length b (.completed shape) =
        some (noted.discharged, tokensEvents [.tag (draft.complete shape)]) := by
      rw [perform?, hname]
      simp only [Option.bind_eq_bind, Option.bind_some, hslice]
      rw [hattributes, ← Draft.complete_events hcompletes, tokensEvents_cons, tokensEvents_nil,
        List.append_nil]
      rfl
    rw [Draft.step_of_completes draft hcompletes]
    refine ⟨_, before ++ draft.kept ++ [b], step?_of_noted hnoted (held.state ▸ hmove) hperform,
      Holds.withPrevious (discharged_holds noted _) _, ?_⟩
    exact (List.append_nil _).symm

/-! ## Many bytes -/

/-- The events told before a run of bytes stand in front of those that the run tells. -/
theorem foldlM_step? (buffer : Bytes) (scanner : Scanner) (offset : Nat) (told : Array Event)
    (rest : Bytes) :
    ((rest.foldlM (Run.step? buffer) ⟨scanner, offset, told⟩).map fun run =>
        (run.scanner, run.events.toList)) =
      (scanner.scan? buffer offset rest).map fun (last, events) =>
        (last, told.toList ++ events) := by
  have hscan : ∀ (scanner : Scanner) (offset : Nat) (rest : Bytes),
      scanner.scan? buffer offset rest =
        (rest.foldlM (Run.step? buffer) ⟨scanner, offset, #[]⟩).map fun run =>
          (run.scanner, run.events.toList) := by
    intro scanner offset rest
    rw [scan?]
    cases rest.foldlM (Run.step? buffer) ⟨scanner, offset, #[]⟩ <;> rfl
  induction rest generalizing scanner offset told with
  | nil => exact congrArg (fun events => some (scanner, events)) (List.append_nil _).symm
  | cons b rest ih =>
    rw [hscan, List.foldlM_cons, List.foldlM_cons, Run.step?, Run.step?]
    cases scanner.step? buffer offset b with
    | none => rfl
    | some result =>
      simp only [Option.bind_eq_bind, Option.bind_some, ih, Option.map_map]
      congr 1
      funext last
      simp

theorem scan?_nil (buffer : Bytes) (offset : Nat) (scanner : Scanner) :
    scanner.scan? buffer offset [] = some (scanner, []) := rfl

/-- A buffer is read byte by byte. -/
theorem scan?_cons (buffer : Bytes) (offset : Nat) (b : UInt8) (rest : Bytes) (scanner : Scanner) :
    scanner.scan? buffer offset (b :: rest) =
      (scanner.step? buffer offset b).bind fun (next, events) =>
        (next.scan? buffer (offset + 1) rest).map fun (last, more) => (last, events ++ more) := by
  rw [scan?, List.foldlM_cons, Run.step?]
  cases scanner.step? buffer offset b with
  | none => rfl
  | some result =>
    have hrest := foldlM_step? buffer result.1 (offset + 1) ((#[] : Array Event) ++ result.2) rest
    simp only [Array.toList_appendList, List.nil_append] at hrest
    exact Option.map_eq_bind.symm.trans hrest

theorem scan?_append {buffer : Bytes} {offset : Nat} {front rest : Bytes}
    {scanner next last : Scanner} {events more : List Event}
    (hfront : scanner.scan? buffer offset front = some (next, events))
    (hrest : next.scan? buffer (offset + front.length) rest = some (last, more)) :
    scanner.scan? buffer offset (front ++ rest) = some (last, events ++ more) := by
  induction front generalizing scanner offset events with
  | nil =>
    cases hfront
    exact hrest
  | cons b front ih =>
    rw [scan?_cons, Option.bind_eq_some_iff] at hfront
    obtain ⟨⟨mid, first⟩, hstep, hmid⟩ := hfront
    obtain ⟨⟨stop, between⟩, hscan, hevents⟩ := Option.map_eq_some_iff.mp hmid
    cases hevents
    have hoffset : offset + (b :: front).length = offset + 1 + front.length := by
      rw [List.length_cons, Nat.add_assoc, Nat.add_comm 1]
    rw [hoffset] at hrest
    simp only [List.cons_append, scan?_cons, hstep, Option.bind_some, ih hscan hrest,
      Option.map_some, List.append_assoc]

/-- Reading to the end of the buffer does to the scanner what it does to the draft. -/
theorem scan?_holds {scanner : Scanner} {draft : Draft} {before : Bytes}
    (held : scanner.Holds draft before.length) (hv : draft.Valid) (rest : Bytes) :
    ∃ after front,
      scanner.scan? (before ++ draft.kept ++ rest) (before ++ draft.kept).length rest =
        some (after, tokensEvents (draft.run rest).2) ∧
      after.Holds (draft.run rest).1 (List.length front) ∧
      before ++ draft.kept ++ rest = front ++ (draft.run rest).1.kept := by
  induction rest generalizing scanner draft before with
  | nil => exact ⟨scanner, before, scan?_nil _ _ _, held, List.append_nil _⟩
  | cons b rest ih =>
    obtain ⟨next, front, hstep, hnext, hbuffer⟩ := step?_holds held hv b rest
    have hsplit : before ++ draft.kept ++ b :: rest = front ++ (draft.step b).1.kept ++ rest := by
      rw [← hbuffer, List.append_assoc _ [b], List.singleton_append]
    have hoffset : (before ++ draft.kept).length + 1 = (front ++ (draft.step b).1.kept).length := by
      rw [← hbuffer, @List.length_append _ _ [b], List.length_singleton]
    obtain ⟨after, last, hscan, hafter, hrest⟩ := ih hnext (Draft.step_valid hv b).1
    refine ⟨after, last, ?_, hafter, hsplit.trans hrest⟩
    rw [← hsplit, ← hoffset] at hscan
    simp only [scan?_cons, hstep, Option.bind_some, hscan, Option.map_some, Draft.run_cons,
      tokensEvents_append]

/-! ## The end of a chunk -/

/-- At the end of a chunk nothing older than the kept bytes stays. -/
theorem retain?_holds {scanner : Scanner} {draft : Draft} {front : Bytes}
    (held : scanner.Holds draft front.length) :
    ∃ after, scanner.retain? (front ++ draft.kept) = some after ∧ after.Holds draft 0 ∧
      after.carry = if draft = .text then none else some ⟨draft.kept⟩ := by
  by_cases htext : draft = .text
  · subst htext
    rw [if_pos rfl, retain?, held.state]
    exact ⟨_, rfl, ⟨rfl, held.staging, held.cursors, held.attributes⟩, rfl⟩
  · have hidle : scanner.state.isIdle = false := by
      rw [held.state]
      exact beq_eq_false_iff_ne.mpr fun h => htext (Draft.state_eq_text_iff.mp h)
    have hsurplus : Carry.surplus (front ++ draft.kept) scanner.cursors = front.length := by
      rw [Carry.surplus, held.cursors, Draft.lowest?_cursors htext, Option.getD_some,
        List.length_append]
      omega
    have hcapture : Carry.capture? (front ++ draft.kept) scanner.cursors =
        some (⟨draft.kept⟩, draft.cursors 0) := by
      rw [Carry.capture?, hsurplus, held.cursors, Draft.rebase?_cursors]
      simp only [Option.bind_eq_bind, Option.bind_some, List.drop_left]
    rw [if_neg htext, retain?, hidle, hcapture]
    exact ⟨_, rfl, ⟨held.state, held.staging, rfl, held.attributes⟩, rfl⟩

end Scanner
end Scan
end EdgeIncludes
