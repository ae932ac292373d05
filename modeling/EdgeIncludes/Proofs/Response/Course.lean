/-
The steps of a stream that attends to a document.

A step that completes a document sees to each of its slots, and one that answers a fetch sees to
the slot of that again (`Attends.begins`, `Attends.goesOn`).  All other steps have nothing to do
with fragments (`Step.aside`).  A step of the first two kinds ends with the page in its place
when no fetch is on its way, and otherwise with an assembly to wait for (`Attends.ends`).
-/
import EdgeIncludes.Proofs.Response.Attendance

namespace EdgeIncludes
namespace Response

/-! ## Steps beside the fragments -/

section Aside

variable {step : Step} {ledger : Ledger}

theorem Step.document?_eq_some {document : Page.Document} (h : step.document? = some document) :
    ∃ size read last replies intake, step.call = .body size read last replies ∧
      step.before.intake = some intake ∧
      (intake.take (step.before.unseen size read) last).decision = some (.complete document) := by
  obtain ⟨stream, call⟩ := step
  cases call with
  | body size read last replies =>
    obtain ⟨decision, hdecision, hdocument⟩ := Option.bind_eq_some_iff.mp h
    obtain ⟨intake, hintake, htaken⟩ := Option.bind_eq_some_iff.mp hdecision
    refine ⟨size, read, last, replies, intake, rfl, hintake, htaken.trans ?_⟩
    cases decision with
    | complete other => exact congrArg _ (congrArg _ (Option.some.inj hdocument))
    | _ => cases hdocument
  | _ => cases h

/-- A step that completes no document and answers no fetch leaves the fragments alone. -/
theorem Step.aside (hcompletes : step.completes = false) (hanswers : step.answers ledger = false)
    (htied : ∀ assembly, step.before.assembly = some assembly →
      Tied assembly.outstanding ledger.inFlight) :
    ledger.note (.called step.call) = ledger ∧
      (∀ effect ∈ step.turn.effects, effect.isAside) ∧
      step.turn.stream.assembly = step.before.assembly := by
  obtain ⟨stream, call⟩ := step
  cases call with
  | requestHeaders headers => exact ⟨rfl, List.forall_mem_singleton.mpr rfl, rfl⟩
  | responseHeaders headers =>
    refine ⟨rfl, ?_⟩
    show (∀ effect ∈ (stream.responseHeaders headers).effects, effect.isAside) ∧
      (stream.responseHeaders headers).stream.assembly = stream.assembly
    rw [Stream.responseHeaders]
    split
    · refine ⟨List.forall_mem_cons.mpr ⟨rfl, ?_⟩, rfl⟩
      split
      · exact List.forall_mem_singleton.mpr rfl
      · exact List.forall_mem_nil _
    · exact ⟨List.forall_mem_singleton.mpr rfl, rfl⟩
  | body size read last replies =>
    refine ⟨rfl, ?_⟩
    show (∀ effect ∈ (stream.body size read last replies).effects, effect.isAside) ∧
      (stream.body size read last replies).stream.assembly = stream.assembly
    rw [Stream.body]
    cases hintake : stream.intake with
    | none => exact ⟨List.forall_mem_nil _, rfl⟩
    | some intake =>
      rw [Step.completes, Step.document?, Step.decision?, hintake] at hcompletes
      have hsaid : ∀ effect ∈ (intake.take (stream.unseen size read) last).notices.map
          Effect.building, effect.isAside := List.forall_mem_map.mpr fun _ _ => rfl
      dsimp only at hcompletes ⊢
      split
      · rename_i document hcomplete
        rw [Option.bind_some, hcomplete] at hcompletes
        cases hcompletes
      · exact ⟨List.forall_mem_append.mpr ⟨hsaid, List.forall_mem_singleton.mpr rfl⟩, rfl⟩
      · exact ⟨hsaid, rfl⟩
      · exact ⟨hsaid, rfl⟩
  | answered token status fragment replies =>
    have hlookup : ledger.inFlight.lookup token = none := by
      rw [← Option.isNone_iff_eq_none, ← Option.isSome_eq_false_iff]
      exact hanswers
    have hstray : Step.turn ⟨stream, .answered token status fragment replies⟩ = { stream } :=
      Stream.answered_of_stray (fun assembly hassembly =>
        (htied assembly hassembly token).trans hlookup) status fragment replies
    rw [hstray]
    refine ⟨?_, List.forall_mem_nil _, rfl⟩
    rw [Ledger.note, Ledger.answer, hlookup]
  | finished => exact ⟨rfl, List.forall_mem_singleton.mpr rfl, rfl⟩

/-- What happens in such a step is proper whatever the document, and none of it is noted. -/
theorem Step.follows_of_aside (hcalled : ledger.note (.called step.call) = ledger)
    (haside : ∀ effect ∈ step.turn.effects, effect.isAside) (document : Page.Document) :
    Follows (Proper document step.before.target?) ledger step.moments ∧
      ledger.noteAll step.moments = ledger := by
  refine ⟨⟨trivial, ?_⟩, ?_⟩
  · rw [hcalled]
    exact Response.follows_of_aside haside
  · rw [Step.moments, Ledger.noteAll, List.foldl_cons, hcalled]
    exact noteAll_of_aside haside ledger

end Aside

/-! ## Steps that see to fragments -/

/-- The step does something about fragments, and ends with the page in its place if no fetch is on
its way then, and with an assembly to wait for otherwise. -/
structure Step.Concludes (step : Step) (seen rest : List Effect) (assembly : Assembly) : Prop where
  effects_eq : step.turn.effects = seen ++ rest
  done : assembly.isDone → step.turn.stream.assembly = none ∧
    ∃ aside, (∀ effect ∈ aside, effect.isAside) ∧ rest = step.before.finale assembly ++ aside
  waits : assembly.isDone = false → step.turn.stream.assembly = some assembly ∧
    ∀ effect ∈ rest, effect.isAside

theorem Step.Concludes.moments_eq {step : Step} {seen rest : List Effect} {assembly : Assembly}
    (h : step.Concludes seen rest assembly) :
    step.moments = (.called step.call :: seen.map .did) ++ rest.map .did := by
  rw [Step.moments, h.effects_eq, List.map_append, List.cons_append]

/-- A step that answers a fetch on its way. -/
theorem Stream.concludes_of_answered {stream : Stream} {assembly : Assembly} {token : Nat}
    {fetch : Fetch} (hassembly : stream.assembly = some assembly)
    (hfetch : assembly.fetch? token = some fetch) (status : Option String) (fragment : Bytes)
    (replies : Replies) :
    ∃ effects rest after,
      Answers stream (assembly.settle token) fetch status fragment effects after ∧
      Step.Concludes ⟨stream, .answered token status fragment replies⟩ effects rest after := by
  obtain ⟨effects, after, hanswers, hturn⟩ :=
    answered_eq hassembly hfetch status fragment replies
  have hstep : Step.turn ⟨stream, .answered token status fragment replies⟩ =
      stream.answered token status fragment replies := rfl
  rw [hturn] at hstep
  cases hdone : after.isDone with
  | true =>
    rw [if_pos hdone] at hstep
    refine ⟨effects, stream.finale after ++ [.resumes], after, hanswers, ?_, fun _ => ?_, ?_⟩
    · rw [hstep]
      exact List.append_assoc _ _ _
    · rw [hstep]
      exact ⟨rfl, [.resumes], List.forall_mem_singleton.mpr rfl, rfl⟩
    · intro hwaits
      rw [hdone] at hwaits
      cases hwaits
  | false =>
    rw [if_neg (Bool.eq_false_iff.mp hdone)] at hstep
    refine ⟨effects, [], after, hanswers, ?_, ?_, fun _ => ?_⟩
    · rw [hstep]
      exact (List.append_nil effects).symm
    · intro hfinal
      rw [hdone] at hfinal
      cases hfinal
    · rw [hstep]
      exact ⟨rfl, List.forall_mem_nil _⟩

/-- A step that completes a document is that of a stream that waits for nothing yet. -/
theorem Step.concludes_of_document? {step : Step} {document : Page.Document}
    (hdocument : step.document? = some document) (hassembly : step.before.assembly = none) :
    ∃ (stream : Stream) (said effects rest : List Effect) (size : Nat),
      stream.target? = step.before.target? ∧ (∀ effect ∈ said, effect.isAside) ∧
        Stream.FetchesAll stream document document.pending effects ∧
        step.Concludes (said ++ effects) rest
          (Assembly.followAll { document, bodySize := size } effects) := by
  obtain ⟨stream, call⟩ := step
  obtain ⟨size, read, last, replies, intake, rfl, hintake, hcomplete⟩ :=
    Step.document?_eq_some hdocument
  obtain ⟨notices, effects, assembly, hall, rfl, hbody⟩ :=
    Stream.body_of_complete hintake hcomplete replies
  have hstep : Step.turn ⟨stream, .body size read last replies⟩ =
      stream.body size read last replies := rfl
  have hsaid : ∀ effect ∈ notices.map Effect.building, effect.isAside :=
    List.forall_mem_map.mpr fun _ _ => rfl
  rw [hbody] at hstep
  cases hdone : (Assembly.followAll { document, bodySize := size } effects).isDone with
  | true =>
    rw [if_pos hdone] at hstep
    refine ⟨{ stream with bodySeen := size, intake := none }, _, effects, _, size, rfl, hsaid, hall,
      congrArg Turn.effects hstep, fun _ => ?_, ?_⟩
    · rw [hstep]
      exact ⟨hassembly, [], List.forall_mem_nil _, (List.append_nil _).symm⟩
    · intro hwaits
      rw [hdone] at hwaits
      cases hwaits
  | false =>
    rw [if_neg (Bool.eq_false_iff.mp hdone)] at hstep
    refine ⟨{ stream with bodySeen := size, intake := none }, _, effects, _, size, rfl, hsaid, hall,
      congrArg Turn.effects hstep, ?_, fun _ => ?_⟩
    · intro hfinal
      rw [hdone] at hfinal
      cases hfinal
    · rw [hstep]
      exact ⟨rfl, List.forall_mem_singleton.mpr rfl⟩

section First

variable {step : Step} {said effects : List Effect}

theorem note_called_empty (step : Step) : Ledger.note {} (.called step.call) = {} := by
  cases step.call <;> rfl

/-- At first nothing but what is done about fragments is noted. -/
theorem noteAll_first (hsaid : ∀ effect ∈ said, effect.isAside) :
    Ledger.noteAll {} (.called step.call :: (said ++ effects).map .did) =
      Ledger.noteAll {} (effects.map .did) := by
  rw [Ledger.noteAll, List.foldl_cons, note_called_empty, List.map_append, ← Ledger.noteAll,
    Ledger.noteAll_append, noteAll_of_aside hsaid]

theorem follows_first {Kept : Ledger → Moment → Prop} (hsaid : ∀ effect ∈ said, effect.isAside) :
    Follows Kept {} (.called step.call :: (said ++ effects).map .did) →
      Follows Kept {} (effects.map .did) := by
  rintro ⟨-, h⟩
  rw [note_called_empty, List.map_append, follows_append, noteAll_of_aside hsaid] at h
  exact h.2

end First

/-! ## Steps that attend to a document -/

/-- The document is seen to, and what the stream waits for is what is on its way. -/
structure Attends (document : Page.Document) (ledger : Ledger) (stream : Stream) : Prop where
  sees : Sees document ledger
  serves : ∀ assembly, stream.assembly = some assembly → Serves document ledger assembly
  idle : stream.assembly = none → ledger.inFlight = []

/-- What the step does is proper, and the document is attended to after it. -/
def Step.Attends (step : Step) (document : Page.Document) (ledger : Ledger) : Prop :=
  Follows (Proper document step.before.target?) ledger step.moments ∧
    Response.Attends document (ledger.noteAll step.moments) step.turn.stream

namespace Attends

variable {document : Page.Document} {ledger : Ledger} {step : Step} {stream : Stream}

/-- The slots have been seen to, and the page is put in its place or waited for. -/
theorem ends {seen rest : List Effect} {assembly : Assembly}
    (hseen : Follows (Proper document step.before.target?) ledger
      (.called step.call :: seen.map .did))
    (hsees : Sees document (ledger.noteAll (.called step.call :: seen.map .did)))
    (hserves : Serves document (ledger.noteAll (.called step.call :: seen.map .did)) assembly)
    (hconcludes : step.Concludes seen rest assembly) : step.Attends document ledger := by
  rw [Step.Attends, hconcludes.moments_eq, follows_append, Ledger.noteAll_append]
  cases hfinal : assembly.isDone with
  | true =>
    obtain ⟨hassembly, aside, haside, rfl⟩ := hconcludes.done hfinal
    have hfinale : Follows (Proper document step.before.target?) _
        ((step.before.finale assembly).map .did) :=
      hsees.follows_finale hserves hfinal step.before
    have hnote : ∀ ledger : Ledger,
        ledger.noteAll ((step.before.finale assembly).map .did) = ledger := fun _ => rfl
    rw [List.map_append, follows_append, Ledger.noteAll_append, hnote, noteAll_of_aside haside]
    refine ⟨⟨hseen, hfinale, follows_of_aside haside⟩, hsees, fun other hother => ?_, fun _ => ?_⟩
    · rw [hassembly] at hother
      cases hother
    · exact hserves.tied.isDone_iff.mp hfinal
  | false =>
    obtain ⟨hassembly, haside⟩ := hconcludes.waits hfinal
    rw [noteAll_of_aside haside]
    refine ⟨⟨hseen, follows_of_aside haside⟩, hsees, fun other hother => ?_, fun hnone => ?_⟩
    · rw [hassembly] at hother
      exact Option.some.inj hother ▸ hserves
    · rw [hassembly] at hnone
      cases hnone

/-- The stream waits with an assembly for a fetch that is on its way. -/
theorem exists_assembly {token : Nat} {fetch : Fetch} (h : Attends document ledger stream)
    (hlookup : ledger.inFlight.lookup token = some fetch) :
    ∃ assembly, stream.assembly = some assembly ∧ Serves document ledger assembly ∧
      assembly.fetch? token = some fetch := by
  obtain ⟨assembly, hassembly⟩ : ∃ assembly, stream.assembly = some assembly := by
    refine Option.ne_none_iff_exists'.mp fun hnone => ?_
    rw [h.idle hnone] at hlookup
    cases hlookup
  have hserves := h.serves assembly hassembly
  exact ⟨assembly, hassembly, hserves, (hserves.tied token).trans hlookup⟩

/-- A later step, if it completes no document. -/
theorem goesOn (h : Attends document ledger step.before)
    (hrequests : ∀ slot ∈ document.pending, (document.request? slot).isSome)
    (hcompletes : step.completes = false) (hfresh : Follows Fresh ledger step.moments) :
    step.Attends document ledger := by
  cases hanswers : step.answers ledger with
  | false =>
    obtain ⟨hcalled, haside, hassembly⟩ :=
      Step.aside hcompletes hanswers fun assembly hbefore => (h.serves assembly hbefore).tied
    obtain ⟨hproper, hnote⟩ := Step.follows_of_aside hcalled haside document
    refine ⟨hproper, ?_⟩
    rw [hnote]
    exact ⟨h.sees, hassembly ▸ h.serves, hassembly ▸ h.idle⟩
  | true =>
    obtain ⟨stream, call⟩ := step
    cases call with
    | answered token status fragment replies =>
      obtain ⟨⟨slot, viaAlt⟩, hlookup⟩ : ∃ fetch, ledger.inFlight.lookup token = some fetch :=
        Option.isSome_iff_exists.mp hanswers
      obtain ⟨assembly, hassembly, hserves, hfetch⟩ := h.exists_assembly hlookup
      obtain ⟨effects, rest, after, hdone, hconcludes⟩ :=
        Stream.concludes_of_answered hassembly hfetch status fragment replies
      rw [hconcludes.moments_eq] at hfresh
      obtain ⟨hproper, hsees, hafter⟩ := h.sees.answers hserves hrequests hlookup hdone
        (follows_append.mp hfresh).1.2
      exact ends ⟨trivial, hproper⟩ hsees hafter hconcludes
    | _ => cases hanswers

/-- The step that completes the document. -/
theorem begins (hdocument : step.document? = some document)
    (hassembly : step.before.assembly = none)
    (hrequests : ∀ slot ∈ document.pending, (document.request? slot).isSome)
    (hfresh : Follows Fresh {} step.moments) : step.Attends document {} := by
  obtain ⟨stream, said, effects, rest, size, htarget, hsaid, hall, hconcludes⟩ :=
    Step.concludes_of_document? hdocument hassembly
  rw [hconcludes.moments_eq] at hfresh
  have hasked := follows_first hsaid (follows_append.mp hfresh).1
  obtain ⟨hproper, hsees, hserves⟩ := Sees.begins hall hrequests hasked size
  rw [← noteAll_first hsaid] at hsees hserves
  refine ends ⟨trivial, ?_⟩ hsees hserves hconcludes
  rw [note_called_empty, List.map_append, follows_append, noteAll_of_aside hsaid, ← htarget]
  exact ⟨follows_of_aside hsaid, hproper⟩

end Attends

end Response
end EdgeIncludes
