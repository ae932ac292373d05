/-
The phases of a response.

A stream goes through few phases (`Phase`), and the phase determines what has happened so far
(`Stands`).  There are three ways to go on: a step that has to do with no fetch leads quietly to
a phase (`Stands.quiet`), and one that sees to fragments ends with the page in its place
(`Stands.done`) or with fetches on their way (`Stands.waits`).  Each keeps to the rules.
-/
import EdgeIncludes.Proofs.Response.Rules

namespace EdgeIncludes
namespace Response

/-! ## Quiet moments -/

namespace Effect

/-- The effect neither sets a fetch on its way nor lets the response go. -/
def isQuiet : Effect → Bool
  | .asks .. | .replacesBody .. | .resumes => false
  | _ => true

end Effect

/-- The page is put in its place when no fetch is on its way. -/
def CompleteAtWrite (ledger : Ledger) : Moment → Prop
  | .did (.replacesBody ..) => ledger.inFlight = []
  | _ => True

section Quiet

variable {ledger : Ledger} {quiet : List Effect}

theorem inFlight_note_of_quiet {effect : Effect} (h : effect.isQuiet) (ledger : Ledger) :
    (ledger.note (.did effect)).inFlight = ledger.inFlight := by
  cases effect with
  | asks request reply => cases h
  | records slot record =>
    cases slot with
    | none => rfl
    | some slot =>
      rw [Ledger.note]
      split <;> rfl
  | _ => rfl

theorem inFlight_noteAll_of_quiet (h : ∀ effect ∈ quiet, effect.isQuiet) (ledger : Ledger) :
    (ledger.noteAll (quiet.map .did)).inFlight = ledger.inFlight := by
  induction quiet generalizing ledger with
  | nil => rfl
  | cons effect rest ih =>
    obtain ⟨heffect, hrest⟩ := List.forall_mem_cons.mp h
    exact (ih hrest _).trans (inFlight_note_of_quiet heffect ledger)

/-- A call that answers no fetch on its way changes nothing about what is. -/
theorem inFlight_note_called {step : Step} (h : step.answers ledger = false) :
    (ledger.note (.called step.call)).inFlight = ledger.inFlight := by
  obtain ⟨stream, call⟩ := step
  cases call with
  | answered token status fragment replies =>
    have hsome : (ledger.inFlight.lookup token).isSome = false := h
    have hnone : ledger.inFlight.lookup token = none := by
      rwa [Option.isSome_eq_false_iff, Option.isNone_iff_eq_none] at hsome
    rw [Ledger.note, Ledger.answer, hnone]
  | _ => rfl

theorem follows_of_keeps {effects : List Effect} (h : Keeps effects) (ledger : Ledger) :
    Follows CompleteAtWrite ledger (effects.map .did) := by
  induction effects generalizing ledger with
  | nil => trivial
  | cons effect rest ih =>
    obtain ⟨heffect, hrest⟩ := List.forall_mem_cons.mp h
    refine ⟨?_, ih hrest _⟩
    cases effect with
    | replacesBody size page => cases heffect
    | _ => trivial

theorem keeps_of_quiet (h : ∀ effect ∈ quiet, effect.isQuiet) : Keeps quiet := by
  intro effect hmem
  have heffect := h effect hmem
  cases effect <;> first | rfl | cases heffect

end Quiet

/-! ## Phases -/

inductive Phase where
  | before
  | passed
  | taking
  | givenUp
  | waiting
  | written
deriving Repr, DecidableEq

namespace Phase

/-- The phase can be that of a stream at the stage. -/
def allows : Phase → Stage → Bool
  | before, .beginning | before, .requested => true
  | passed, .inBody | passed, .ended | givenUp, .inBody | givenUp, .ended => true
  | taking, .inBody => true
  | waiting, .ended | written, .ended => true
  | _, _ => false

def isReleased : Phase → Bool
  | givenUp | written => true
  | _ => false

def isUntouched : Phase → Bool
  | before | passed => true
  | _ => false

end Phase

/-- The stream has come to the phase, and what has happened so far is what leads to it. -/
structure Stands (earlier : List Step) (stream : Stream) (stage : Stage) (phase : Phase) :
    Prop where
  allowed : phase.allows stage
  intake : stream.intake.isSome = (phase == .taking)
  assembly : stream.assembly.isSome = (phase == .waiting)
  tied : ∀ assembly, stream.assembly = some assembly →
    Tied assembly.outstanding (ledgerOf earlier).inFlight
  inFlight : phase ≠ .waiting → (ledgerOf earlier).inFlight = []
  passed : earlier.any Step.passesOver = (phase == .passed)
  released : earlier.any Step.releases = phase.isReleased
  held : phase = .waiting → earlier.any Step.endsHeld
  writes : (effects earlier).countP Effect.isWrite = if phase = .written then 1 else 0
  resumes : (effects earlier).countP Effect.isResume ≤ (effects earlier).countP Effect.isWrite
  untouched : phase.isUntouched → ∀ step ∈ earlier, step.LeavesAlone
  follows : Follows CompleteAtWrite {} (moments earlier)

/-! ## Quiet steps -/

/-- The step leads from phase to phase without a fetch being asked for or answered, and without
the page being put in its place. -/
structure Step.LeadsQuietly (step : Step) (phase after : Phase) : Prop where
  intake : step.turn.stream.intake.isSome = (after == .taking)
  assembly : step.turn.stream.assembly = step.before.assembly
  quiet : ∀ effect ∈ step.turn.effects, effect.isQuiet
  completes : step.completes = false
  waiting : after = .waiting ↔ phase = .waiting
  written : after = .written ↔ phase = .written
  passed : ((phase == .passed) || step.passesOver) = (after == .passed)
  released : (phase.isReleased || step.givesUp) = after.isReleased
  proceeds : step.isBody → (step.turn.action = .proceed ↔ phase = .passed ∨ after.isReleased)
  untouched : after.isUntouched → phase.isUntouched ∧ step.LeavesAlone

namespace Stands

variable {earlier : List Step} {step : Step} {stage next : Stage} {phase after : Phase}

theorem quiet (h : Stands earlier step.before stage phase) (hleads : step.LeadsQuietly phase after)
    (hallowed : after.allows next) (hanswers : step.answers (ledgerOf earlier) = false) :
    Ruled earlier step ∧ Stands (earlier ++ [step]) step.turn.stream next after := by
  have hkeeps : Keeps step.turn.effects := keeps_of_quiet hleads.quiet
  have hwrites : step.writes = false := hkeeps.any_isWrite
  have hresumes : step.resumes = false := hkeeps.any_isResume
  have hinFlight : (ledgerOf (earlier ++ [step])).inFlight =
      (ledgerOf earlier).inFlight := by
    rw [ledgerOf_snoc]
    exact (inFlight_noteAll_of_quiet hleads.quiet _).trans (inFlight_note_called hanswers)
  have hreleases : (earlier ++ [step]).any Step.releases = after.isReleased := by
    rw [List.any_append, h.released, List.any_cons, List.any_nil, Bool.or_false, Step.releases,
      hwrites, Bool.false_or, hleads.released]
  have hruled : Ruled earlier step :=
    { writes_iff := by rw [hwrites, hanswers, hleads.completes]; simp
      proceeds_iff := fun hbody => by
        rw [h.passed, hreleases, beq_iff_eq]
        exact hleads.proceeds hbody
      resumes_iff := by rw [hresumes, hanswers]; simp
      resumes_after := by rw [hresumes]; exact nofun }
  refine ⟨hruled,
    { allowed := hallowed
      intake := hleads.intake
      assembly := ?assembly
      tied := ?tied
      inFlight := ?inFlight
      passed := ?passed
      released := hreleases
      held := ?held
      writes := ?writes
      resumes := ?resumes
      untouched := ?untouched
      follows := ?follows }⟩
  case assembly =>
    rw [hleads.assembly, h.assembly]
    exact Bool.eq_iff_iff.mpr (by simpa using hleads.waiting.symm)
  case tied =>
    rw [hleads.assembly, hinFlight]
    exact h.tied
  case inFlight =>
    rw [hinFlight]
    exact fun hne => h.inFlight fun hphase => hne (hleads.waiting.mpr hphase)
  case passed =>
    rw [List.any_append, h.passed, List.any_cons, List.any_nil, Bool.or_false, hleads.passed]
  case held =>
    intro hwaiting
    rw [List.any_append, h.held (hleads.waiting.mp hwaiting), Bool.true_or]
  case writes =>
    rw [effects_snoc, List.countP_append, h.writes, hkeeps.countP_isWrite, Nat.add_zero]
    simp only [hleads.written]
  case resumes =>
    rw [effects_snoc, List.countP_append, List.countP_append, hkeeps.countP_isWrite,
      hkeeps.countP_isResume]
    exact h.resumes
  case untouched =>
    intro huntouched
    obtain ⟨hphase, halone⟩ := hleads.untouched huntouched
    exact List.forall_mem_append.mpr ⟨h.untouched hphase, List.forall_mem_singleton.mpr halone⟩
  case follows =>
    rw [moments_append, moments_singleton, follows_append]
    exact ⟨h.follows, trivial, follows_of_keeps hkeeps _⟩

end Stands

/-! ## Steps that complete a page or answer a fetch -/

/-- How a page is put in its place, at once or after an answer. -/
def Stream.ending (stream : Stream) (assembly : Assembly) (answered : Bool) : List Effect :=
  stream.finale assembly ++ if answered then [.resumes] else []

/-- The step sees to fragments, and ends with the page in its place if no fetch is on its way,
and with the response held back otherwise. -/
structure Step.SeesTo (step : Step) (earlier : List Step) (answered : Bool) (seen : List Effect)
    (assembly : Assembly) : Prop where
  answers : step.answers (ledgerOf earlier) = answered
  completes : step.completes = !answered
  isBody : step.isBody = !answered
  passesOver : step.passesOver = false
  givesUp : step.givesUp = false
  keeps : Keeps seen
  tied : Tied assembly.outstanding
    ((ledgerOf earlier).noteAll (.called step.call :: seen.map .did)).inFlight
  intake : step.turn.stream.intake = none
  done : assembly.isDone → step.turn.stream.assembly = none ∧ step.turn.action = .proceed ∧
    step.turn.effects = seen ++ step.before.ending assembly answered
  waits : assembly.isDone = false → step.turn.stream.assembly = some assembly ∧
    (answered || step.endsHeld) ∧ (answered = false → step.turn.action = .hold) ∧
    ∃ rest, (∀ effect ∈ rest, effect.isQuiet) ∧ step.turn.effects = seen ++ rest

namespace Stands

variable {earlier : List Step} {step : Step} {stage : Stage} {answered : Bool}
  {seen : List Effect} {assembly : Assembly}

/-- The phase in which a step sees to fragments. -/
def phaseOf (answered : Bool) : Phase :=
  if answered then .waiting else .taking

theorem done (h : Stands earlier step.before stage (phaseOf answered))
    (hsees : step.SeesTo earlier answered seen assembly) (hdone : assembly.isDone) :
    Ruled earlier step ∧ Stands (earlier ++ [step]) step.turn.stream .ended .written := by
  obtain ⟨hassembly, haction, heffects⟩ := hsees.done hdone
  have hflight : ((ledgerOf earlier).noteAll (.called step.call :: seen.map .did)).inFlight = [] :=
    hsees.tied.isDone_iff.mp hdone
  have hmoments : step.moments = (.called step.call :: seen.map .did) ++
      (step.before.ending assembly answered).map .did := by
    rw [Step.moments, heffects, List.map_append, List.cons_append]
  have hafter : (ledgerOf (earlier ++ [step])).inFlight = [] := by
    rw [ledgerOf_snoc, hmoments, Ledger.noteAll_append]
    cases answered <;> exact hflight
  have hwrites : step.writes = true := by
    rw [Step.writes, heffects, List.any_append, hsees.keeps.any_isWrite]
    rfl
  have hresumes : step.resumes = answered := by
    rw [Step.resumes, heffects, List.any_append, hsees.keeps.any_isResume]
    cases answered <;> rfl
  have hreleases : (earlier ++ [step]).any Step.releases = true := by
    rw [List.any_append, List.any_cons, Step.releases, hwrites, Bool.true_or, Bool.true_or,
      Bool.or_true]
  have hheld : answered = true → earlier.any Step.endsHeld := by
    rintro rfl
    exact h.held rfl
  have hcount : (effects earlier).countP Effect.isWrite = 0 := by
    rw [h.writes]
    cases answered <;> rfl
  have hruled : Ruled earlier step :=
    { writes_iff := by
        rw [hwrites, hafter, hsees.completes, hsees.answers]
        cases answered <;> simp
      proceeds_iff := fun _ => by rw [haction, hreleases]; simp
      resumes_iff := by
        rw [hresumes, hsees.answers, hafter]
        exact ⟨fun h => ⟨hheld h, h, rfl⟩, fun h => h.2.1⟩
      resumes_after := by
        rw [hresumes]
        rintro rfl
        exact ⟨_, _, _, _, heffects⟩ }
  refine ⟨hruled,
    { allowed := rfl
      intake := by rw [hsees.intake]; rfl
      assembly := by rw [hassembly]; rfl
      tied := by rw [hassembly]; exact nofun
      inFlight := fun _ => hafter
      passed := ?passed
      released := hreleases
      held := nofun
      writes := ?writes
      resumes := ?resumes
      untouched := nofun
      follows := ?follows }⟩
  case passed =>
    rw [List.any_append, h.passed, List.any_cons, hsees.passesOver]
    cases answered <;> rfl
  case writes =>
    rw [effects_snoc, List.countP_append, hcount, heffects, List.countP_append,
      hsees.keeps.countP_isWrite]
    cases answered <;> rfl
  case resumes =>
    have hnone := h.resumes
    rw [hcount, Nat.le_zero] at hnone
    rw [effects_snoc, List.countP_append, List.countP_append, hcount, hnone, heffects,
      List.countP_append, List.countP_append, hsees.keeps.countP_isWrite,
      hsees.keeps.countP_isResume]
    cases answered with
    | false => exact Nat.zero_le _
    | true => exact Nat.le_refl 1
  case follows =>
    rw [moments_append, moments_singleton, follows_append, hmoments, follows_append]
    refine ⟨h.follows, ⟨trivial, follows_of_keeps hsees.keeps _⟩, hflight, trivial, ?_⟩
    cases answered with
    | false => trivial
    | true => exact ⟨trivial, trivial⟩

theorem waits (h : Stands earlier step.before stage (phaseOf answered))
    (hsees : step.SeesTo earlier answered seen assembly) (hwaits : assembly.isDone = false) :
    Ruled earlier step ∧ Stands (earlier ++ [step]) step.turn.stream .ended .waiting := by
  obtain ⟨hassembly, hheld, haction, rest, hquiet, heffects⟩ := hsees.waits hwaits
  have hkeeps : Keeps step.turn.effects := by
    rw [heffects]
    exact hsees.keeps.append (keeps_of_quiet hquiet)
  have hmoments : step.moments = (.called step.call :: seen.map .did) ++ rest.map .did := by
    rw [Step.moments, heffects, List.map_append, List.cons_append]
  have htied : Tied assembly.outstanding (ledgerOf (earlier ++ [step])).inFlight := by
    rw [ledgerOf_snoc, hmoments, Ledger.noteAll_append, inFlight_noteAll_of_quiet hquiet]
    exact hsees.tied
  have hflight : (ledgerOf (earlier ++ [step])).inFlight ≠ [] := fun hempty =>
    Bool.eq_false_iff.mp hwaits (htied.isDone_iff.mpr hempty)
  have hwrites : step.writes = false := hkeeps.any_isWrite
  have hresumes : step.resumes = false := hkeeps.any_isResume
  have hreleases : (earlier ++ [step]).any Step.releases = false := by
    rw [List.any_append, h.released, List.any_cons, Step.releases, hwrites, hsees.givesUp]
    cases answered <;> rfl
  have hpasses : earlier.any Step.passesOver = false := by
    rw [h.passed]
    cases answered <;> rfl
  have hcount : (effects earlier).countP Effect.isWrite = 0 := by
    rw [h.writes]
    cases answered <;> rfl
  have hruled : Ruled earlier step :=
    { writes_iff := by
        rw [hwrites]
        exact iff_of_false Bool.false_ne_true fun h => hflight h.1
      proceeds_iff := fun hbody => by
        rw [hsees.isBody] at hbody
        rw [haction (Bool.not_eq_true' _ ▸ hbody), hreleases, hpasses]
        simp
      resumes_iff := by
        rw [hresumes]
        exact iff_of_false Bool.false_ne_true fun h => hflight h.2.2
      resumes_after := by rw [hresumes]; exact nofun }
  refine ⟨hruled,
    { allowed := rfl
      intake := by rw [hsees.intake]; rfl
      assembly := by rw [hassembly]; rfl
      tied := ?tied
      inFlight := (absurd rfl ·)
      passed := ?passed
      released := hreleases
      held := fun _ => ?held
      writes := ?writes
      resumes := ?resumes
      untouched := nofun
      follows := ?follows }⟩
  case tied =>
    rw [hassembly]
    rintro other hother
    exact Option.some.inj hother ▸ htied
  case passed =>
    rw [List.any_append, hpasses, List.any_cons, hsees.passesOver]
    rfl
  case held =>
    rw [List.any_append, List.any_cons, List.any_nil, Bool.or_false]
    cases answered with
    | false => exact Bool.or_eq_true_iff.mpr (Or.inr hheld)
    | true => exact Bool.or_eq_true_iff.mpr (Or.inl (h.held rfl))
  case writes =>
    rw [effects_snoc, List.countP_append, hcount, hkeeps.countP_isWrite]
    rfl
  case resumes =>
    rw [effects_snoc, List.countP_append, List.countP_append, hkeeps.countP_isWrite,
      hkeeps.countP_isResume]
    exact h.resumes
  case follows =>
    rw [moments_append, moments_singleton, follows_append]
    exact ⟨h.follows, trivial, follows_of_keeps hkeeps _⟩

end Stands
end Response
end EdgeIncludes
