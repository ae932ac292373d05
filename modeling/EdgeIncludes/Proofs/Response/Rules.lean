/-
The rules of a response.

A response that is processed is held back until its page is complete or it is given up, and the
page takes the place of the body once.  The rules say so of what can be seen of a stream: of
each step of it, given the steps before, and of all of them together.
-/
import EdgeIncludes.Proofs.Response.Turns

namespace EdgeIncludes
namespace Response

/-! ## What a step is -/

namespace Step

def writes (step : Step) : Bool :=
  step.turn.effects.any Effect.isWrite

def resumes (step : Step) : Bool :=
  step.turn.effects.any Effect.isResume

/-- What is decided about the body that the step brings. -/
def decision? (step : Step) : Option Page.Decision :=
  match step.call with
  | .body size read last _ =>
    step.before.intake.bind fun intake =>
      (intake.take (step.before.unseen size read) last).decision
  | _ => none

/-- The document that the step completes. -/
def document? (step : Step) : Option Page.Document :=
  step.decision?.bind Page.Decision.document?

/-- The step completes a document. -/
def completes (step : Step) : Bool :=
  step.document?.isSome

/-- The step gives up a body that was being taken in. -/
def givesUp (step : Step) : Bool :=
  (step.decision?.bind Page.Decision.skip?).isSome

/-- The step finds from its headers that the response is not to be processed. -/
def passesOver (step : Step) : Bool :=
  match step.call with
  | .responseHeaders headers =>
    (skip? step.before.settings step.before.depth (header? "content-type" headers)
      (header? "content-length" headers)).isSome
  | _ => false

def isBody (step : Step) : Bool :=
  match step.call with
  | .body .. => true
  | _ => false

/-- The step brings the end of the body, and the response is held back nevertheless. -/
def endsHeld (step : Step) : Bool :=
  match step.call with
  | .body _ _ last _ => last && step.turn.action == .hold
  | _ => false

/-- The step answers a fetch that is on its way. -/
def answers (step : Step) (ledger : Ledger) : Bool :=
  match step.call with
  | .answered token .. => (ledger.inFlight.lookup token).isSome
  | _ => false

/-- The page is put in the place of the body, or the body is given up. -/
def releases (step : Step) : Bool :=
  step.writes || step.givesUp

/-- The step leaves the response as it is. -/
def LeavesAlone (step : Step) : Prop :=
  step.turn.action = .proceed ∧ ∀ effect ∈ step.turn.effects, effect.touches = false

end Step

/-! ## The rules -/

def effects (steps : List Step) : List Effect :=
  steps.flatMap fun step => step.turn.effects

/-- What an onlooker has in the ledger after the steps. -/
def ledgerOf (steps : List Step) : Ledger :=
  Ledger.noteAll {} (moments steps)

/-- What can be said of a step that comes after others. -/
structure Ruled (earlier : List Step) (step : Step) : Prop where
  /-- The body is replaced just when a document is completed and no fetch is on its way, or
  when the last fetch that was on its way is answered. -/
  writes_iff : step.writes ↔ (ledgerOf (earlier ++ [step])).inFlight = [] ∧
    (step.completes ∨ step.answers (ledgerOf earlier))
  /-- The body of a response that is processed is held back until the page is put in its place
  or it is given up. -/
  proceeds_iff : step.isBody → (step.turn.action = .proceed ↔
    earlier.any Step.passesOver ∨ (earlier ++ [step]).any Step.releases)
  /-- The response is resumed just when its end was held back and the last fetch that was on
  its way is answered. -/
  resumes_iff : step.resumes ↔ earlier.any Step.endsHeld ∧ step.answers (ledgerOf earlier) ∧
    (ledgerOf (earlier ++ [step])).inFlight = []
  /-- It is resumed right after the page was put in its place, with nothing but a record of
  that in between. -/
  resumes_after : step.resumes → ∃ front size page record,
    step.turn.effects = front ++ [.replacesBody size page, .records none record, .resumes]

/-- What can be said of the steps of a stream. -/
structure Lifecycle (history : List Step) : Prop where
  writes_once : (effects history).countP Effect.isWrite ≤ 1
  resumes_once : (effects history).countP Effect.isResume ≤ 1
  /-- The body is not replaced while a fetch is on its way. -/
  writes_complete : ∀ front size page back,
    moments history = front ++ .did (.replacesBody size page) :: back →
      (Ledger.noteAll {} front).inFlight = []
  ruled : ∀ earlier step later, history = earlier ++ step :: later → Ruled earlier step
  /-- A response that is not to be processed is left as it is. -/
  leaves_alone : history.any Step.passesOver → ∀ step ∈ history, step.LeavesAlone

theorem effects_snoc (earlier : List Step) (step : Step) :
    effects (earlier ++ [step]) = effects earlier ++ step.turn.effects := by
  rw [effects, List.flatMap_append, List.flatMap_singleton]
  rfl

theorem ledgerOf_snoc (earlier : List Step) (step : Step) :
    ledgerOf (earlier ++ [step]) = (ledgerOf earlier).noteAll step.moments := by
  rw [ledgerOf, moments_append, moments_singleton, Ledger.noteAll_append]
  rfl

end Response
end EdgeIncludes
