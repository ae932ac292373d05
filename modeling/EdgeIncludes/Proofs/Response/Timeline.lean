/-
A stream as its host sees it.

What can be seen of a stream is what the host calls and what the filter does on each call,
one moment after the other.  An onlooker who sees only the moments can keep a ledger of the
fetches, and the statements about fetches are statements about the ledger: it knows nothing
of what the stream remembers.

The host calls in an order.  The headers of the request come first and those of the response
next, and the body is over with its last part.  Answers can come at any time, for nobody need
be waiting for them.
-/
import EdgeIncludes.Response.Stream

namespace EdgeIncludes
namespace Response

/-! ## Runs -/

structure Step where
  before : Stream
  call : Stream.Call

def Step.turn (step : Step) : Turn :=
  step.before.turn step.call

namespace Stream

def steps (stream : Stream) : List Call → List Step
  | [] => []
  | call :: rest => ⟨stream, call⟩ :: (stream.turn call).stream.steps rest

def run (stream : Stream) (calls : List Call) : Stream :=
  calls.foldl (fun stream call => (stream.turn call).stream) stream

end Stream

/-! ## The host's order -/

/-- How far the host has come with a stream. -/
inductive Stage where
  | beginning
  | requested
  | inBody
  | ended
deriving Repr, DecidableEq

namespace Stage

/-- The stage after a call, if the call may come at this stage. -/
def next? : Stage → Stream.Call → Option Stage
  | .beginning, .requestHeaders _ => some .requested
  | .requested, .responseHeaders _ => some .inBody
  | .inBody, .body _ _ last _ => some (if last then .ended else .inBody)
  | stage, .answered .. | stage, .finished => some stage
  | _, _ => none

end Stage

/-- The calls come in the host's order. -/
def InOrder (calls : List Stream.Call) : Prop :=
  ∃ last, calls.foldlM Stage.next? .beginning = some last

namespace Stream

theorem map_call_steps (stream : Stream) (calls : List Call) :
    (stream.steps calls).map Step.call = calls := by
  induction calls generalizing stream with
  | nil => rfl
  | cons call rest ih => exact congrArg (call :: ·) (ih _)

/-- What holds at the beginning and is kept by every step of which something is given holds in
the end, and what can be said of every step because of it can be said of each in its place. -/
theorem steps_induction (Holds : List Step → Stream → Prop) (Given Fact : List Step → Step → Prop)
    (hstep : ∀ {earlier : List Step} {stream : Stream} {call : Call}, Holds earlier stream →
      Given earlier ⟨stream, call⟩ → Fact earlier ⟨stream, call⟩ ∧
        Holds (earlier ++ [⟨stream, call⟩]) (stream.turn call).stream)
    {calls : List Call} {earlier : List Step} {stream : Stream} (h : Holds earlier stream)
    (hgiven : ∀ front step back, stream.steps calls = front ++ step :: back →
      Given (earlier ++ front) step) :
    Holds (earlier ++ stream.steps calls) (stream.run calls) ∧
      ∀ front step back, stream.steps calls = front ++ step :: back →
        Fact (earlier ++ front) step := by
  induction calls generalizing earlier stream with
  | nil =>
    refine ⟨(List.append_nil earlier).symm ▸ h, fun front step back hsplit => ?_⟩
    cases (List.append_eq_nil_iff.mp hsplit.symm).2
  | cons call rest ih =>
    obtain ⟨hfact, hkept⟩ := hstep h (List.append_nil earlier ▸ hgiven [] _ _ rfl)
    obtain ⟨hlast, hfacts⟩ := ih hkept fun front step back hsplit => by
      rw [List.append_assoc]
      exact hgiven (⟨stream, call⟩ :: front) step back (congrArg (_ :: ·) hsplit)
    rw [List.append_assoc] at hlast
    refine ⟨hlast, fun front step back hsplit => ?_⟩
    cases front with
    | nil =>
      obtain ⟨rfl, -⟩ := List.cons.inj hsplit
      exact (List.append_nil earlier).symm ▸ hfact
    | cons first front =>
      obtain ⟨rfl, hrest⟩ := List.cons.inj hsplit
      have hlater := hfacts front step back hrest
      rwa [List.append_assoc] at hlater

/-- The same for calls in order, where what holds depends on the stage. -/
theorem steps_induction_of_inOrder (Holds : List Step → Stream → Stage → Prop)
    (Fact : List Step → Step → Prop)
    (hstep : ∀ {earlier : List Step} {stream : Stream} {stage next : Stage} {call : Call},
      Holds earlier stream stage → stage.next? call = some next →
        Fact earlier ⟨stream, call⟩ ∧
          Holds (earlier ++ [⟨stream, call⟩]) (stream.turn call).stream next)
    {calls : List Call} {stream : Stream} (h : Holds [] stream .beginning)
    (horder : InOrder calls) :
    (∃ last, Holds (stream.steps calls) (stream.run calls) last) ∧
      ∀ front step back, stream.steps calls = front ++ step :: back → Fact front step := by
  let InStage := fun (earlier : List Step) (stream : Stream) => ∃ stage,
    (earlier.map Step.call).foldlM Stage.next? .beginning = some stage ∧ Holds earlier stream stage
  let Comes := fun (earlier : List Step) (step : Step) => ∃ next,
    ((earlier ++ [step]).map Step.call).foldlM Stage.next? .beginning = some next
  have hkeeps : ∀ {earlier : List Step} {stream : Stream} {call : Call}, InStage earlier stream →
      Comes earlier ⟨stream, call⟩ → Fact earlier ⟨stream, call⟩ ∧
        InStage (earlier ++ [⟨stream, call⟩]) (stream.turn call).stream := by
    rintro earlier stream call ⟨stage, hstage, hholds⟩ ⟨next, hcomes⟩
    have hnext : stage.next? call = some next := by
      rw [List.map_append, List.foldlM_append, hstage] at hcomes
      simpa using hcomes
    obtain ⟨hfact, hkept⟩ := hstep hholds hnext
    exact ⟨hfact, next, hcomes, hkept⟩
  have hcomes : ∀ front step back, stream.steps calls = front ++ step :: back →
      Comes ([] ++ front) step := by
    intro front step back hsplit
    obtain ⟨last, hlast⟩ := horder
    rw [← stream.map_call_steps calls, hsplit, List.append_cons, List.map_append,
      List.foldlM_append] at hlast
    obtain ⟨next, hnext, -⟩ := Option.bind_eq_some_iff.mp hlast
    exact ⟨next, hnext⟩
  obtain ⟨⟨last, -, hlast⟩, hfacts⟩ :=
    steps_induction InStage Comes Fact hkeeps ⟨.beginning, rfl, h⟩ hcomes
  exact ⟨⟨last, hlast⟩, hfacts⟩

end Stream

/-! ## Moments -/

/-- Something that happens: the host calls, or the filter does something. -/
inductive Moment where
  | called (call : Stream.Call)
  | did (effect : Effect)

/-- The token that the host gives. -/
def Moment.token? : Moment → Option Nat
  | .called _ => none
  | .did effect => effect.token?

def Step.moments (step : Step) : List Moment :=
  .called step.call :: step.turn.effects.map .did

/-- All that happens in the steps. -/
def moments (steps : List Step) : List Moment :=
  steps.flatMap Step.moments

theorem moments_append (front back : List Step) :
    moments (front ++ back) = moments front ++ moments back :=
  List.flatMap_append

theorem moments_singleton (step : Step) : moments [step] = step.moments :=
  List.append_nil _

/-! ## The ledger -/

/-- What an onlooker knows of the fetches of a stream, the newest first. -/
structure Ledger where
  /-- The fetches on their way, by the token of their sub-request. -/
  inFlight : List (Nat × Fetch) := []
  /-- What was asked for, whether or not the host took it. -/
  asked : List Fetch := []
  /-- What was asked for and is not to be had: the host did not take it, or the answer was
  not a success. -/
  lost : List Fetch := []
  /-- The slots whose fragments have come. -/
  filled : List Nat := []
  /-- The slots that were recorded as failed. -/
  failed : List Nat := []
deriving Repr, DecidableEq

namespace Ledger

/-- The fetches on their way but for that of the token. -/
def without (ledger : Ledger) (token : Nat) : List (Nat × Fetch) :=
  ledger.inFlight.filter fun entry => entry.1 != token

def ask (ledger : Ledger) (fetch : Fetch) : Reply → Ledger
  | .accepted token => { ledger with
      inFlight := (token, fetch) :: ledger.without token
      asked := fetch :: ledger.asked }
  | .denied _ => { ledger with asked := fetch :: ledger.asked, lost := fetch :: ledger.lost }

/-- The status of an answer is that of a success: it is a code from 200 to 299. -/
def isSuccess (status : Option String) : Bool :=
  (Stream.statusOf? status).any fun code => 200 ≤ code && code ≤ 299

/-- The filter takes the same answers for successes as the onlooker. -/
theorem isSuccess_eq_any (status : Option String) :
    isSuccess status = (Stream.statusOf? status).any Stream.isSuccess := by
  have hrange : ∀ code, Stream.isSuccess code = (200 ≤ code && code ≤ 299) := by
    intro code
    rw [Stream.isSuccess, decide_eq_decide.mpr (Nat.lt_succ_iff (m := code) (n := 299))]
  rw [isSuccess, funext hrange]

def answer (ledger : Ledger) (token : Nat) (status : Option String) : Ledger :=
  match ledger.inFlight.lookup token with
  | none => ledger
  | some fetch =>
    let rest := { ledger with inFlight := ledger.without token }
    if isSuccess status then { rest with filled := fetch.slot :: ledger.filled }
    else { rest with lost := fetch :: ledger.lost }

def note (ledger : Ledger) : Moment → Ledger
  | .called (.answered token status _ _) => ledger.answer token status
  | .did (.asks request reply) => ledger.ask request.fetch reply
  | .did (.records (some slot) record) =>
    if record.kind = .includeFailed then { ledger with failed := slot :: ledger.failed }
    else ledger
  | _ => ledger

def noteAll (ledger : Ledger) (moments : List Moment) : Ledger :=
  moments.foldl note ledger

theorem noteAll_append (ledger : Ledger) (front back : List Moment) :
    ledger.noteAll (front ++ back) = (ledger.noteAll front).noteAll back :=
  List.foldl_append

theorem lookup_without (ledger : Ledger) (token other : Nat) :
    (ledger.without token).lookup other =
      if token = other then none else ledger.inFlight.lookup other := by
  rw [without]
  induction ledger.inFlight with
  | nil => simp
  | cons entry rest ih =>
    obtain ⟨key, fetch⟩ := entry
    by_cases hkey : key = token
    · rw [List.filter_cons_of_neg (by simp [hkey]), ih]
      by_cases htoken : token = other
      · rw [if_pos htoken, if_pos htoken]
      · have hother : (other == key) = false := by simp [hkey, Ne.symm htoken]
        rw [if_neg htoken, if_neg htoken, List.lookup_cons, hother]
    · rw [List.filter_cons_of_pos (by simp [hkey]), List.lookup_cons, List.lookup_cons, ih]
      by_cases hother : other = key
      · have htoken : token ≠ other := fun h => hkey (hother.symm.trans h.symm)
        rw [if_neg htoken, if_neg htoken]
      · have hbeq : (other == key) = false := beq_eq_false_iff_ne.mpr hother
        rw [hbeq]

theorem answer_of_success {ledger : Ledger} {token : Nat} {fetch : Fetch} {status : Option String}
    (h : ledger.inFlight.lookup token = some fetch) (hstatus : isSuccess status) :
    ledger.answer token status = { ledger with
      inFlight := ledger.without token
      filled := fetch.slot :: ledger.filled } := by
  rw [answer, h]
  exact if_pos hstatus

theorem answer_of_failure {ledger : Ledger} {token : Nat} {fetch : Fetch} {status : Option String}
    (h : ledger.inFlight.lookup token = some fetch) (hstatus : isSuccess status = false) :
    ledger.answer token status = { ledger with
      inFlight := ledger.without token
      lost := fetch :: ledger.lost } := by
  rw [answer, h]
  exact if_neg (Bool.eq_false_iff.mp hstatus)

theorem inFlight_answer {ledger : Ledger} {token : Nat} {fetch : Fetch}
    (h : ledger.inFlight.lookup token = some fetch) (status : Option String) :
    (ledger.answer token status).inFlight = ledger.without token := by
  cases hstatus : isSuccess status with
  | true => rw [answer_of_success h hstatus]
  | false => rw [answer_of_failure h hstatus]

end Ledger

/-- Each of the moments is proper at what the ledger says before it. -/
def Follows (Proper : Ledger → Moment → Prop) (ledger : Ledger) : List Moment → Prop
  | [] => True
  | moment :: rest => Proper ledger moment ∧ Follows Proper (ledger.note moment) rest

instance Follows.decidable {Proper : Ledger → Moment → Prop}
    [∀ ledger moment, Decidable (Proper ledger moment)] :
    ∀ (ledger : Ledger) (moments : List Moment), Decidable (Follows Proper ledger moments)
  | _, [] => isTrue trivial
  | ledger, moment :: rest =>
    have : Decidable (Follows Proper (ledger.note moment) rest) :=
      Follows.decidable (ledger.note moment) rest
    inferInstanceAs (Decidable (Proper ledger moment ∧ Follows Proper (ledger.note moment) rest))

section Follows

variable {Proper : Ledger → Moment → Prop} {ledger : Ledger}

theorem Follows.imp {Admitted : Ledger → Moment → Prop} {moments : List Moment}
    (h : Follows Proper ledger moments)
    (himp : ∀ ledger moment, Proper ledger moment → Admitted ledger moment) :
    Follows Admitted ledger moments := by
  induction moments generalizing ledger with
  | nil => trivial
  | cons moment rest ih => exact ⟨himp ledger moment h.1, ih h.2⟩

theorem follows_append {front back : List Moment} :
    Follows Proper ledger (front ++ back) ↔
      Follows Proper ledger front ∧ Follows Proper (ledger.noteAll front) back := by
  induction front generalizing ledger with
  | nil => exact (iff_of_eq (true_and _)).symm
  | cons moment front ih =>
    rw [List.cons_append, Follows, Follows, ih, and_assoc]
    rfl

theorem follows_iff {moments : List Moment} :
    Follows Proper ledger moments ↔
      ∀ front moment back, moments = front ++ moment :: back →
        Proper (ledger.noteAll front) moment := by
  refine ⟨?_, fun h => ?_⟩
  · rintro h front moment back rfl
    exact (follows_append.mp h).2.1
  · induction moments generalizing ledger with
    | nil => trivial
    | cons moment rest ih =>
      refine ⟨h [] moment rest rfl, ih fun front later back hsplit => ?_⟩
      exact h (moment :: front) later back (congrArg (moment :: ·) hsplit)

end Follows

end Response
end EdgeIncludes
