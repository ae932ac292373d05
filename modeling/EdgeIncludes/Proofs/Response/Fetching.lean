/-
What is done about a fragment.

To ask for a fragment has one of four outcomes, and all that is done about the slots of a page
is put together from such attempts and from records of failure.  The relations here give the
effects of each of the steps as the grammar of what can happen, and every step has effects of
its grammar and adds nothing else to its round (`Round.Advances`): what the assembly tracks
afterwards can be read off the effects.
-/
import EdgeIncludes.Proofs.Response.Timeline

namespace EdgeIncludes
namespace Response

/-! ## Rounds -/

namespace Assembly

/-- The assembly once the effect has happened: it tracks what the host took. -/
def follow (assembly : Assembly) : Effect → Assembly
  | .asks request (.accepted token) => assembly.track token request.fetch
  | _ => assembly

def followAll (assembly : Assembly) (effects : List Effect) : Assembly :=
  effects.foldl follow assembly

theorem followAll_append (assembly : Assembly) (front back : List Effect) :
    assembly.followAll (front ++ back) = (assembly.followAll front).followAll back :=
  List.foldl_append

/-- Nothing but what is tracked changes. -/
theorem exists_followAll_eq (assembly : Assembly) (effects : List Effect) :
    ∃ outstanding, assembly.followAll effects = { assembly with outstanding } := by
  induction effects generalizing assembly with
  | nil => exact ⟨assembly.outstanding, rfl⟩
  | cons effect rest ih =>
    obtain ⟨outstanding, hfirst⟩ : ∃ outstanding,
        assembly.follow effect = { assembly with outstanding } := by
      rw [follow.eq_def]
      split
      · exact ⟨_, rfl⟩
      · exact ⟨assembly.outstanding, rfl⟩
    obtain ⟨last, hlast⟩ := ih (assembly.follow effect)
    refine ⟨last, hlast.trans ?_⟩
    rw [hfirst]

end Assembly

/-- The round has gone on with the effects, and nothing else. -/
structure Round.Advances (before after : Round) (effects : List Effect) : Prop where
  effects_eq : after.effects = before.effects ++ effects
  assembly_eq : after.assembly = before.assembly.followAll effects

namespace Round.Advances

variable {before middle after : Round} {front back : List Effect}

theorem refl (round : Round) : round.Advances round [] :=
  ⟨(List.append_nil round.effects).symm, rfl⟩

theorem trans (h : before.Advances middle front) (hmore : middle.Advances after back) :
    before.Advances after (front ++ back) := by
  refine ⟨?_, ?_⟩
  · rw [hmore.effects_eq, h.effects_eq, List.append_assoc]
  · rw [hmore.assembly_eq, h.assembly_eq, Assembly.followAll_append]

theorem also (round : Round) (effect : Effect) (h : round.assembly.follow effect = round.assembly) :
    round.Advances (round.also effect) [effect] :=
  ⟨rfl, h.symm⟩

theorem document_eq (h : before.Advances after front) :
    after.assembly.document = before.assembly.document := by
  obtain ⟨outstanding, hfollow⟩ := before.assembly.exists_followAll_eq front
  rw [h.assembly_eq, hfollow]

end Round.Advances

namespace Stream

variable {stream : Stream} {request : Include.Request} {fetch : Fetch} {slot : Nat}

/-! ## One attempt -/

/-- To ask for what a fetch is for has the effects, and it is on its way or it is not. -/
inductive Asks (stream : Stream) (request : Include.Request) (fetch : Fetch) :
    Bool → List Effect → Prop where
  | accepted {target : Include.Target} (token : Nat)
      (htarget : stream.target? request fetch.viaAlt = some (.ok target)) :
      Asks stream request fetch true
        [.asks (stream.subRequest fetch target) (.accepted token),
          .records (some fetch.slot) (stream.dispatchRecord target)]
  | denied {target : Include.Target} (denial : Denial)
      (htarget : stream.target? request fetch.viaAlt = some (.ok target)) :
      Asks stream request fetch false
        [.asks (stream.subRequest fetch target) (.denied denial),
          stream.notes (.denied target.path denial)]
  | unresolved {refusal : Include.Refusal}
      (htarget : stream.target? request fetch.viaAlt = some (.error refusal)) :
      Asks stream request fetch false [stream.notes (.unresolved refusal)]
  | unnamed (htarget : stream.target? request fetch.viaAlt = none) :
      Asks stream request fetch false []

theorem dispatch_asks (stream : Stream) (request : Include.Request) (fetch : Fetch)
    (round : Round) :
    ∃ effects, Asks stream request fetch (stream.dispatch request fetch round).1 effects ∧
      round.Advances (stream.dispatch request fetch round).2 effects := by
  rw [dispatch]
  match htarget : stream.target? request fetch.viaAlt with
  | none => exact ⟨[], .unnamed htarget, .refl round⟩
  | some (.error refusal) => exact ⟨_, .unresolved htarget, .also round _ rfl⟩
  | some (.ok target) =>
    show ∃ effects, Asks stream request fetch (stream.askFor fetch target round).1 effects ∧
      round.Advances (stream.askFor fetch target round).2 effects
    rw [askFor]
    cases hreply : round.reply with
    | accepted token =>
      refine ⟨_, .accepted token htarget, ?_, rfl⟩
      show round.effects ++ [_] ++ [_] = _
      rw [hreply, List.append_assoc]
      rfl
    | denied denial =>
      refine ⟨_, .denied denial htarget, ?_, rfl⟩
      show round.effects ++ [_] ++ [_] = _
      rw [hreply, List.append_assoc]
      rfl

/-! ## Giving a fragment up -/

/-- What is done when the page has to go without a fragment. -/
def farewell (stream : Stream) (slot : Nat) (request : Include.Request) (failure : Failure) :
    List Effect :=
  .records (some slot)
      { Audit.Record.includeFailed request.src failure.text with requestPath := stream.path } ::
    if request.continueOnError || stream.settings.silentErrors then []
    else [stream.notes (.dropped request.src failure)]

theorem giveUp_advances (stream : Stream) (slot : Nat) (request : Include.Request)
    (failure : Failure) (round : Round) :
    round.Advances (stream.giveUp slot request failure round)
      (stream.farewell slot request failure) := by
  have hrecorded := Round.Advances.also round (.records (some slot)
    { Audit.Record.includeFailed request.src failure.text with requestPath := stream.path }) rfl
  rw [giveUp, farewell]
  cases request.continueOnError || stream.settings.silentErrors with
  | true => exact hrecorded
  | false => exact hrecorded.trans (.also _ _ rfl)

/-! ## The fragment of a slot -/

/-- What is done about a slot of the page first: its source is asked for, then its
replacement, and then it is given up. -/
inductive Fetches (stream : Stream) (request : Include.Request) (slot : Nat) :
    List Effect → Prop where
  | source {effects : List Effect} (h : Asks stream request ⟨slot, false⟩ true effects) :
      Fetches stream request slot effects
  | replacement {first second : List Effect}
      (hsource : Asks stream request ⟨slot, false⟩ false first)
      (h : Asks stream request ⟨slot, true⟩ true second) :
      Fetches stream request slot (first ++ second)
  | nothing {first second : List Effect}
      (hsource : Asks stream request ⟨slot, false⟩ false first)
      (h : Asks stream request ⟨slot, true⟩ false second) :
      Fetches stream request slot
        (first ++ second ++ stream.farewell slot request .notDispatched)

theorem fetchSlot_fetches (stream : Stream) {round : Round}
    (hrequest : round.assembly.request? slot = some request) :
    ∃ effects, Fetches stream request slot effects ∧
      round.Advances (stream.fetchSlot round slot) effects := by
  obtain ⟨first, hsource, hfirst⟩ := dispatch_asks stream request ⟨slot, false⟩ round
  obtain ⟨second, hreplacement, hsecond⟩ :=
    dispatch_asks stream request ⟨slot, true⟩ (stream.dispatch request ⟨slot, false⟩ round).2
  rw [fetchSlot, hrequest]
  dsimp only
  cases hsent : (stream.dispatch request ⟨slot, false⟩ round).1 with
  | true => exact ⟨first, .source (hsent ▸ hsource), hfirst⟩
  | false =>
    rw [hsent] at hsource
    rw [if_neg Bool.false_ne_true]
    cases hresent : (stream.dispatch request ⟨slot, true⟩
        (stream.dispatch request ⟨slot, false⟩ round).2).1 with
    | true =>
      rw [hresent] at hreplacement
      exact ⟨_, .replacement hsource hreplacement, hfirst.trans hsecond⟩
    | false =>
      rw [hresent] at hreplacement
      rw [if_neg Bool.false_ne_true]
      exact ⟨_, .nothing hsource hreplacement,
        (hfirst.trans hsecond).trans (giveUp_advances stream slot request .notDispatched _)⟩

/-- What is done about slots, one after the other.  There is nothing to be done about one
without a request. -/
inductive FetchesAll (stream : Stream) (document : Page.Document) :
    List Nat → List Effect → Prop where
  | nil : FetchesAll stream document [] []
  | without {slot : Nat} {rest : List Nat} {effects : List Effect}
      (hrequest : document.request? slot = none) (h : FetchesAll stream document rest effects) :
      FetchesAll stream document (slot :: rest) effects
  | slot {slot : Nat} {rest : List Nat} {request : Include.Request} {effects more : List Effect}
      (hrequest : document.request? slot = some request)
      (hslot : Fetches stream request slot effects)
      (h : FetchesAll stream document rest more) :
      FetchesAll stream document (slot :: rest) (effects ++ more)

theorem foldl_fetchSlot (stream : Stream) (slots : List Nat) (round : Round) :
    ∃ effects, FetchesAll stream round.assembly.document slots effects ∧
      round.Advances (slots.foldl stream.fetchSlot round) effects := by
  induction slots generalizing round with
  | nil => exact ⟨[], .nil, .refl round⟩
  | cons slot rest ih =>
    rw [List.foldl_cons]
    cases hrequest : round.assembly.request? slot with
    | none =>
      have hsame : stream.fetchSlot round slot = round := by rw [fetchSlot, hrequest]
      obtain ⟨effects, hrest, hadvances⟩ := ih round
      rw [hsame]
      exact ⟨effects, .without hrequest hrest, hadvances⟩
    | some request =>
      obtain ⟨effects, hslot, hfirst⟩ := fetchSlot_fetches stream hrequest
      obtain ⟨more, hrest, hadvances⟩ := ih (stream.fetchSlot round slot)
      rw [hfirst.document_eq] at hrest
      exact ⟨effects ++ more, .slot hrequest hslot hrest, hfirst.trans hadvances⟩

/-! ## A fetch that failed -/

/-- What is recorded when the replacement is tried. -/
def failover (slot : Nat) (request : Include.Request) (failure : Failure) : Effect :=
  .records (some slot) { kind := .includeFailover, src := request.src, reason := failure.text }

/-- What is done about a fetch that failed: its replacement is asked for if there is one and it
was not the one that failed, and otherwise, or if that is of no use, the fragment is given up. -/
inductive Recovers (stream : Stream) (request : Include.Request) (fetch : Fetch)
    (failure : Failure) : List Effect → Prop where
  | final (h : fetch.viaAlt || request.alt.isNone) :
      Recovers stream request fetch failure (stream.farewell fetch.slot request failure)
  | replacement {effects : List Effect} (hfirst : fetch.viaAlt = false)
      (h : Asks stream request ⟨fetch.slot, true⟩ true effects) :
      Recovers stream request fetch failure (failover fetch.slot request failure :: effects)
  | nothing {effects : List Effect} (hfirst : fetch.viaAlt = false)
      (h : Asks stream request ⟨fetch.slot, true⟩ false effects) :
      Recovers stream request fetch failure
        (failover fetch.slot request failure ::
          (effects ++ stream.farewell fetch.slot request failure))

theorem recover_recovers (stream : Stream) {round : Round} (failure : Failure)
    (hrequest : round.assembly.request? fetch.slot = some request) :
    ∃ effects, Recovers stream request fetch failure effects ∧
      round.Advances (stream.recover fetch failure round) effects := by
  rw [recover, hrequest]
  dsimp only
  by_cases hfinal : fetch.viaAlt || request.alt.isNone
  · rw [if_pos hfinal]
    exact ⟨_, .final hfinal, giveUp_advances stream fetch.slot request failure round⟩
  · have hfirst : fetch.viaAlt = false := by
      rw [Bool.not_eq_true, Bool.or_eq_false_iff] at hfinal
      exact hfinal.1
    rw [if_neg hfinal]
    have htold := Round.Advances.also round (failover fetch.slot request failure) rfl
    obtain ⟨effects, hasks, hasked⟩ := dispatch_asks stream request ⟨fetch.slot, true⟩
      (round.also (failover fetch.slot request failure))
    rw [← failover]
    cases hsent : (stream.dispatch request ⟨fetch.slot, true⟩
        (round.also (failover fetch.slot request failure))).1 with
    | true =>
      rw [hsent] at hasks
      exact ⟨_, .replacement hfirst hasks, htold.trans hasked⟩
    | false =>
      rw [hsent] at hasks
      rw [if_neg Bool.false_ne_true]
      exact ⟨_, .nothing hfirst hasks,
        htold.trans (hasked.trans (giveUp_advances stream fetch.slot request failure _))⟩

/-! ## An answer -/

/-- What is done about the answer to a fetch, and what is left of the assembly then, which does
not track the fetch any more. -/
inductive Answers (stream : Stream) (assembly : Assembly) (fetch : Fetch) (status : Option String)
    (fragment : Bytes) : List Effect → Assembly → Prop where
  | success (h : Ledger.isSuccess status) :
      Answers stream assembly fetch status fragment [] (assembly.fill fetch.slot fragment)
  | without (h : Ledger.isSuccess status = false) (hrequest : assembly.request? fetch.slot = none) :
      Answers stream assembly fetch status fragment [] assembly
  | failure {request : Include.Request} {failure : Failure} {effects : List Effect}
      (h : Ledger.isSuccess status = false)
      (hrequest : assembly.request? fetch.slot = some request)
      (hrecovers : Recovers stream request fetch failure effects) :
      Answers stream assembly fetch status fragment effects (assembly.followAll effects)

theorem recover_answers {round : Round} {status : Option String} (failure : Failure)
    (fragment : Bytes) (h : Ledger.isSuccess status = false) :
    ∃ effects,
      Answers stream round.assembly fetch status fragment effects
          (stream.recover fetch failure round).assembly ∧
        (stream.recover fetch failure round).effects = round.effects ++ effects := by
  cases hrequest : round.assembly.request? fetch.slot with
  | none =>
    have hsame : stream.recover fetch failure round = round := by rw [recover, hrequest]
    rw [hsame]
    exact ⟨[], .without h hrequest, (List.append_nil round.effects).symm⟩
  | some request =>
    obtain ⟨effects, hrecovers, hadvances⟩ :=
      recover_recovers stream failure hrequest
    rw [hadvances.assembly_eq]
    exact ⟨effects, .failure h hrequest hrecovers, hadvances.effects_eq⟩

theorem useAnswer_answers (stream : Stream) (fetch : Fetch) (status : Option String)
    (fragment : Bytes) (round : Round) :
    ∃ effects,
      Answers stream round.assembly fetch status fragment effects
          (stream.useAnswer fetch status fragment round).assembly ∧
        (stream.useAnswer fetch status fragment round).effects = round.effects ++ effects := by
  have hseen := Ledger.isSuccess_eq_any status
  rw [useAnswer]
  cases hstatus : statusOf? status with
  | none =>
    rw [hstatus, Option.any_none] at hseen
    exact recover_answers .noResponse fragment hseen
  | some code =>
    rw [hstatus, Option.any_some] at hseen
    dsimp only
    by_cases hcode : isSuccess code
    · rw [if_pos hcode]
      exact ⟨[], .success (hseen.trans hcode), (List.append_nil round.effects).symm⟩
    · rw [if_neg hcode]
      exact recover_answers (.status code) fragment (hseen.trans (Bool.eq_false_iff.mpr hcode))

end Stream
end Response
end EdgeIncludes
