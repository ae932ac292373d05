/-
The life of a response.

Every call in the host's order leads from a phase to a phase, by the rules (`stands_step`), so
everything that can be seen of a stream whose host keeps its order is by the rules.
-/
import EdgeIncludes.Proofs.Response.Phases

namespace EdgeIncludes
namespace Response

/-! ## Every call in order -/

theorem building_isQuiet (notices : List Page.Notice) :
    ∀ effect ∈ notices.map Effect.building, effect.isQuiet :=
  List.forall_mem_map.mpr fun _ _ => rfl

namespace Stands

variable {earlier : List Step} {stream : Stream} {stage next : Stage} {phase : Phase}

/-- A call that leaves the stream as it is, in a phase in which that can happen. -/
theorem idle {step : Step} (h : Stands earlier step.before stage phase)
    (hallowed : phase.allows next) (hanswers : step.answers (ledgerOf earlier) = false)
    (hintake : step.turn.stream.intake = step.before.intake)
    (hassembly : step.turn.stream.assembly = step.before.assembly)
    (haction : step.turn.action = .proceed)
    (hquiet : ∀ effect ∈ step.turn.effects, effect.isQuiet ∧ effect.touches = false)
    (hdecision : step.decision? = none) (hpasses : step.passesOver = false)
    (hbody : step.isBody → phase = .passed ∨ phase.isReleased) :
    Ruled earlier step ∧ ∃ phase, Stands (earlier ++ [step]) step.turn.stream next phase := by
  have hleads : step.LeadsQuietly phase phase :=
    { intake := hintake ▸ h.intake
      assembly := hassembly
      quiet := fun effect hmem => (hquiet effect hmem).1
      completes := by rw [Step.completes, Step.document?, hdecision]; rfl
      waiting := Iff.rfl
      written := Iff.rfl
      passed := by rw [hpasses, Bool.or_false]
      released := by rw [Step.givesUp, hdecision]; exact Bool.or_false _
      proceeds := fun hstep => iff_of_true haction (hbody hstep)
      untouched := fun hphase => ⟨hphase, haction, fun effect hmem => (hquiet effect hmem).2⟩ }
  exact (h.quiet hleads hallowed hanswers).imp_right fun hstands => ⟨phase, hstands⟩

theorem requestHeaders (h : Stands earlier stream .beginning phase) (headers : Headers) :
    Ruled earlier ⟨stream, .requestHeaders headers⟩ ∧
      ∃ phase, Stands (earlier ++ [⟨stream, .requestHeaders headers⟩])
        (stream.turn (.requestHeaders headers)).stream .requested phase := by
  obtain rfl : phase = .before := by
    have hallowed := h.allowed
    cases phase <;> first | rfl | cases hallowed
  have hquiet : ∀ effect ∈ (stream.requestHeaders headers).effects,
      effect.isQuiet ∧ effect.touches = false :=
    List.forall_mem_singleton.mpr ⟨rfl, rfl⟩
  exact h.idle rfl rfl rfl rfl rfl hquiet rfl rfl nofun

theorem responseHeaders (h : Stands earlier stream .requested phase) (headers : Headers) :
    Ruled earlier ⟨stream, .responseHeaders headers⟩ ∧
      ∃ phase, Stands (earlier ++ [⟨stream, .responseHeaders headers⟩])
        (stream.turn (.responseHeaders headers)).stream .inBody phase := by
  obtain rfl : phase = .before := by
    have hallowed := h.allowed
    cases phase <;> first | rfl | cases hallowed
  have hturn : Step.turn ⟨stream, .responseHeaders headers⟩ = stream.responseHeaders headers := rfl
  have hpasses : Step.passesOver ⟨stream, .responseHeaders headers⟩ =
      (skip? stream.settings stream.depth (header? "content-type" headers)
        (header? "content-length" headers)).isSome := rfl
  rw [Stream.responseHeaders] at hturn
  cases hskip : skip? stream.settings stream.depth (header? "content-type" headers)
      (header? "content-length" headers) with
  | some reason =>
    rw [hskip] at hturn hpasses
    have hquiet : ∀ effect ∈ (Step.turn ⟨stream, .responseHeaders headers⟩).effects,
        effect.isQuiet ∧ effect.touches = false := by
      rw [hturn]
      refine List.forall_mem_cons.mpr ⟨⟨rfl, rfl⟩, ?_⟩
      split
      · exact List.forall_mem_singleton.mpr ⟨rfl, rfl⟩
      · exact List.forall_mem_nil _
    have hleads : Step.LeadsQuietly ⟨stream, .responseHeaders headers⟩ .before .passed :=
      { intake := by rw [hturn]; exact h.intake
        assembly := by rw [hturn]
        quiet := fun effect hmem => (hquiet effect hmem).1
        completes := rfl
        waiting := by decide
        written := by decide
        passed := by rw [hpasses]; rfl
        released := rfl
        proceeds := nofun
        untouched := fun _ => ⟨rfl, by rw [hturn], fun effect hmem => (hquiet effect hmem).2⟩ }
    exact (h.quiet hleads rfl rfl).imp_right fun hstands => ⟨.passed, hstands⟩
  | none =>
    rw [hskip] at hturn hpasses
    have hleads : Step.LeadsQuietly ⟨stream, .responseHeaders headers⟩ .before .taking :=
      { intake := by rw [hturn]; rfl
        assembly := by rw [hturn]
        quiet := by rw [hturn]; exact List.forall_mem_singleton.mpr rfl
        completes := rfl
        waiting := by decide
        written := by decide
        passed := by rw [hpasses]; rfl
        released := rfl
        proceeds := nofun
        untouched := nofun }
    exact (h.quiet hleads rfl rfl).imp_right fun hstands => ⟨.taking, hstands⟩

/-- A chunk of a body that is not, or not any more, taken in. -/
theorem body_of_none (h : Stands earlier stream .inBody phase) (hintake : stream.intake = none)
    (size : Nat) (read : Stream.Reading) (last : Bool) (replies : Replies) :
    Ruled earlier ⟨stream, .body size read last replies⟩ ∧
      ∃ phase, Stands (earlier ++ [⟨stream, .body size read last replies⟩])
        (stream.turn (.body size read last replies)).stream (if last then .ended else .inBody)
        phase := by
  have hphase : phase = .passed ∨ phase = .givenUp := by
    have hallowed := h.allowed
    have htaking := h.intake
    rw [hintake] at htaking
    cases phase with
    | passed => exact Or.inl rfl
    | givenUp => exact Or.inr rfl
    | taking => exact absurd htaking (by decide)
    | before | waiting | written => cases hallowed
  have hturn : Step.turn ⟨stream, .body size read last replies⟩ = { stream } := by
    rw [Step.turn, Stream.turn, Stream.body, hintake]
  have hdecision : Step.decision? ⟨stream, .body size read last replies⟩ = none := by
    rw [Step.decision?, hintake]
    rfl
  refine h.idle ?_ rfl ?_ ?_ ?_ ?_ hdecision rfl fun _ => ?_
  · obtain rfl | rfl := hphase <;> cases last <;> rfl
  · rw [hturn]
  · rw [hturn]
  · rw [hturn]
  · rw [hturn]
    exact List.forall_mem_nil _
  · exact hphase.imp_right fun hgivenUp => by rw [hgivenUp]; rfl

section Taking

variable {intake : Page.Intake} {size : Nat} {read : Stream.Reading} {last : Bool}

theorem decision?_body (hintake : stream.intake = some intake) (replies : Replies) :
    Step.decision? ⟨stream, .body size read last replies⟩ =
      (intake.take (stream.unseen size read) last).decision := by
  rw [Step.decision?, hintake]
  rfl

/-- A body that is given up. -/
theorem body_of_skip (h : Stands earlier stream .inBody .taking)
    (hintake : stream.intake = some intake) {reason : Skip}
    (hskip : (intake.take (stream.unseen size read) last).decision = some (.skip reason))
    (hallowed : Phase.givenUp.allows next) (replies : Replies) :
    Ruled earlier ⟨stream, .body size read last replies⟩ ∧
      ∃ phase, Stands (earlier ++ [⟨stream, .body size read last replies⟩])
        (stream.turn (.body size read last replies)).stream next phase := by
  have hdecision := (decision?_body hintake replies).trans hskip
  have hturn : Step.turn ⟨stream, .body size read last replies⟩ =
      stream.body size read last replies := rfl
  rw [Stream.body, hintake] at hturn
  dsimp only at hturn
  rw [hskip] at hturn
  have hleads : Step.LeadsQuietly ⟨stream, .body size read last replies⟩ .taking .givenUp :=
    { intake := by rw [hturn]; rfl
      assembly := by rw [hturn]
      quiet := by
        rw [hturn]
        exact List.forall_mem_append.mpr ⟨building_isQuiet _, List.forall_mem_singleton.mpr rfl⟩
      completes := by rw [Step.completes, Step.document?, hdecision]; rfl
      waiting := by decide
      written := by decide
      passed := rfl
      released := by rw [Step.givesUp, hdecision]; rfl
      proceeds := fun _ => by rw [hturn]; exact iff_of_true rfl (Or.inr rfl)
      untouched := (absurd · Bool.false_ne_true) }
  exact (h.quiet hleads hallowed rfl).imp_right fun hstands => ⟨.givenUp, hstands⟩

/-- A body of which there is more to come. -/
theorem body_of_more (h : Stands earlier stream .inBody .taking)
    (hintake : stream.intake = some intake)
    (hmore : (intake.take (stream.unseen size read) last).decision = some .more)
    (replies : Replies) :
    Ruled earlier ⟨stream, .body size read last replies⟩ ∧
      ∃ phase, Stands (earlier ++ [⟨stream, .body size read last replies⟩])
        (stream.turn (.body size read last replies)).stream .inBody phase := by
  have hdecision := (decision?_body hintake replies).trans hmore
  have hturn : Step.turn ⟨stream, .body size read last replies⟩ =
      stream.body size read last replies := rfl
  rw [Stream.body, hintake] at hturn
  dsimp only at hturn
  rw [hmore] at hturn
  have hleads : Step.LeadsQuietly ⟨stream, .body size read last replies⟩ .taking .taking :=
    { intake := by rw [hturn]; rfl
      assembly := by rw [hturn]
      quiet := by rw [hturn]; exact building_isQuiet _
      completes := by rw [Step.completes, Step.document?, hdecision]; rfl
      waiting := by decide
      written := by decide
      passed := rfl
      released := by rw [Step.givesUp, hdecision]; rfl
      proceeds := fun _ => by rw [hturn]; exact iff_of_false Action.noConfusion (by decide)
      untouched := (absurd · Bool.false_ne_true) }
  exact (h.quiet hleads rfl rfl).imp_right fun hstands => ⟨.taking, hstands⟩

/-- A body that is complete. -/
theorem body_of_complete (h : Stands earlier stream .inBody .taking)
    (hintake : stream.intake = some intake) {document : Page.Document}
    (hcomplete : (intake.take (stream.unseen size read) true).decision = some (.complete document))
    (replies : Replies) :
    Ruled earlier ⟨stream, .body size read true replies⟩ ∧
      ∃ phase, Stands (earlier ++ [⟨stream, .body size read true replies⟩])
        (stream.turn (.body size read true replies)).stream .ended phase := by
  have hdecision := (decision?_body hintake replies).trans hcomplete
  have hassembly : stream.assembly = none := Option.isNone_iff_eq_none.mp
    (Option.isSome_eq_false_iff.mp h.assembly)
  obtain ⟨notices, effects, assembly, hall, hfollow, hbody⟩ :=
    Stream.body_of_complete hintake hcomplete replies
  have hturn : Step.turn ⟨stream, .body size read true replies⟩ =
      stream.body size read true replies := rfl
  rw [hbody] at hturn
  have hsees : Step.SeesTo ⟨stream, .body size read true replies⟩ earlier false
      (notices.map Effect.building ++ effects) assembly := by
    refine
      { answers := rfl
        completes := by rw [Step.completes, Step.document?, hdecision]; rfl
        isBody := rfl
        passesOver := rfl
        givesUp := by rw [Step.givesUp, hdecision]; rfl
        keeps := (keeps_of_quiet (building_isQuiet notices)).append
          (Stream.keeps_of_handles hall.handles)
        tied := ?tied
        intake := ?intake
        done := fun hdone => ?done
        waits := fun hwaits => ?waits }
    case tied =>
      have hanswers : Step.answers ⟨stream, .body size read true replies⟩ (ledgerOf earlier) =
        false := rfl
      rw [List.map_append, ← List.cons_append, Ledger.noteAll_append, hfollow]
      refine Tied.followAll ?_ effects
      rw [Ledger.noteAll, List.foldl_cons, ← Ledger.noteAll,
        inFlight_noteAll_of_quiet (building_isQuiet notices), inFlight_note_called hanswers,
        h.inFlight nofun]
      exact .empty
    case intake =>
      rw [hturn]
      split <;> rfl
    case done =>
      rw [hturn, if_pos hdone]
      exact ⟨hassembly, rfl, rfl⟩
    case waits =>
      rw [Step.endsHeld, hturn, if_neg (Bool.eq_false_iff.mp hwaits)]
      exact ⟨rfl, rfl, fun _ => rfl, _, List.forall_mem_singleton.mpr rfl, rfl⟩
  cases hdone : assembly.isDone with
  | true => exact (h.done hsees hdone).imp_right fun hstands => ⟨.written, hstands⟩
  | false => exact (h.waits hsees hdone).imp_right fun hstands => ⟨.waiting, hstands⟩

/-- A chunk of a body that is being taken in. -/
theorem body_of_some (h : Stands earlier stream .inBody phase)
    (hintake : stream.intake = some intake) (replies : Replies) :
    Ruled earlier ⟨stream, .body size read last replies⟩ ∧
      ∃ phase, Stands (earlier ++ [⟨stream, .body size read last replies⟩])
        (stream.turn (.body size read last replies)).stream (if last then .ended else .inBody)
        phase := by
  obtain rfl : phase = .taking := by
    have htaking := h.intake
    rw [hintake] at htaking
    exact beq_iff_eq.mp htaking.symm
  obtain ⟨reason, hskip⟩ | ⟨rfl, document, hcomplete⟩ | ⟨rfl, hmore⟩ :=
    intake.take_cases (stream.unseen size read) last
  · exact h.body_of_skip hintake hskip (by cases last <;> rfl) replies
  · exact h.body_of_complete hintake hcomplete replies
  · exact h.body_of_more hintake hmore replies

end Taking

theorem answered (h : Stands earlier stream stage phase) (token : Nat) (status : Option String)
    (fragment : Bytes) (replies : Replies) :
    Ruled earlier ⟨stream, .answered token status fragment replies⟩ ∧
      ∃ phase, Stands (earlier ++ [⟨stream, .answered token status fragment replies⟩])
        (stream.turn (.answered token status fragment replies)).stream stage phase := by
  have hturn : Step.turn ⟨stream, .answered token status fragment replies⟩ =
      stream.answered token status fragment replies := rfl
  have hanswers : Step.answers ⟨stream, .answered token status fragment replies⟩
      (ledgerOf earlier) = ((ledgerOf earlier).inFlight.lookup token).isSome := rfl
  cases hlookup : (ledgerOf earlier).inFlight.lookup token with
  | none =>
    rw [hlookup] at hanswers
    rw [Stream.answered_of_stray fun assembly hassembly =>
      (h.tied assembly hassembly token).trans hlookup] at hturn
    refine h.idle h.allowed hanswers ?_ ?_ ?_ ?_ rfl rfl (absurd · Bool.false_ne_true)
    · rw [hturn]
    · rw [hturn]
    · rw [hturn]
    · rw [hturn]
      exact List.forall_mem_nil _
  | some fetch =>
    rw [hlookup] at hanswers
    obtain rfl : phase = .waiting := by
      refine Decidable.byContradiction fun hne => ?_
      rw [h.inFlight hne] at hlookup
      cases hlookup
    obtain rfl : stage = .ended := by
      have hallowed := h.allowed
      cases stage <;> first | rfl | cases hallowed
    obtain ⟨assembly, hassembly⟩ := Option.isSome_iff_exists.mp (h.assembly.trans rfl)
    have htied := h.tied assembly hassembly
    obtain ⟨effects, after, hafter, heq⟩ := Stream.answered_eq hassembly
      ((htied token).trans hlookup) status fragment replies
    rw [heq] at hturn
    have hintake : stream.intake = none := Option.isNone_iff_eq_none.mp
      (Option.isSome_eq_false_iff.mp h.intake)
    have hsees : Step.SeesTo ⟨stream, .answered token status fragment replies⟩ earlier true
        effects after := by
      refine
        { answers := hanswers
          completes := rfl
          isBody := rfl
          passesOver := rfl
          givesUp := rfl
          keeps := Stream.keeps_of_handles hafter.handles
          tied := ?tied
          intake := ?intake
          done := fun hdone => ?done
          waits := fun hwaits => ?waits }
      case tied =>
        refine hafter.tied ?_
        rw [Ledger.note, Ledger.inFlight_answer hlookup]
        exact htied.settle token
      case intake =>
        rw [hturn]
        split <;> exact hintake
      case done =>
        rw [hturn, if_pos hdone]
        exact ⟨rfl, rfl, List.append_assoc _ _ _⟩
      case waits =>
        rw [hturn, if_neg (Bool.eq_false_iff.mp hwaits)]
        exact ⟨rfl, rfl, (absurd ·.symm Bool.false_ne_true), [], List.forall_mem_nil _,
          (List.append_nil effects).symm⟩
    cases hdone : after.isDone with
    | true => exact (h.done hsees hdone).imp_right fun hstands => ⟨.written, hstands⟩
    | false => exact (h.waits hsees hdone).imp_right fun hstands => ⟨.waiting, hstands⟩

theorem finished (h : Stands earlier stream stage phase) :
    Ruled earlier ⟨stream, .finished⟩ ∧
      ∃ phase, Stands (earlier ++ [⟨stream, .finished⟩]) (stream.turn .finished).stream stage
        phase := by
  have hquiet : ∀ effect ∈ stream.finished.effects, effect.isQuiet ∧ effect.touches = false :=
    List.forall_mem_singleton.mpr ⟨rfl, rfl⟩
  exact h.idle h.allowed rfl rfl rfl rfl hquiet rfl rfl nofun

end Stands

/-- Every call in order leads from a phase to a phase, by the rules. -/
theorem stands_step {earlier : List Step} {stream : Stream} {stage next : Stage}
    {call : Stream.Call} (h : ∃ phase, Stands earlier stream stage phase)
    (hnext : stage.next? call = some next) :
    Ruled earlier ⟨stream, call⟩ ∧
      ∃ phase, Stands (earlier ++ [⟨stream, call⟩]) (stream.turn call).stream next phase := by
  obtain ⟨phase, h⟩ := h
  cases call with
  | requestHeaders headers =>
    cases stage <;> cases hnext
    exact h.requestHeaders headers
  | responseHeaders headers =>
    cases stage <;> cases hnext
    exact h.responseHeaders headers
  | body size read last replies =>
    cases stage <;> cases hnext
    cases hintake : stream.intake with
    | none => exact h.body_of_none hintake size read last replies
    | some intake => exact h.body_of_some hintake replies
  | answered token status fragment replies =>
    cases stage <;> cases hnext <;> exact h.answered token status fragment replies
  | finished =>
    cases stage <;> cases hnext <;> exact h.finished

/-- What can be seen of a stream whose host keeps its order. -/
theorem Stream.lifecycle (number : Nat) (settings : Settings) {calls : List Stream.Call}
    (h : InOrder calls) : Lifecycle ((Stream.fresh number settings).steps calls) := by
  have hfresh : Stands [] (Stream.fresh number settings) .beginning .before :=
    ⟨rfl, rfl, rfl, nofun, fun _ => rfl, rfl, rfl, nofun, rfl, Nat.le_refl 0,
      fun _ => List.forall_mem_nil _, trivial⟩
  obtain ⟨⟨last, phase, hstands⟩, hruled⟩ := Stream.steps_induction_of_inOrder
    (fun earlier stream stage => ∃ phase, Stands earlier stream stage phase) Ruled stands_step
    ⟨.before, hfresh⟩ h
  have hwrites :
      (effects ((Stream.fresh number settings).steps calls)).countP Effect.isWrite ≤ 1 := by
    rw [hstands.writes]
    split <;> decide
  refine ⟨hwrites, Nat.le_trans hstands.resumes hwrites, fun front size page back hsplit => ?_,
    hruled, fun hpassed => ?_⟩
  · exact follows_iff.mp hstands.follows front _ back hsplit
  · have hphase : phase = .passed := beq_iff_eq.mp (hstands.passed ▸ hpassed)
    exact hstands.untouched (by rw [hphase]; rfl)

/-- The answer to the fetch that a page waits for, after one that nobody asked for. -/
theorem lifecycle_of_one_fragment :
    let page := Ascii.lessThan :: Tag.inclusion.name ++
      [0x20, 0x73, 0x72, 0x63, 0x3D, 0x22, 0x2F, 0x22, 0x2F, Ascii.greaterThan]
    let read : Stream.Reading := fun start length => (page.drop start).take length
    let replies : Replies := fun place => .accepted (place + 1)
    let calls := [.requestHeaders [(":authority", "host"), (":path", "/")],
      .responseHeaders [("content-type", "text/html")],
      .body 4 read false replies, .body page.length read true replies,
      .answered 9 (some "200") [0x61] replies, .answered 1 (some "200") [0x62] replies, .finished]
    let history := (Stream.fresh 2 {}).steps calls
    InOrder calls ∧ Lifecycle history ∧
      (effects history).filter Effect.isRelease = [.replacesBody page.length [0x62], .resumes] := by
  intro page read replies calls history
  have horder : InOrder calls := ⟨.ended, rfl⟩
  exact ⟨horder, Stream.lifecycle 2 {} horder, by decide +kernel⟩

end Response
end EdgeIncludes
