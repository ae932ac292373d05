/-
The discipline of fetches.

Whatever the page, the addresses of its includes, and the order of the answers: every slot of a
document that is completed is asked for once at its source and once at its replacement at most,
the replacement only when the source is of no use, and when the page is put in its place every
slot is filled or has had its failure recorded once (`Stream.discipline`).  The host has to keep
the tokens of the fetches on their way apart, and that is all it has to do.
-/
import EdgeIncludes.Proofs.Response.Course

namespace EdgeIncludes
namespace Response

/-! ## Being seen to -/

/-- The moment comes in the step, when the ledger stands as given. -/
def Happens (history : List Step) (step : Step) (ledger : Ledger) (moment : Moment) : Prop :=
  ∃ earlier later front back, history = earlier ++ step :: later ∧
    step.moments = front ++ moment :: back ∧ (ledgerOf earlier).noteAll front = ledger

/-- How the slots of a document are seen to, from the step that completes it on. -/
structure Discipline (document : Page.Document) (history : List Step) : Prop where
  /-- For each slot its source is asked for once at most, and so is its replacement. -/
  asked_once : (ledgerOf history).asked.Nodup
  /-- At every moment there is at most one fetch on its way for a slot, and at most one
  fragment. -/
  one_at_a_time : ∀ front back, moments history = front ++ back → ∀ slot,
    ((Ledger.noteAll {} front).account slot).flying.length ≤ 1 ∧
      ((Ledger.noteAll {} front).account slot).filled ≤ 1
  /-- Only slots of the document are asked for, and the replacement of one only when its source
  is of no use. -/
  asks : ∀ step ledger request reply, Happens history step ledger (.did (.asks request reply)) →
    ∃ included, AsksFor document step.before.target? ledger request included
  /-- The failures that are recorded are those of slots of the document. -/
  fails : ∀ step ledger slot record,
    Happens history step ledger (.did (.records (some slot) record)) →
      record.kind = .includeFailed → slot ∈ document.pending ∧
        ∃ included, document.request? slot = some included ∧ record.src = some included.src
  /-- No failure is recorded but of a slot. -/
  fails_of_slot : ∀ step ledger record,
    Happens history step ledger (.did (.records none record)) → record.kind ≠ .includeFailed
  /-- When the page is put in its place, every slot is filled and has no failure recorded, or it
  is not filled and has one. -/
  settled : ∀ step ledger size page,
    Happens history step ledger (.did (.replacesBody size page)) →
      ∀ slot ∈ document.pending, (ledger.account slot).IsSettled
  /-- As many includes are recorded as there are filled slots. -/
  counted : ∀ step ledger record, Happens history step ledger (.did (.records none record)) →
    record.kind = .documentAssembled → record.includes = some (ledger.filledOf document)

/-! ## Whole runs -/

namespace Stream

theorem intake_assemble (stream : Stream) (document : Page.Document) (size : Nat)
    (replies : Replies) :
    (stream.assemble document size replies).stream.intake = stream.intake := by
  rw [assemble]
  split <;> rfl

/-- A body that is still taken in after a chunk is what took in the chunk. -/
theorem intake_body {stream : Stream} {intake : Page.Intake} (h : stream.intake = some intake)
    (size : Nat) (read : Reading) (last : Bool) (replies : Replies) {after : Page.Intake}
    (hafter : (stream.body size read last replies).stream.intake = some after) :
    after = (intake.take (stream.unseen size read) last).intake := by
  rw [body, h] at hafter
  dsimp only at hafter
  generalize intake.take (stream.unseen size read) last = taken at hafter ⊢
  split at hafter
  · dsimp only at hafter
    rw [intake_assemble] at hafter
    cases hafter
  · cases hafter
  · exact (Option.some.inj hafter).symm
  · exact (Option.some.inj hafter).symm

theorem intake_answered (stream : Stream) (token : Nat) (status : Option String)
    (fragment : Bytes) (replies : Replies) :
    (stream.answered token status fragment replies).stream.intake = stream.intake := by
  rw [answered]
  split
  · rfl
  · split
    · rfl
    · dsimp only
      split <;> rfl

end Stream

/-- What the stream takes in, if it does, is built by a builder that came about. -/
def Stream.Builds (stream : Stream) : Prop :=
  ∀ intake, stream.intake = some intake → intake.builder.Arises

namespace Stream.Builds

variable {stream : Stream}

theorem fresh (number : Nat) (settings : Settings) : (Stream.fresh number settings).Builds := by
  intro intake hintake
  cases hintake

theorem turn (h : stream.Builds) (call : Call) : (stream.turn call).stream.Builds := by
  cases call with
  | requestHeaders headers => exact h
  | responseHeaders headers =>
    show (stream.responseHeaders headers).stream.Builds
    rw [responseHeaders]
    split
    · exact h
    · rintro intake hintake
      cases hintake
      exact .fresh _ _
  | body size read last replies =>
    show (stream.body size read last replies).stream.Builds
    cases hintake : stream.intake with
    | none =>
      rw [body, hintake]
      exact h
    | some intake =>
      intro after hafter
      rw [intake_body hintake size read last replies hafter]
      exact Page.Intake.arises_take (h intake hintake) _ last
  | answered token status fragment replies =>
    show (stream.answered token status fragment replies).stream.Builds
    rw [Builds, intake_answered]
    exact h
  | finished => exact h

end Stream.Builds

/-- The documents that the steps complete. -/
def documents (steps : List Step) : List Page.Document :=
  steps.filterMap Step.document?

theorem documents_snoc (earlier : List Step) (step : Step) :
    documents (earlier ++ [step]) = documents earlier ++ step.document?.toList := by
  rw [documents, List.filterMap_append]
  cases hdocument : step.document? <;> simp [documents, hdocument]

/-- How far the stream has come with its only document. -/
structure Comes (document : Page.Document) (earlier : List Step) (stream : Stream) : Prop where
  builds : stream.Builds
  begins : documents earlier = [] → ledgerOf earlier = {} ∧ stream.assembly = none
  attends : documents earlier ≠ [] → documents earlier = [document] ∧
    (∀ slot ∈ document.pending, (document.request? slot).isSome) ∧
    Attends document (ledgerOf earlier) stream

/-- What is given of the step: it completes no document but one, and the host keeps the tokens
apart. -/
def Given (document : Page.Document) (earlier : List Step) (step : Step) : Prop :=
  documents (earlier ++ [step]) <+: [document] ∧ Follows Fresh (ledgerOf earlier) step.moments

/-- If the step completes a document, it is the first to do so, and the document is the one. -/
theorem Given.first {document other : Page.Document} {earlier : List Step} {step : Step}
    (h : Given document earlier step) (hdocument : step.document? = some other) :
    documents earlier = [] ∧ other = document := by
  have honly := h.1
  rw [documents_snoc, hdocument, Option.toList_some] at honly
  have hlength := honly.length_le
  rw [List.length_append, List.length_singleton, List.length_singleton] at hlength
  have hempty : documents earlier = [] := List.eq_nil_of_length_eq_zero (by omega)
  rw [hempty, List.nil_append] at honly
  exact ⟨hempty, List.cons_prefix_cons.mp honly |>.1⟩

/-- What is given of each step, given the same of the whole history. -/
theorem Given.of_history {document : Page.Document} {history front back : List Step} {step : Step}
    (honly : documents history = [document]) (hfresh : Follows Fresh {} (moments history))
    (hsplit : history = front ++ step :: back) : Given document ([] ++ front) step := by
  rw [hsplit, List.append_cons] at honly hfresh
  refine ⟨⟨documents back, ?_⟩, ?_⟩
  · rw [← honly]
    exact List.filterMap_append.symm
  · rw [moments_append, follows_append, moments_append, follows_append,
      moments_singleton] at hfresh
    exact hfresh.1.2

/-- What happens in the step is as it should be. -/
def Conducts (document : Page.Document) (earlier : List Step) (step : Step) : Prop :=
  Follows (Proper document step.before.target?) (ledgerOf earlier) step.moments

namespace Comes

variable {document : Page.Document} {earlier : List Step} {stream : Stream} {call : Stream.Call}

theorem fresh (document : Page.Document) (number : Nat) (settings : Settings) :
    Comes document [] (Stream.fresh number settings) :=
  ⟨Stream.Builds.fresh number settings, fun _ => ⟨rfl, rfl⟩, fun hne => absurd rfl hne⟩

/-- The document that a stream completes has a request for each of its slots. -/
theorem requests (h : Comes document earlier stream)
    (hdocument : Step.document? ⟨stream, call⟩ = some document) :
    ∀ slot ∈ document.pending, (document.request? slot).isSome := by
  obtain ⟨size, read, last, replies, intake, -, hintake, hcomplete⟩ :=
    Step.document?_eq_some hdocument
  exact fun slot hslot =>
    Page.Intake.isSome_request?_of_complete (h.builds intake hintake) hcomplete hslot

theorem step_of_none (h : Comes document earlier stream)
    (hgiven : Given document earlier ⟨stream, call⟩)
    (hdocument : Step.document? ⟨stream, call⟩ = none) :
    Conducts document earlier ⟨stream, call⟩ ∧
      Comes document (earlier ++ [⟨stream, call⟩]) (stream.turn call).stream := by
  have hdocuments : documents (earlier ++ [⟨stream, call⟩]) = documents earlier := by
    rw [documents_snoc, hdocument]
    exact List.append_nil _
  have hcompletes : Step.completes ⟨stream, call⟩ = false := by
    rw [Step.completes, hdocument]
    rfl
  by_cases hempty : documents earlier = []
  · obtain ⟨hledger, hassembly⟩ := h.begins hempty
    have hanswers : Step.answers ⟨stream, call⟩ {} = false := by cases call <;> rfl
    obtain ⟨hcalled, haside, hsame⟩ := Step.aside hcompletes hanswers fun assembly hbefore => by
      rw [hassembly] at hbefore
      cases hbefore
    obtain ⟨hproper, hnote⟩ := Step.follows_of_aside hcalled haside document
    rw [Conducts, hledger]
    refine ⟨hproper, h.builds.turn call, fun _ => ⟨?_, hsame.trans hassembly⟩, fun hne => ?_⟩
    · rw [ledgerOf_snoc, hledger, hnote]
    · exact absurd (hdocuments.trans hempty) hne
  · obtain ⟨honly, hrequests, hattends⟩ := h.attends hempty
    obtain ⟨hproper, hkept⟩ := hattends.goesOn hrequests hcompletes hgiven.2
    rw [← ledgerOf_snoc] at hkept
    refine ⟨hproper, h.builds.turn call, fun hnone => ?_, fun _ => ?_⟩
    · exact absurd (hdocuments.symm.trans hnone) hempty
    · exact ⟨hdocuments.trans honly, hrequests, hkept⟩

theorem step (h : Comes document earlier stream) (hgiven : Given document earlier ⟨stream, call⟩) :
    Conducts document earlier ⟨stream, call⟩ ∧
      Comes document (earlier ++ [⟨stream, call⟩]) (stream.turn call).stream := by
  cases hdocument : Step.document? ⟨stream, call⟩ with
  | none => exact h.step_of_none hgiven hdocument
  | some other =>
    obtain ⟨hempty, rfl⟩ := hgiven.first hdocument
    have hfresh := hgiven.2
    obtain ⟨hledger, hassembly⟩ := h.begins hempty
    rw [hledger] at hfresh
    have hrequests := h.requests hdocument
    obtain ⟨hproper, hattends⟩ := Attends.begins hdocument hassembly hrequests hfresh
    have hdocuments : documents (earlier ++ [⟨stream, call⟩]) = [other] := by
      rw [documents_snoc, hempty, hdocument]
      rfl
    rw [Conducts, hledger]
    refine ⟨hproper, h.builds.turn call, fun hnone => ?_, fun _ => ⟨hdocuments, hrequests, ?_⟩⟩
    · rw [hdocuments] at hnone
      cases hnone
    · rw [ledgerOf_snoc, hledger]
      exact hattends

end Comes

/-! ## The discipline -/

/-- Moments that are proper step by step are proper one after the other. -/
theorem follows_moments {Admitted : Ledger → Moment → Prop} {ledger : Ledger} {steps : List Step}
    (h : ∀ front step back, steps = front ++ step :: back →
      Follows Admitted (ledger.noteAll (moments front)) step.moments) :
    Follows Admitted ledger (moments steps) := by
  induction steps generalizing ledger with
  | nil => trivial
  | cons step rest ih =>
    refine follows_append.mpr ⟨h [] step rest rfl, ih fun front later back hsplit => ?_⟩
    rw [← Ledger.noteAll_append]
    exact h (step :: front) later back (congrArg (step :: ·) hsplit)

theorem discipline_of_conducts {document : Page.Document} {history : List Step}
    (h : ∀ front step back, history = front ++ step :: back → Conducts document front step)
    (hfresh : Follows Fresh {} (moments history)) : Discipline document history := by
  have hadmits : Follows Admits {} (moments history) :=
    follows_moments fun front step back hsplit =>
      (h front step back hsplit).imp fun _ _ => Proper.admits
  have hhappens : ∀ {step ledger moment}, Happens history step ledger moment →
      Proper document step.before.target? ledger moment := by
    rintro step ledger moment ⟨earlier, later, front, back, hsplit, hmoments, rfl⟩
    exact follows_iff.mp (h earlier step later hsplit) front moment back hmoments
  refine ⟨(Ledger.Balanced.new.noteAll hfresh hadmits).nodup_asked,
    fun front back hsplit slot => ?_, fun _ _ _ _ hasks => (hhappens hasks).2,
    fun _ _ _ _ hfails hkind => (hhappens hfails hkind).2,
    fun _ _ _ hrecords => (hhappens hrecords).1, fun _ _ _ _ hwrites => hhappens hwrites,
    fun _ _ _ hcounts => (hhappens hcounts).2⟩
  rw [hsplit, follows_append] at hfresh hadmits
  have htally := ((Ledger.Balanced.new.noteAll hfresh.1 hadmits.1).accounts slot).tally_le
  rw [Account.tally] at htally
  omega

/-- A host that keeps its order has a stream complete one document at most. -/
theorem length_documents_le (number : Nat) (settings : Settings) {calls : List Stream.Call}
    (h : InOrder calls) :
    (documents ((Stream.fresh number settings).steps calls)).length ≤ 1 := by
  have hkeeps : ∀ {earlier : List Step} {stream : Stream} {stage next : Stage}
      {call : Stream.Call}, (documents earlier).length ≤ (if stage = .ended then 1 else 0) →
        stage.next? call = some next → True ∧
          (documents (earlier ++ [⟨stream, call⟩])).length ≤ if next = .ended then 1 else 0 := by
    intro earlier stream stage next call hcount hnext
    refine ⟨trivial, ?_⟩
    rw [documents_snoc, List.length_append]
    cases hdocument : Step.document? ⟨stream, call⟩ with
    | none =>
      refine Nat.le_trans hcount ?_
      cases stage with
      | ended => cases call <;> cases hnext <;> exact Nat.le_refl 1
      | _ => exact Nat.zero_le _
    | some document =>
      -- only the last part of a body completes a document, and after it the body is over
      obtain ⟨size, read, last, replies, intake, rfl, -, hcomplete⟩ :=
        Step.document?_eq_some hdocument
      obtain ⟨reason, hskip⟩ | ⟨rfl, -⟩ | ⟨rfl, hmore⟩ :=
        intake.take_cases (stream.unseen size read) last
      · exact absurd (hskip.symm.trans hcomplete) (by simp)
      · cases stage <;> cases hnext
        exact Nat.succ_le_succ hcount
      · exact absurd (hmore.symm.trans hcomplete) (by simp)
  obtain ⟨⟨last, hlast⟩, -⟩ := Stream.steps_induction_of_inOrder
    (fun earlier _ stage => (documents earlier).length ≤ if stage = .ended then 1 else 0)
    (fun _ _ => True) hkeeps (Nat.zero_le _) h
  exact Nat.le_trans hlast (by split <;> decide)

/-- A stream that completes one document sees to its slots with discipline, if the host gives no
token twice before it was answered. -/
theorem Stream.discipline (number : Nat) (settings : Settings) {calls : List Stream.Call}
    {document : Page.Document}
    (honly : documents ((Stream.fresh number settings).steps calls) = [document])
    (hfresh : Follows Fresh {} (moments ((Stream.fresh number settings).steps calls))) :
    Discipline document ((Stream.fresh number settings).steps calls) := by
  have hgiven : ∀ front step back, (Stream.fresh number settings).steps calls =
      front ++ step :: back → Given document ([] ++ front) step :=
    fun _ _ _ => .of_history honly hfresh
  exact discipline_of_conducts
    (Stream.steps_induction (Comes document) (Given document) (Conducts document) Comes.step
      (.fresh document number settings) hgiven).2 hfresh

/-- The source of a fragment is not found, and its replacement is. -/
theorem discipline_of_failover :
    let page := Ascii.lessThan :: Tag.inclusion.name ++
      [0x20, 0x73, 0x72, 0x63, 0x3D, 0x22, 0x2F, 0x22, 0x20, 0x61, 0x6C, 0x74, 0x3D, 0x22, 0x2F,
        0x62, 0x22, 0x2F, Ascii.greaterThan]
    let document : Page.Document := ⟨[.slot 0], [{ src := "/", alt := some "/b" }]⟩
    let replies : Replies := fun place => .accepted (place + 1)
    let calls := [.requestHeaders [(":authority", "host"), (":path", "/")],
      .responseHeaders [("content-type", "text/html")],
      .body page.length (fun start length => (page.drop start).take length) true replies,
      .answered 1 (some "404") [] replies, .answered 1 (some "200") [0x62] replies]
    let history := (Stream.fresh 2 {}).steps calls
    documents history = [document] ∧ Follows Fresh {} (moments history) ∧
      Discipline document history ∧ (ledgerOf history).asked = [⟨0, true⟩, ⟨0, false⟩] ∧
      (ledgerOf history).filled = [0] := by
  intro page document replies calls history
  have honly : documents history = [document] := by decide +kernel
  have hfresh : Follows Fresh {} (moments history) := by decide +kernel
  exact ⟨honly, hfresh, Stream.discipline 2 {} honly hfresh, by decide +kernel, by decide +kernel⟩

end Response
end EdgeIncludes
