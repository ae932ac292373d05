/-
How the slots of a document are seen to.

Each of the steps of the grammar of what is done about fragments tends to one slot (`Tends`):
everything in it is proper, given what the ledger says when it happens, and it changes the
account of no other slot.  A slot that nothing was done about, and one whose fetch has failed,
is seen to once when the step is over: a fetch is on its way or a failure is recorded.
-/
import EdgeIncludes.Proofs.Page.Slots
import EdgeIncludes.Proofs.Response.Accounts
import EdgeIncludes.Proofs.Response.Turns

namespace EdgeIncludes
namespace Response

/-! ## What is proper -/

/-- How the addresses of a request are found: that of its source, and that of its
replacement. -/
abbrev Resolution := Include.Request → Bool → Option (Except Include.Refusal Include.Target)

/-- The source of the request is of no use: it names no address, or its fetch was lost. -/
def Unavailable (target? : Resolution) (ledger : Ledger) (slot : Nat)
    (included : Include.Request) : Prop :=
  (∃ refusal, target? included false = some (.error refusal)) ∨ ⟨slot, false⟩ ∈ ledger.lost

/-- The sub-request is for a slot of the document, with the address of its source, or with
that of its replacement when the source is of no use. -/
structure AsksFor (document : Page.Document) (target? : Resolution) (ledger : Ledger)
    (request : SubRequest) (included : Include.Request) : Prop where
  pending : request.fetch.slot ∈ document.pending
  requested : document.request? request.fetch.slot = some included
  address : target? included request.fetch.viaAlt = some (.ok request.target)
  second : request.fetch.viaAlt → Unavailable target? ledger request.fetch.slot included

/-- The slot is filled and did not fail, or failed and is not filled. -/
def Account.IsSettled (account : Account) : Prop :=
  account.filled = 1 ∧ account.failed = 0 ∨ account.filled = 0 ∧ account.failed = 1

/-- How many of the slots of the document are filled. -/
def Ledger.filledOf (ledger : Ledger) (document : Page.Document) : Nat :=
  document.pending.countP fun slot => ledger.filled.contains slot

/-- What happens to the slots of a document is as it should be. -/
def Proper (document : Page.Document) (target? : Resolution) (ledger : Ledger) : Moment → Prop
  | .did (.asks request _) =>
    (ledger.account request.fetch.slot).MayAsk request.fetch.viaAlt ∧
      ∃ included, AsksFor document target? ledger request included
  | .did (.records (some slot) record) => record.kind = .includeFailed →
    (ledger.account slot).tally = 0 ∧ slot ∈ document.pending ∧
      ∃ included, document.request? slot = some included ∧ record.src = some included.src
  | .did (.records none record) => record.kind ≠ .includeFailed ∧
    (record.kind = .documentAssembled → record.includes = some (ledger.filledOf document))
  | .did (.replacesBody ..) => ∀ slot ∈ document.pending, (ledger.account slot).IsSettled
  | _ => True

theorem Proper.admits {document : Page.Document} {target? : Resolution} {ledger : Ledger}
    {moment : Moment} (h : Proper document target? ledger moment) : Admits ledger moment := by
  cases moment with
  | called call => trivial
  | did effect =>
    cases effect with
    | asks request reply => exact h.1
    | records slot record =>
      cases slot with
      | none => trivial
      | some slot => exact fun hkind => (h hkind).1
    | _ => trivial

/-! ## One slot -/

/-- The effects are proper, and leave the account of the slot as given and all others as they
were. -/
structure Tends (document : Page.Document) (target? : Resolution) (ledger : Ledger) (slot : Nat)
    (effects : List Effect) (after : Account) : Prop where
  proper : Follows (Proper document target?) ledger (effects.map .did)
  account : ∀ other, (ledger.noteAll (effects.map .did)).account other =
    if slot = other then after else ledger.account other

namespace Tends

variable {document : Page.Document} {target? : Resolution} {ledger : Ledger} {slot : Nat}
  {front back : List Effect} {middle after : Account}

theorem account_self (h : Tends document target? ledger slot front after) :
    (ledger.noteAll (front.map .did)).account slot = after :=
  (h.account slot).trans (if_pos rfl)

/-- Effects that the ledger does not note and that are always proper. -/
theorem idle (haccount : ledger.account slot = after)
    (hproper : Follows (Proper document target?) ledger (front.map .did))
    (hnote : ledger.noteAll (front.map .did) = ledger) :
    Tends document target? ledger slot front after := by
  refine ⟨hproper, fun other => ?_⟩
  rw [hnote]
  split
  · rename_i hslot
    rw [← hslot, haccount]
  · rfl

theorem append (h : Tends document target? ledger slot front middle)
    (hback : Tends document target? (ledger.noteAll (front.map .did)) slot back after) :
    Tends document target? ledger slot (front ++ back) after := by
  refine ⟨?_, fun other => ?_⟩
  · rw [List.map_append]
    exact follows_append.mpr ⟨h.proper, hback.proper⟩
  · rw [List.map_append, Ledger.noteAll_append, hback.account, h.account]
    split <;> rfl

end Tends

namespace Stream

variable {stream : Stream} {document : Page.Document} {ledger : Ledger} {slot : Nat}
  {included : Include.Request} {viaAlt : Bool} {effects : List Effect}

/-! ## One attempt -/

section Asking

variable (hpending : slot ∈ document.pending) (hrequest : document.request? slot = some included)

include hpending hrequest

/-- What is asked for and on its way. -/
theorem Asks.tends_of_sent (h : Asks stream included ⟨slot, viaAlt⟩ true effects)
    (hmay : (ledger.account slot).MayAsk viaAlt)
    (hsecond : viaAlt → Unavailable stream.target? ledger slot included)
    (hfresh : Follows Fresh ledger (effects.map .did)) :
    Tends document stream.target? ledger slot effects ((ledger.account slot).ask viaAlt true) := by
  cases h with
  | @accepted target token htarget =>
    have hasks : AsksFor document stream.target? ledger
        (stream.subRequest ⟨slot, viaAlt⟩ target) included :=
      ⟨hpending, hrequest, htarget, hsecond⟩
    exact ⟨⟨⟨hmay, included, hasks⟩, nofun, trivial⟩, Ledger.account_ask hfresh.1⟩

/-- What is asked for to no avail, or cannot be asked for. -/
theorem Asks.tends_of_unsent (h : Asks stream included ⟨slot, viaAlt⟩ false effects)
    (hmay : (ledger.account slot).MayAsk viaAlt)
    (hsecond : viaAlt → Unavailable stream.target? ledger slot included)
    (hfresh : Follows Fresh ledger (effects.map .did)) :
    ∃ after, Tends document stream.target? ledger slot effects after ∧ after.tally = 0 ∧
      (viaAlt = false → after.MayAsk true ∧
        Unavailable stream.target? (ledger.noteAll (effects.map .did)) slot included) := by
  obtain ⟨htally, hasked⟩ := hmay
  have hnone : viaAlt = false → (ledger.account slot).asked = [] := by
    rintro rfl
    exact hasked
  cases h with
  | @denied target denial htarget =>
    have hasks : AsksFor document stream.target? ledger
        (stream.subRequest ⟨slot, viaAlt⟩ target) included :=
      ⟨hpending, hrequest, htarget, hsecond⟩
    refine ⟨(ledger.account slot).ask viaAlt false,
      ⟨⟨⟨⟨htally, hasked⟩, included, hasks⟩, trivial, trivial⟩, Ledger.account_ask hfresh.1⟩,
      htally, fun hfirst => ⟨⟨htally, ?_⟩, Or.inr ?_⟩⟩
    · show true ∉ viaAlt :: (ledger.account slot).asked
      rw [hnone hfirst, hfirst]
      decide
    · subst hfirst
      exact List.mem_cons_self
  | @unresolved refusal htarget =>
    refine ⟨_, .idle rfl ⟨trivial, trivial⟩ rfl, htally, fun hfirst => ⟨⟨htally, ?_⟩, Or.inl ?_⟩⟩
    · rw [if_pos rfl, hnone hfirst]
      exact List.not_mem_nil
    · subst hfirst
      exact ⟨refusal, htarget⟩
  | unnamed htarget =>
    refine ⟨_, .idle rfl trivial rfl, htally, fun hfirst => ?_⟩
    subst hfirst
    cases htarget

/-- A slot that is given up. -/
theorem farewell_tends (failure : Failure) (hopen : (ledger.account slot).tally = 0) :
    Tends document stream.target? ledger slot (stream.farewell slot included failure)
      (ledger.account slot).fail := by
  have hrecord : Tends document stream.target? ledger slot [.records (some slot)
      { Audit.Record.includeFailed included.src failure.text with requestPath := stream.path }]
      (ledger.account slot).fail := by
    exact ⟨⟨fun _ => ⟨hopen, hpending, included, hrequest, rfl⟩, trivial⟩,
      Ledger.account_fail ledger slot⟩
  rw [farewell]
  split
  · exact hrecord
  · exact hrecord.append (.idle hrecord.account_self ⟨trivial, trivial⟩ rfl)

/-! ## Whole slots -/

/-- Nothing was done about the slot, and then it is seen to. -/
theorem Fetches.tends (h : Fetches stream included slot effects) (hnew : ledger.account slot = {})
    (hfresh : Follows Fresh ledger (effects.map .did)) :
    ∃ after, Tends document stream.target? ledger slot effects after ∧ after.tally = 1 := by
  have hmay : (ledger.account slot).MayAsk false := by
    rw [hnew]
    exact ⟨rfl, rfl⟩
  cases h with
  | source h =>
    refine ⟨_, h.tends_of_sent hpending hrequest hmay nofun hfresh, ?_⟩
    rw [hnew]
    rfl
  | @replacement first second hsource h =>
    rw [List.map_append, follows_append] at hfresh
    obtain ⟨middle, hfirst, hopen, hnext⟩ :=
      hsource.tends_of_unsent hpending hrequest hmay nofun hfresh.1
    obtain ⟨hmore, hunavailable⟩ := hnext rfl
    rw [← hfirst.account_self] at hmore hopen
    refine ⟨_, hfirst.append (h.tends_of_sent hpending hrequest hmore (fun _ => hunavailable)
      hfresh.2), ?_⟩
    exact Account.tally_ask_of_open hopen true
  | @nothing first second hsource h =>
    rw [List.map_append, follows_append, List.map_append, follows_append] at hfresh
    obtain ⟨middle, hfirst, hopen, hnext⟩ :=
      hsource.tends_of_unsent hpending hrequest hmay nofun hfresh.1.1
    obtain ⟨hmore, hunavailable⟩ := hnext rfl
    rw [← hfirst.account_self] at hmore
    obtain ⟨last, hsecond, hopen, -⟩ :=
      h.tends_of_unsent hpending hrequest hmore (fun _ => hunavailable) hfresh.1.2
    have hboth := hfirst.append hsecond
    rw [← hboth.account_self] at hopen
    exact ⟨_, hboth.append (farewell_tends hpending hrequest .notDispatched hopen),
      Account.tally_fail_of_open hopen⟩

/-- The fetch for the slot has failed, and then the slot is seen to again. -/
theorem Recovers.tends {failure : Failure}
    (h : Recovers stream included ⟨slot, viaAlt⟩ failure effects)
    (hopen : (ledger.account slot).tally = 0)
    (hsecond : viaAlt = false → true ∉ (ledger.account slot).asked ∧ ⟨slot, false⟩ ∈ ledger.lost)
    (hfresh : Follows Fresh ledger (effects.map .did)) :
    ∃ after, Tends document stream.target? ledger slot effects after ∧ after.tally = 1 := by
  have htold : Tends document stream.target? ledger slot [failover slot included failure]
      (ledger.account slot) := .idle rfl ⟨nofun, trivial⟩ rfl
  cases h with
  | final h =>
    exact ⟨_, farewell_tends hpending hrequest failure hopen, Account.tally_fail_of_open hopen⟩
  | replacement hfirst h =>
    obtain ⟨hasked, hlost⟩ := hsecond hfirst
    refine ⟨_, htold.append (h.tends_of_sent hpending hrequest ⟨hopen, hasked⟩
      (fun _ => Or.inr hlost) hfresh.2), Account.tally_ask_of_open hopen true⟩
  | @nothing asking hfirst h =>
    obtain ⟨hasked, hlost⟩ := hsecond hfirst
    rw [List.map_cons, List.map_append] at hfresh
    obtain ⟨hasking, -⟩ := follows_append.mp hfresh.2
    obtain ⟨last, htends, hopen, -⟩ :=
      h.tends_of_unsent hpending hrequest ⟨hopen, hasked⟩ (fun _ => Or.inr hlost) hasking
    have hboth := htold.append htends
    rw [← hboth.account_self] at hopen
    exact ⟨_, hboth.append (farewell_tends hpending hrequest failure hopen),
      Account.tally_fail_of_open hopen⟩

end Asking

/-! ## All slots -/

/-- Nothing was done about any of the slots, and then each is seen to once. -/
theorem FetchesAll.tends {slots : List Nat} (h : FetchesAll stream document slots effects)
    (hnodup : slots.Nodup) (hpending : ∀ slot ∈ slots, slot ∈ document.pending)
    (hrequests : ∀ slot ∈ slots, (document.request? slot).isSome)
    (hnew : ∀ slot ∈ slots, ledger.account slot = {})
    (hfresh : Follows Fresh ledger (effects.map .did)) :
    Follows (Proper document stream.target?) ledger (effects.map .did) ∧
      (∀ slot ∈ slots, ((ledger.noteAll (effects.map .did)).account slot).tally = 1) ∧
      ∀ slot, slot ∉ slots →
        (ledger.noteAll (effects.map .did)).account slot = ledger.account slot := by
  induction h generalizing ledger with
  | nil => exact ⟨trivial, nofun, fun _ _ => rfl⟩
  | @without slot rest effects hrequest h ih =>
    have hsome := hrequests slot List.mem_cons_self
    rw [hrequest] at hsome
    cases hsome
  | @slot slot rest included effects more hrequest hslot h ih =>
    obtain ⟨hslotNot, hrest⟩ := List.nodup_cons.mp hnodup
    rw [List.map_append, follows_append] at hfresh
    obtain ⟨after, htends, htally⟩ := hslot.tends (hpending slot List.mem_cons_self) hrequest
      (hnew slot List.mem_cons_self) hfresh.1
    have hothers : ∀ other, slot ≠ other →
        (ledger.noteAll (effects.map .did)).account other = ledger.account other :=
      fun other hne => (htends.account other).trans (if_neg hne)
    obtain ⟨hproper, hseen, hleft⟩ := ih hrest
      (fun other hmem => hpending other (List.mem_cons_of_mem slot hmem))
      (fun other hmem => hrequests other (List.mem_cons_of_mem slot hmem))
      (fun other hmem => (hothers other fun heq => hslotNot (heq ▸ hmem)).trans
        (hnew other (List.mem_cons_of_mem slot hmem))) hfresh.2
    rw [List.map_append, follows_append, Ledger.noteAll_append]
    refine ⟨⟨htends.proper, hproper⟩, List.forall_mem_cons.mpr ⟨?_, hseen⟩, fun other hnot => ?_⟩
    · rw [hleft slot hslotNot, htends.account_self, htally]
    · obtain ⟨hne, hnot⟩ := not_or.mp (List.mem_cons.not.mp hnot)
      rw [hleft other hnot, hothers other (Ne.symm hne)]

end Stream
end Response
end EdgeIncludes
