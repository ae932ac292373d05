/-
The account of each slot.

What the ledger says about the fetches of a stream can be read slot by slot.  Nothing that is
done about one slot changes the account of another, as long as the host never gives out the
token of a fetch that is still on its way.  The books are balanced (`Ledger.Balanced`) when of
every slot at most one thing is true: a fetch for it is on its way, or it was filled once, or
its failure was recorded once.  What keeps them so is that nothing is asked for or given up
while the account of the slot is settled (`Admits`).
-/
import EdgeIncludes.Proofs.Response.Timeline
import Mathlib.Data.List.Nodup

namespace EdgeIncludes
namespace Response

/-! ## Accounts -/

/-- Which of the fetches for the slot it is, if it is one. -/
def Fetch.of? (slot : Nat) (fetch : Fetch) : Option Bool :=
  if fetch.slot = slot then some fetch.viaAlt else none

/-- What is known of one slot.  Its fetches are told apart by whether they are for the
replacement. -/
structure Account where
  flying : List Bool := []
  asked : List Bool := []
  filled : Nat := 0
  failed : Nat := 0
deriving Repr, DecidableEq

namespace Account

/-- How often the slot is seen to, by a fetch on its way, a fragment, or a failure. -/
def tally (account : Account) : Nat :=
  account.flying.length + account.filled + account.failed

def ask (account : Account) (viaAlt taken : Bool) : Account :=
  { account with
    flying := if taken then viaAlt :: account.flying else account.flying
    asked := viaAlt :: account.asked }

/-- The only fetch on its way is answered. -/
def answer (account : Account) (success : Bool) : Account :=
  { account with
    flying := []
    filled := if success then account.filled + 1 else account.filled }

def fail (account : Account) : Account :=
  { account with failed := account.failed + 1 }

/-- The source of the slot, or its replacement, may be asked for: nothing is settled, and the
replacement comes second. -/
def MayAsk (account : Account) (viaAlt : Bool) : Prop :=
  account.tally = 0 ∧ if viaAlt then true ∉ account.asked else account.asked = []

theorem tally_ask_of_open {account : Account} (h : account.tally = 0) (viaAlt : Bool) :
    (account.ask viaAlt true).tally = 1 := by
  rw [tally] at h ⊢
  simp only [ask, if_true, List.length_cons]
  omega

theorem tally_fail_of_open {account : Account} (h : account.tally = 0) :
    account.fail.tally = 1 := by
  rw [tally] at h ⊢
  simp only [fail]
  omega

/-- At most one thing is true of the slot, and its fetches come in order. -/
structure Balanced (account : Account) : Prop where
  tally_le : account.tally ≤ 1
  asked_nodup : account.asked.Nodup
  /-- The replacement is not asked for before the source is answered. -/
  first : false ∈ account.flying → true ∉ account.asked

namespace Balanced

variable {account : Account}

theorem new : Balanced {} :=
  ⟨Nat.zero_le 1, List.nodup_nil, nofun⟩

theorem ask {viaAlt : Bool} (h : account.Balanced) (hmay : account.MayAsk viaAlt) (taken : Bool) :
    (account.ask viaAlt taken).Balanced := by
  obtain ⟨htally, hasked⟩ := hmay
  have hflying : account.flying = [] := by
    rw [tally] at htally
    exact List.eq_nil_of_length_eq_zero (by omega)
  refine ⟨?_, List.nodup_cons.mpr ⟨?_, h.asked_nodup⟩, ?_⟩
  · rw [tally] at htally
    rw [tally, Account.ask, hflying]
    cases taken <;> simp <;> omega
  · cases viaAlt with
    | true => exact hasked
    | false => rw [show account.asked = [] from hasked]; exact List.not_mem_nil
  · rw [Account.ask, hflying]
    cases viaAlt with
    | true => cases taken <;> simp
    | false => simp [show account.asked = [] from hasked]

theorem answer (h : account.Balanced) (hflying : account.flying ≠ []) (success : Bool) :
    (account.answer success).Balanced := by
  have htally := h.tally_le
  have hlength := List.length_pos_iff.mpr hflying
  refine ⟨?_, h.asked_nodup, nofun⟩
  rw [tally] at htally ⊢
  rw [Account.answer]
  cases success <;> simp <;> omega

theorem fail (h : account.Balanced) (hopen : account.tally = 0) : account.fail.Balanced := by
  refine ⟨?_, h.asked_nodup, h.first⟩
  rw [tally] at hopen ⊢
  rw [Account.fail]
  simp only
  omega

end Balanced
end Account

theorem nodup_of_filterMap_of? {fetches : List Fetch}
    (h : ∀ slot, (fetches.filterMap (Fetch.of? slot)).Nodup) : fetches.Nodup := by
  induction fetches with
  | nil => exact List.nodup_nil
  | cons fetch rest ih =>
    have hself : fetch.of? fetch.slot = some fetch.viaAlt := if_pos rfl
    have hfetch := h fetch.slot
    rw [List.filterMap_cons_some hself, List.nodup_cons] at hfetch
    refine List.nodup_cons.mpr ⟨fun hmem => ?_, ih fun slot => ?_⟩
    · exact hfetch.1 (List.mem_filterMap.mpr ⟨fetch, hmem, hself⟩)
    · exact (h slot).sublist ((List.sublist_cons_self fetch rest).filterMap _)

/-! ## The books -/

namespace Ledger

variable {ledger : Ledger}

def account (ledger : Ledger) (slot : Nat) : Account where
  flying := ledger.inFlight.filterMap fun entry => entry.2.of? slot
  asked := ledger.asked.filterMap (Fetch.of? slot)
  filled := ledger.filled.count slot
  failed := ledger.failed.count slot

/-- No token stands for two fetches, and every account is balanced. -/
structure Balanced (ledger : Ledger) : Prop where
  tokens : (ledger.inFlight.map Prod.fst).Nodup
  accounts : ∀ slot, (ledger.account slot).Balanced

end Ledger

/-- The host gives no token that stands for a fetch on its way. -/
def Fresh (ledger : Ledger) (moment : Moment) : Prop :=
  (moment.token?.bind fun token => ledger.inFlight.lookup token) = none

instance (ledger : Ledger) (moment : Moment) : Decidable (Fresh ledger moment) :=
  inferInstanceAs (Decidable (_ = none))

/-- What is done about a slot is not done to one that is settled. -/
def Admits (ledger : Ledger) : Moment → Prop
  | .did (.asks request _) => (ledger.account request.fetch.slot).MayAsk request.fetch.viaAlt
  | .did (.records (some slot) record) =>
    record.kind = .includeFailed → (ledger.account slot).tally = 0
  | _ => True

namespace Ledger

variable {ledger : Ledger} {token : Nat} {fetch : Fetch}

/-! ### Each account after a moment -/

theorem without_of_lookup_eq_none (h : ledger.inFlight.lookup token = none) :
    ledger.without token = ledger.inFlight := by
  rw [without, List.filter_eq_self]
  intro entry hmem
  rw [bne_comm]
  exact List.lookup_eq_none_iff.mp h entry hmem

theorem account_ask {request : SubRequest} {reply : Reply}
    (hfresh : Fresh ledger (.did (.asks request reply))) (slot : Nat) :
    (ledger.ask request.fetch reply).account slot =
      if request.fetch.slot = slot then
        (ledger.account request.fetch.slot).ask request.fetch.viaAlt reply.token?.isSome
      else ledger.account slot := by
  cases reply with
  | accepted token =>
    rw [ask, without_of_lookup_eq_none hfresh]
    by_cases hslot : request.fetch.slot = slot <;>
      simp [account, Account.ask, Fetch.of?, hslot, Reply.token?]
  | denied denial =>
    rw [ask]
    by_cases hslot : request.fetch.slot = slot <;>
      simp [account, Account.ask, Fetch.of?, hslot, Reply.token?]

theorem account_fail (ledger : Ledger) (failing slot : Nat) :
    { ledger with failed := failing :: ledger.failed }.account slot =
      if failing = slot then (ledger.account failing).fail else ledger.account slot := by
  by_cases hslot : failing = slot <;> simp [account, Account.fail, hslot]

/-- A fetch on its way stands in one place. -/
theorem exists_inFlight_eq (h : (ledger.inFlight.map Prod.fst).Nodup)
    (hlookup : ledger.inFlight.lookup token = some fetch) :
    ∃ front back, ledger.inFlight = front ++ (token, fetch) :: back ∧
      ledger.without token = front ++ back := by
  obtain ⟨front, back, heq, -⟩ := List.lookup_eq_some_iff.mp hlookup
  refine ⟨front, back, heq, ?_⟩
  rw [heq, List.map_append, List.map_cons, List.nodup_middle, List.nodup_cons] at h
  have hne : ∀ entry ∈ front ++ back, (entry.1 != token) = true := by
    intro entry hmem
    refine bne_iff_ne.mpr fun htoken => h.1 ?_
    rw [← List.map_append]
    exact List.mem_map.mpr ⟨entry, hmem, htoken⟩
  obtain ⟨hfront, hback⟩ := List.forall_mem_append.mp hne
  rw [without, heq, List.filter_append, List.filter_cons_of_neg (by simp),
    List.filter_eq_self.mpr hfront, List.filter_eq_self.mpr hback]

theorem account_answer (h : ledger.Balanced) (hlookup : ledger.inFlight.lookup token = some fetch)
    (status : Option String) (slot : Nat) :
    (ledger.account fetch.slot).flying = [fetch.viaAlt] ∧
      (ledger.answer token status).account slot =
        if fetch.slot = slot then (ledger.account fetch.slot).answer (isSuccess status)
        else ledger.account slot := by
  obtain ⟨front, back, heq, hwithout⟩ := exists_inFlight_eq h.tokens hlookup
  have hflying : (ledger.account fetch.slot).flying =
      front.filterMap (fun entry => entry.2.of? fetch.slot) ++
        fetch.viaAlt :: back.filterMap fun entry => entry.2.of? fetch.slot := by
    simp [account, heq, Fetch.of?]
  -- the account allows for no other fetch of the slot
  have hlength : (ledger.account fetch.slot).flying.length ≤ 1 := by
    have htally := (h.accounts fetch.slot).tally_le
    rw [Account.tally] at htally
    omega
  rw [hflying, List.length_append, List.length_cons] at hlength
  have hfront : front.filterMap (fun entry => entry.2.of? fetch.slot) = [] :=
    List.eq_nil_of_length_eq_zero (by omega)
  have hback : back.filterMap (fun entry => entry.2.of? fetch.slot) = [] :=
    List.eq_nil_of_length_eq_zero (by omega)
  refine ⟨by rw [hflying, hfront, hback]; rfl, ?_⟩
  cases hstatus : isSuccess status with
  | true =>
    rw [answer_of_success hlookup hstatus]
    by_cases hslot : fetch.slot = slot
    · subst hslot
      simp [account, hwithout, Account.answer, hfront, hback]
    · simp [account, hwithout, heq, Fetch.of?, hslot]
  | false =>
    rw [answer_of_failure hlookup hstatus]
    by_cases hslot : fetch.slot = slot
    · subst hslot
      simp [account, hwithout, Account.answer, hfront, hback]
    · simp [account, hwithout, heq, Fetch.of?, hslot]

/-! ### The books after a moment -/

namespace Balanced

theorem new : Balanced {} :=
  ⟨List.nodup_nil, fun _ => .new⟩

theorem ask {request : SubRequest} {reply : Reply} (h : ledger.Balanced)
    (hfresh : Fresh ledger (.did (.asks request reply)))
    (hmay : (ledger.account request.fetch.slot).MayAsk request.fetch.viaAlt) :
    (ledger.ask request.fetch reply).Balanced := by
  refine ⟨?_, fun slot => ?_⟩
  · cases reply with
    | accepted token =>
      show (token :: (ledger.without token).map Prod.fst).Nodup
      rw [without_of_lookup_eq_none hfresh, List.nodup_cons]
      refine ⟨fun hmem => ?_, h.tokens⟩
      obtain ⟨entry, hentry, htoken⟩ := List.mem_map.mp hmem
      exact bne_iff_ne.mp (List.lookup_eq_none_iff.mp hfresh entry hentry) htoken.symm
    | denied denial => exact h.tokens
  · rw [account_ask hfresh]
    split
    · exact (h.accounts request.fetch.slot).ask hmay _
    · exact h.accounts slot

theorem answer (h : ledger.Balanced) (token : Nat) (status : Option String) :
    (ledger.answer token status).Balanced := by
  cases hlookup : ledger.inFlight.lookup token with
  | none => rwa [Ledger.answer, hlookup]
  | some fetch =>
    refine ⟨?_, fun slot => ?_⟩
    · rw [inFlight_answer hlookup]
      exact h.tokens.sublist (List.filter_sublist.map Prod.fst)
    · obtain ⟨hflying, haccount⟩ := account_answer h hlookup status slot
      rw [haccount]
      split
      · exact (h.accounts fetch.slot).answer (by rw [hflying]; exact List.cons_ne_nil _ _) _
      · exact h.accounts slot

theorem fail (h : ledger.Balanced) {failing : Nat}
    (hopen : (ledger.account failing).tally = 0) :
    Balanced { ledger with failed := failing :: ledger.failed } := by
  refine ⟨h.tokens, fun slot => ?_⟩
  rw [account_fail]
  split
  · exact (h.accounts failing).fail hopen
  · exact h.accounts slot

theorem note (h : ledger.Balanced) {moment : Moment} (hfresh : Fresh ledger moment)
    (hadmits : Admits ledger moment) : (ledger.note moment).Balanced := by
  cases moment with
  | called call =>
    cases call with
    | answered token status fragment replies => exact h.answer token status
    | _ => exact h
  | did effect =>
    cases effect with
    | asks request reply => exact h.ask hfresh hadmits
    | records about record =>
      cases about with
      | none => exact h
      | some failing =>
        rw [Ledger.note]
        split
        · rename_i hkind
          exact h.fail (hadmits hkind)
        · exact h
    | _ => exact h

/-- The books stay balanced from moment to moment. -/
theorem noteAll (h : ledger.Balanced) {moments : List Moment}
    (hfresh : Follows Fresh ledger moments)
    (hadmits : Follows Admits ledger moments) : (ledger.noteAll moments).Balanced := by
  induction moments generalizing ledger with
  | nil => exact h
  | cons moment rest ih => exact ih (h.note hfresh.1 hadmits.1) hfresh.2 hadmits.2

/-- Nothing is asked for twice. -/
theorem nodup_asked (h : ledger.Balanced) : ledger.asked.Nodup :=
  nodup_of_filterMap_of? fun slot => (h.accounts slot).asked_nodup

end Balanced
end Ledger
end Response
end EdgeIncludes
