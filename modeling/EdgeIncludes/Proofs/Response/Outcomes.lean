/-
What fragments are there in the end.

What becomes of a fetch is its outcome: it is never on its way, it is answered without a success,
or it brings a fragment.  The outcomes of the two fetches for a slot determine the fragment of
the slot (`fragmentOf?`), and nothing else does.  The fragments that have come and the fetches
on their way keep to that at every moment (`Stocks`): a slot that no fetch is on its way for
has its fragment, or has none if it gets none, and a replacement is on its way only if the
source brings nothing.
-/
import EdgeIncludes.Proofs.Response.Attendance

namespace EdgeIncludes
namespace Response

/-! ## Outcomes -/

inductive Outcome where
  /-- There is no address for the fetch, or the host does not take it. -/
  | unsent
  | failed
  | fetched (fragment : Bytes)
deriving Repr, DecidableEq

def Outcome.fragment? : Outcome → Option Bytes
  | fetched fragment => some fragment
  | _ => none

abbrev Outcomes := Fetch → Outcome

/-- What a fetch brings, if the request names an address for it. -/
def yield? (outcomes : Outcomes) (included : Include.Request) (fetch : Fetch) : Option Bytes :=
  if fetch.viaAlt && included.alt.isNone then none else (outcomes fetch).fragment?

/-- The fragment of a slot: that from its source, or else the one from its replacement. -/
def fragmentOf? (document : Page.Document) (outcomes : Outcomes) (slot : Nat) : Option Bytes :=
  (document.request? slot).bind fun included =>
    (yield? outcomes included ⟨slot, false⟩).or (yield? outcomes included ⟨slot, true⟩)

/-- The replies of the host agree with the outcomes. -/
def Effect.Agrees (outcomes : Outcomes) : Effect → Prop
  | .asks request (.accepted _) => outcomes request.fetch ≠ .unsent
  | .asks request (.denied _) => outcomes request.fetch = .unsent
  | _ => True

/-- There is no target for what the request names. -/
def Stream.refuses (stream : Stream) (included : Include.Request) (viaAlt : Bool) : Bool :=
  match stream.target? included viaAlt with
  | some (.error _) => true
  | _ => false

/-- The addresses that are of no use agree with the outcomes. -/
def Stream.Resolves (stream : Stream) (outcomes : Outcomes) (included : Include.Request)
    (slot : Nat) : Prop :=
  ∀ viaAlt, stream.refuses included viaAlt → outcomes ⟨slot, viaAlt⟩ = .unsent

/-! ## What is sent -/

def Effect.sent? : Effect → Option (Nat × Fetch)
  | .asks request (.accepted token) => some (token, request.fetch)
  | _ => none

/-- The fetches that the effects set on their way. -/
def sentOf (effects : List Effect) : List (Nat × Fetch) :=
  effects.filterMap Effect.sent?

@[simp] theorem sentOf_append (front back : List Effect) :
    sentOf (front ++ back) = sentOf front ++ sentOf back :=
  List.filterMap_append

theorem mem_inFlight_note {ledger : Ledger} {effect : Effect}
    (hfresh : Fresh ledger (.did effect)) (entry : Nat × Fetch) :
    entry ∈ (ledger.note (.did effect)).inFlight ↔
      entry ∈ sentOf [effect] ∨ entry ∈ ledger.inFlight := by
  cases effect with
  | asks request reply =>
    cases reply with
    | accepted token =>
      show entry ∈ (token, request.fetch) :: ledger.without token ↔ _
      rw [Ledger.without_of_lookup_eq_none hfresh, List.mem_cons]
      simp [sentOf, Effect.sent?]
    | denied denial => simp [sentOf, Effect.sent?, Ledger.note, Ledger.ask]
  | records slot record =>
    cases slot with
    | none => simp [sentOf, Effect.sent?, Ledger.note]
    | some slot =>
      rw [Ledger.note]
      split <;> simp [sentOf, Effect.sent?]
  | _ => simp [sentOf, Effect.sent?, Ledger.note]

/-- What is on its way after the effects was on its way before, or was sent by them. -/
theorem mem_inFlight_noteAll {ledger : Ledger} {effects : List Effect}
    (hfresh : Follows Fresh ledger (effects.map .did)) (entry : Nat × Fetch) :
    entry ∈ (ledger.noteAll (effects.map .did)).inFlight ↔
      entry ∈ sentOf effects ∨ entry ∈ ledger.inFlight := by
  induction effects generalizing ledger with
  | nil => exact (or_iff_right List.not_mem_nil).symm
  | cons effect rest ih =>
    have hsplit : sentOf (effect :: rest) = sentOf [effect] ++ sentOf rest :=
      sentOf_append [effect] rest
    rw [List.map_cons, Ledger.noteAll, List.foldl_cons, ← Ledger.noteAll, ih hfresh.2,
      mem_inFlight_note hfresh.1, hsplit, List.mem_append]
    tauto

/-! ## One slot -/

/-- What is sent for a slot leaves it to fetches that can still bring its fragment, and if
nothing is sent the slot gets none. -/
structure Leaves (outcomes : Outcomes) (included : Include.Request) (slot : Nat)
    (sent : List (Nat × Fetch)) : Prop where
  slot_eq : ∀ entry ∈ sent, entry.2.slot = slot
  second : ∀ entry ∈ sent, entry.2.viaAlt →
    yield? outcomes included ⟨slot, false⟩ = none ∧ included.alt.isSome
  nothing : sent = [] →
    yield? outcomes included ⟨slot, false⟩ = none ∧ yield? outcomes included ⟨slot, true⟩ = none

namespace Stream

variable {stream : Stream} {outcomes : Outcomes} {included : Include.Request} {slot : Nat}
  {viaAlt : Bool} {effects : List Effect}

theorem Asks.sentOf_eq (h : Asks stream included ⟨slot, viaAlt⟩ true effects) :
    (∃ token, sentOf effects = [(token, ⟨slot, viaAlt⟩)]) ∧ (viaAlt → included.alt.isSome) := by
  cases h with
  | accepted token htarget =>
    refine ⟨⟨token, rfl⟩, ?_⟩
    rintro rfl
    obtain ⟨alt, halt, -⟩ := Option.map_eq_some_iff.mp htarget
    exact Option.isSome_of_mem halt

theorem Asks.yield?_eq_none (h : Asks stream included ⟨slot, viaAlt⟩ false effects)
    (hagrees : ∀ effect ∈ effects, effect.Agrees outcomes)
    (hresolves : stream.Resolves outcomes included slot) :
    sentOf effects = [] ∧ yield? outcomes included ⟨slot, viaAlt⟩ = none := by
  have hunsent : outcomes ⟨slot, viaAlt⟩ = .unsent →
      yield? outcomes included ⟨slot, viaAlt⟩ = none := by
    intro houtcome
    rw [yield?, houtcome]
    split <;> rfl
  cases h with
  | denied denial htarget => exact ⟨rfl, hunsent (hagrees _ List.mem_cons_self)⟩
  | unresolved htarget =>
    refine ⟨rfl, hunsent (hresolves viaAlt ?_)⟩
    rw [refuses, show stream.target? included viaAlt = _ from htarget]
  | unnamed htarget =>
    refine ⟨rfl, ?_⟩
    cases viaAlt with
    | false => cases htarget
    | true =>
      have halt : included.alt = none := Option.map_eq_none_iff.mp htarget
      rw [yield?, halt]
      rfl

theorem sentOf_farewell (stream : Stream) (slot : Nat) (included : Include.Request)
    (failure : Failure) : sentOf (stream.farewell slot included failure) = [] := by
  rw [farewell]
  split <;> rfl

theorem Fetches.leaves (h : Fetches stream included slot effects)
    (hagrees : ∀ effect ∈ effects, effect.Agrees outcomes)
    (hresolves : stream.Resolves outcomes included slot) :
    Leaves outcomes included slot (sentOf effects) := by
  cases h with
  | source h =>
    obtain ⟨⟨token, hsent⟩, -⟩ := h.sentOf_eq
    rw [hsent]
    exact ⟨by simp, by simp, by simp⟩
  | replacement hsource h =>
    obtain ⟨hfirst, hnone⟩ :=
      hsource.yield?_eq_none (fun _ hmem => hagrees _ (List.mem_append_left _ hmem)) hresolves
    obtain ⟨⟨token, hsent⟩, halt⟩ := h.sentOf_eq
    rw [sentOf_append, hfirst, hsent]
    exact ⟨by simp, fun _ _ _ => ⟨hnone, halt rfl⟩, by simp⟩
  | nothing hsource h =>
    obtain ⟨hfirst, hnone⟩ := hsource.yield?_eq_none
      (fun _ hmem => hagrees _ (List.mem_append_left _ (List.mem_append_left _ hmem))) hresolves
    obtain ⟨hsecond, hneither⟩ := h.yield?_eq_none
      (fun _ hmem => hagrees _ (List.mem_append_left _ (List.mem_append_right _ hmem))) hresolves
    rw [sentOf_append, sentOf_append, hfirst, hsecond, sentOf_farewell]
    exact ⟨nofun, nofun, fun _ => ⟨hnone, hneither⟩⟩

/-- A fetch that brought nothing is followed by what can still bring a fragment. -/
theorem Recovers.leaves {failure : Failure}
    (h : Recovers stream included ⟨slot, viaAlt⟩ failure effects)
    (hfailed : yield? outcomes included ⟨slot, viaAlt⟩ = none)
    (hfirst : viaAlt → yield? outcomes included ⟨slot, false⟩ = none)
    (hagrees : ∀ effect ∈ effects, effect.Agrees outcomes)
    (hresolves : stream.Resolves outcomes included slot) :
    Leaves outcomes included slot (sentOf effects) := by
  have hsource : yield? outcomes included ⟨slot, false⟩ = none := by
    cases viaAlt with
    | false => exact hfailed
    | true => exact hfirst rfl
  cases h with
  | final h =>
    rw [sentOf_farewell]
    refine ⟨nofun, nofun, fun _ => ⟨hsource, ?_⟩⟩
    cases viaAlt with
    | false =>
      have halt : included.alt.isNone := h
      rw [yield?, halt]
      rfl
    | true => exact hfailed
  | replacement hviaAlt h =>
    obtain ⟨⟨token, hsent⟩, halt⟩ := h.sentOf_eq
    have hall : sentOf (failover slot included failure :: _) = [(token, ⟨slot, true⟩)] := hsent
    rw [hall]
    exact ⟨by simp, fun _ _ _ => ⟨hsource, halt rfl⟩, by simp⟩
  | @nothing asking hviaAlt h =>
    obtain ⟨hsecond, hneither⟩ := h.yield?_eq_none (fun _ hmem =>
      hagrees _ (List.mem_cons_of_mem _ (List.mem_append_left _ hmem))) hresolves
    have hall : sentOf (failover slot included failure ::
        (asking ++ stream.farewell slot included failure)) = [] := by
      show sentOf (asking ++ _) = []
      rw [sentOf_append, hsecond, sentOf_farewell]
      rfl
    rw [hall]
    exact ⟨nofun, nofun, fun _ => ⟨hsource, hneither⟩⟩

end Stream

/-! ## All slots -/

section Stocks

variable {document : Page.Document} {outcomes : Outcomes} {stream : Stream}
  {effects : List Effect} {inFlight : List (Nat × Fetch)} {fragments : Std.TreeMap Nat Bytes}

theorem fragmentOf?_eq {slot : Nat} {included : Include.Request}
    (hrequest : document.request? slot = some included) :
    fragmentOf? document outcomes slot =
      (yield? outcomes included ⟨slot, false⟩).or (yield? outcomes included ⟨slot, true⟩) := by
  rw [fragmentOf?, hrequest, Option.bind_some]

/-- The addresses of a document that are of no use agree with the outcomes. -/
def Stream.ResolvesAll (stream : Stream) (outcomes : Outcomes) (document : Page.Document) : Prop :=
  ∀ slot ∈ document.pending, ∀ included ∈ document.request? slot,
    stream.Resolves outcomes included slot

/-- A replacement is on its way only if the source brings nothing, and what no fetch is on its
way for has the fragment that it gets. -/
structure Stocks (document : Page.Document) (outcomes : Outcomes) (inFlight : List (Nat × Fetch))
    (fragments : Std.TreeMap Nat Bytes) : Prop where
  second : ∀ entry ∈ inFlight, entry.2.viaAlt → ∃ included,
    document.request? entry.2.slot = some included ∧
      yield? outcomes included ⟨entry.2.slot, false⟩ = none ∧ included.alt.isSome
  settled : ∀ slot ∈ document.pending, (∀ entry ∈ inFlight, entry.2.slot ≠ slot) →
    fragments[slot]? = fragmentOf? document outcomes slot

theorem Stream.FetchesAll.stocks {slots : List Nat}
    (h : Stream.FetchesAll stream document slots effects)
    (hslots : ∀ slot ∈ slots, slot ∈ document.pending)
    (hagrees : ∀ effect ∈ effects, effect.Agrees outcomes)
    (hresolves : stream.ResolvesAll outcomes document) :
    (∀ entry ∈ sentOf effects, entry.2.viaAlt → ∃ included,
      document.request? entry.2.slot = some included ∧
        yield? outcomes included ⟨entry.2.slot, false⟩ = none ∧ included.alt.isSome) ∧
      ∀ slot ∈ slots, (∀ entry ∈ sentOf effects, entry.2.slot ≠ slot) →
        fragmentOf? document outcomes slot = none := by
  induction h with
  | nil => exact ⟨nofun, nofun⟩
  | @without slot rest effects hrequest h ih =>
    obtain ⟨hpending, hrest⟩ := List.forall_mem_cons.mp hslots
    obtain ⟨hsecond, hsettled⟩ := ih hrest hagrees
    refine ⟨hsecond, List.forall_mem_cons.mpr ⟨fun _ => ?_, hsettled⟩⟩
    rw [fragmentOf?, hrequest]
    rfl
  | @slot slot rest included effects more hrequest hslot h ih =>
    obtain ⟨hpending, hrest⟩ := List.forall_mem_cons.mp hslots
    obtain ⟨hfirst, hmore⟩ := List.forall_mem_append.mp hagrees
    have hleaves := hslot.leaves hfirst (hresolves slot hpending included hrequest)
    obtain ⟨hsecond, hsettled⟩ := ih hrest hmore
    rw [sentOf_append]
    refine ⟨List.forall_mem_append.mpr ⟨fun entry hmem halt => ?_, hsecond⟩,
      List.forall_mem_cons.mpr ⟨fun hnone => ?_, fun other hother hnone => ?_⟩⟩
    · rw [hleaves.slot_eq entry hmem]
      exact ⟨included, hrequest, hleaves.second entry hmem halt⟩
    · have hempty : sentOf effects = [] := List.eq_nil_iff_forall_not_mem.mpr fun entry hmem =>
        hnone entry (List.mem_append_left _ hmem) (hleaves.slot_eq entry hmem)
      obtain ⟨hsource, hreplacement⟩ := hleaves.nothing hempty
      rw [fragmentOf?_eq hrequest, hsource, hreplacement]
      rfl
    · exact hsettled other hother fun entry hmem => hnone entry (List.mem_append_right _ hmem)

namespace Stocks

/-- What is done first about the slots of a document. -/
theorem begins (h : Stream.FetchesAll stream document document.pending effects)
    (hfresh : Follows Fresh {} (effects.map .did))
    (hagrees : ∀ effect ∈ effects, effect.Agrees outcomes)
    (hresolves : stream.ResolvesAll outcomes document) :
    Stocks document outcomes (Ledger.noteAll {} (effects.map .did)).inFlight {} := by
  obtain ⟨hsecond, hsettled⟩ := h.stocks (fun _ hmem => hmem) hagrees hresolves
  have hsent : ∀ entry, entry ∈ (Ledger.noteAll {} (effects.map .did)).inFlight ↔
      entry ∈ sentOf effects := fun entry =>
    (mem_inFlight_noteAll hfresh entry).trans (or_iff_left List.not_mem_nil)
  refine ⟨fun entry hmem => hsecond entry ((hsent entry).mp hmem), fun slot hslot hnone => ?_⟩
  rw [hsettled slot hslot fun entry hmem => hnone entry ((hsent entry).mpr hmem)]
  exact Std.TreeMap.getElem?_emptyc

/-- A fetch for a slot is on its way no more, and others may have been sent for the slot. -/
theorem superseded {front back sent : List (Nat × Fetch)} {token slot : Nat} {viaAlt : Bool}
    {after : List (Nat × Fetch)} {kept : Std.TreeMap Nat Bytes} {included : Include.Request}
    (h : Stocks document outcomes (front ++ (token, ⟨slot, viaAlt⟩) :: back) fragments)
    (hafter : ∀ entry, entry ∈ after ↔ entry ∈ sent ∨ entry ∈ front ++ back)
    (hrequest : document.request? slot = some included)
    (hslots : ∀ entry ∈ sent, entry.2.slot = slot)
    (hsecond : ∀ entry ∈ sent, entry.2.viaAlt →
      yield? outcomes included ⟨slot, false⟩ = none ∧ included.alt.isSome)
    (hothers : ∀ other, slot ≠ other → kept[other]? = fragments[other]?)
    (hslot : sent = [] → kept[slot]? = fragmentOf? document outcomes slot) :
    Stocks document outcomes after kept := by
  have hbefore : ∀ entry ∈ front ++ back, entry ∈ front ++ (token, ⟨slot, viaAlt⟩) :: back :=
    fun entry hmem => ((List.sublist_cons_self _ back).append_left front).subset hmem
  refine ⟨fun entry hmem halt => ?_, fun other hother hnone => ?_⟩
  · rcases (hafter entry).mp hmem with hmem | hmem
    · rw [hslots entry hmem]
      exact ⟨included, hrequest, hsecond entry hmem halt⟩
    · exact h.second entry (hbefore entry hmem) halt
  · by_cases heq : slot = other
    · subst heq
      exact hslot (List.eq_nil_iff_forall_not_mem.mpr fun entry hmem =>
        hnone entry ((hafter entry).mpr (Or.inl hmem)) (hslots entry hmem))
    · rw [hothers other heq]
      refine h.settled other hother fun entry hmem => ?_
      rcases List.mem_append.mp hmem with hmem | hmem
      · exact hnone entry ((hafter entry).mpr (Or.inr (List.mem_append_left back hmem)))
      · rcases List.mem_cons.mp hmem with rfl | hmem
        · exact heq
        · exact hnone entry ((hafter entry).mpr (Or.inr (List.mem_append_right front hmem)))

/-- No fragment has come yet for the slot of a fetch that is on its way. -/
theorem fragment_eq_none_of_inFlight {ledger : Ledger} {assembly : Assembly} {slot : Nat}
    {viaAlt : Bool} (hsees : Sees document ledger) (hserves : Serves document ledger assembly)
    (hslot : slot ∈ document.pending) (hflying : (ledger.account slot).flying = [viaAlt]) :
    assembly.fragments[slot]? = none := by
  have htally := hsees.once slot hslot
  rw [Account.tally, hflying, List.length_singleton] at htally
  have hfilled : slot ∉ ledger.filled := List.count_eq_zero.mp
    (show (ledger.account slot).filled = 0 by omega)
  rw [Std.TreeMap.getElem?_eq_none]
  exact fun hmem => hfilled ((hserves.stocked.mem_iff slot).mp hmem)

/-- What is done about the answer to a fetch on its way: all slots but its own are left as
they are. -/
theorem answers {ledger : Ledger} {token slot : Nat} {viaAlt : Bool} {assembly after : Assembly}
    {status : Option String} {fragment : Bytes}
    (h : Stocks document outcomes ledger.inFlight assembly.fragments)
    (hsees : Sees document ledger) (hserves : Serves document ledger assembly)
    (hrequests : ∀ slot ∈ document.pending, (document.request? slot).isSome)
    (hlookup : ledger.inFlight.lookup token = some ⟨slot, viaAlt⟩)
    (hanswers : Stream.Answers stream (assembly.settle token) ⟨slot, viaAlt⟩ status fragment
      effects after)
    (hfresh : Follows Fresh (ledger.answer token status) (effects.map .did))
    (houtcome : outcomes ⟨slot, viaAlt⟩ =
      if Ledger.isSuccess status then .fetched fragment else .failed)
    (hagrees : ∀ effect ∈ effects, effect.Agrees outcomes)
    (hresolves : stream.ResolvesAll outcomes document) :
    Stocks document outcomes ((ledger.answer token status).noteAll (effects.map .did)).inFlight
      after.fragments := by
  obtain ⟨front, back, heq, hwithout⟩ := Ledger.exists_inFlight_eq hsees.balanced.tokens hlookup
  have hflying := (Ledger.account_answer hsees.balanced hlookup status slot).1
  have hslot : slot ∈ document.pending := hsees.mem_pending fun hnew => by
    rw [hnew] at hflying
    cases hflying
  obtain ⟨included, hrequest⟩ := Option.isSome_iff_exists.mp (hrequests slot hslot)
  have hafter : ∀ entry,
      entry ∈ ((ledger.answer token status).noteAll (effects.map .did)).inFlight ↔
        entry ∈ sentOf effects ∨ entry ∈ front ++ back := by
    intro entry
    rw [mem_inFlight_noteAll hfresh, Ledger.inFlight_answer hlookup, hwithout]
  rw [heq] at h
  have hfirst : viaAlt → yield? outcomes included ⟨slot, false⟩ = none ∧ included.alt.isSome := by
    intro halt
    obtain ⟨other, hother, hnone⟩ :=
      h.second (token, ⟨slot, viaAlt⟩) (List.mem_append_right _ List.mem_cons_self) halt
    rw [hrequest] at hother
    exact Option.some.inj hother ▸ hnone
  cases hanswers with
  | success hsuccess =>
    rw [if_pos hsuccess] at houtcome
    refine h.superseded hafter hrequest (fun _ hmem => absurd hmem List.not_mem_nil)
      (fun _ hmem => absurd hmem List.not_mem_nil) (fun other hne => ?_) fun _ => ?_
    · show (assembly.fragments.insert slot fragment)[other]? = _
      rw [Std.TreeMap.getElem?_insert, if_neg]
      exact fun hcompare => hne (Std.LawfulEqCmp.eq_of_compare hcompare)
    · show (assembly.fragments.insert slot fragment)[slot]? = _
      rw [Std.TreeMap.getElem?_insert_self, fragmentOf?_eq hrequest]
      cases viaAlt with
      | false =>
        rw [yield?, houtcome]
        rfl
      | true =>
        obtain ⟨hsource, halt⟩ := hfirst rfl
        have hnamed : (true && included.alt.isNone) = false := by
          rw [Bool.true_and, ← Option.not_isSome, halt]
          rfl
        rw [hsource, yield?, hnamed, houtcome]
        rfl
  | without hfailure hnone =>
    have hmissing : document.request? slot = none := hserves.document_eq ▸ hnone
    rw [hrequest] at hmissing
    cases hmissing
  | @failure other failure effects hfailure hother hrecovers =>
    have hsame : other = included := by
      have hfound : document.request? slot = some other := hserves.document_eq ▸ hother
      rw [hrequest] at hfound
      exact (Option.some.inj hfound).symm
    subst hsame
    have hfailed : yield? outcomes other ⟨slot, viaAlt⟩ = none := by
      rw [yield?, houtcome, hfailure]
      split <;> rfl
    have hleaves := hrecovers.leaves hfailed (fun halt => (hfirst halt).1) hagrees
      (hresolves slot hslot other hrequest)
    obtain ⟨outstanding, hfollow⟩ := (assembly.settle token).exists_followAll_eq effects
    have hkept : ((assembly.settle token).followAll effects).fragments = assembly.fragments := by
      rw [hfollow]
      rfl
    rw [hkept]
    refine h.superseded hafter hrequest hleaves.slot_eq hleaves.second (fun _ _ => rfl)
      fun hnothing => ?_
    obtain ⟨hsource, hreplacement⟩ := hleaves.nothing hnothing
    rw [fragment_eq_none_of_inFlight hsees hserves hslot hflying, fragmentOf?_eq hrequest, hsource,
      hreplacement]
    rfl

/-- When nothing is on its way, the page is what the outcomes make of the document. -/
theorem render_eq (h : Stocks document outcomes [] fragments) :
    (document.render fun slot => fragments[slot]?) =
      document.render (fragmentOf? document outcomes) := by
  have hfill : ∀ segment ∈ document.segments,
      segment.fill (fun slot => fragments[slot]?) =
        segment.fill (fragmentOf? document outcomes) := by
    intro segment hmem
    cases segment with
    | literal bytes => rfl
    | slot number =>
      have hpending : number ∈ document.pending := by
        rw [Page.Document.pending, List.mem_eraseDups, List.mem_filterMap]
        exact ⟨.slot number, hmem, rfl⟩
      show (fragments[number]?).getD [] = _
      rw [h.settled number hpending fun _ hmem => absurd hmem List.not_mem_nil]
      rfl
  exact List.flatMap_congr hfill

end Stocks
end Stocks
end Response
end EdgeIncludes
