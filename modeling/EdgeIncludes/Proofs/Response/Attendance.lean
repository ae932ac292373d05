/-
A document that is attended to.

From the step that completes a document on, every slot of it is seen to once, and nothing is
done for any other slot (`Attends`).  The assembly that waits for fragments keeps account of the
document only, of the fetches that are on their way, and of the fragments that have come.  Every
later step that completes no other document keeps it so, and does nothing that is not proper.
-/
import EdgeIncludes.Proofs.Response.Conduct
import EdgeIncludes.Proofs.Response.Rules

namespace EdgeIncludes
namespace Response

/-! ## Effects beside the fragments -/

namespace Effect

/-- The effect has nothing to do with fragments.  Of what is recorded about no slot, that is
only that a response is skipped. -/
def isAside : Effect → Bool
  | .records none record => record.kind == .processingSkipped
  | .records (some _) _ | .asks .. | .replacesBody .. => false
  | _ => true

end Effect

section Aside

variable {document : Page.Document} {target? : Resolution} {ledger : Ledger}
  {effects : List Effect}

theorem note_of_aside {effect : Effect} (h : effect.isAside) (ledger : Ledger) :
    ledger.note (.did effect) = ledger := by
  cases effect with
  | asks request reply => cases h
  | records slot record =>
    cases slot with
    | none => rfl
    | some slot => cases h
  | _ => rfl

theorem noteAll_of_aside (h : ∀ effect ∈ effects, effect.isAside) (ledger : Ledger) :
    ledger.noteAll (effects.map .did) = ledger := by
  induction effects with
  | nil => rfl
  | cons effect rest ih =>
    obtain ⟨heffect, hrest⟩ := List.forall_mem_cons.mp h
    rw [List.map_cons, Ledger.noteAll, List.foldl_cons, note_of_aside heffect]
    exact ih hrest

theorem proper_of_aside {effect : Effect} (h : effect.isAside) :
    Proper document target? ledger (.did effect) := by
  cases effect with
  | asks request reply => cases h
  | replacesBody size page => cases h
  | records slot record =>
    cases slot with
    | none =>
      have hkind : record.kind = .processingSkipped := eq_of_beq h
      rw [Proper, hkind]
      exact ⟨nofun, nofun⟩
    | some slot => cases h
  | _ => trivial

theorem follows_of_aside (h : ∀ effect ∈ effects, effect.isAside) :
    Follows (Proper document target?) ledger (effects.map .did) := by
  induction effects with
  | nil => trivial
  | cons effect rest ih =>
    obtain ⟨heffect, hrest⟩ := List.forall_mem_cons.mp h
    refine ⟨proper_of_aside heffect, ?_⟩
    rw [note_of_aside heffect]
    exact ih hrest

end Aside

/-! ## What an assembly keeps -/

theorem Ledger.filled_noteAll_did (effects : List Effect) (ledger : Ledger) :
    (ledger.noteAll (effects.map .did)).filled = ledger.filled := by
  induction effects generalizing ledger with
  | nil => rfl
  | cons effect rest ih =>
    refine (ih _).trans ?_
    cases effect with
    | asks request reply => cases reply <;> rfl
    | records slot record =>
      cases slot with
      | none => rfl
      | some slot =>
        rw [note]
        split <;> rfl
    | _ => rfl

/-- There is a fragment for each of the slots, and each is there once. -/
structure Stocked (fragments : Std.TreeMap Nat Bytes) (filled : List Nat) : Prop where
  size_eq : fragments.size = filled.length
  mem_iff : ∀ slot, slot ∈ fragments ↔ slot ∈ filled

namespace Stocked

variable {fragments : Std.TreeMap Nat Bytes} {filled : List Nat}

theorem empty : Stocked {} [] :=
  ⟨rfl, fun _ => iff_of_false Std.TreeMap.not_mem_emptyc List.not_mem_nil⟩

theorem insert (h : Stocked fragments filled) {slot : Nat} (hslot : slot ∉ filled)
    (fragment : Bytes) : Stocked (fragments.insert slot fragment) (slot :: filled) := by
  have hnot : ¬ fragments.contains slot = true := fun hmem =>
    hslot ((h.mem_iff slot).mp (Std.TreeMap.contains_iff_mem.mp hmem))
  refine ⟨?_, fun other => ?_⟩
  · rw [Std.TreeMap.size_insert, if_neg hnot, h.size_eq, List.length_cons]
  · rw [Std.TreeMap.mem_insert, List.mem_cons, h.mem_iff, Std.LawfulEqCmp.compare_eq_iff_eq,
      eq_comm]

end Stocked

/-- The assembly is for the document, and has what the ledger says. -/
structure Serves (document : Page.Document) (ledger : Ledger) (assembly : Assembly) : Prop where
  document_eq : assembly.document = document
  tied : Tied assembly.outstanding ledger.inFlight
  stocked : Stocked assembly.fragments ledger.filled

theorem Serves.followAll {document : Page.Document} {ledger : Ledger} {assembly : Assembly}
    (h : Serves document ledger assembly) (effects : List Effect) :
    Serves document (ledger.noteAll (effects.map .did)) (assembly.followAll effects) := by
  obtain ⟨outstanding, hfollow⟩ := assembly.exists_followAll_eq effects
  refine ⟨?_, h.tied.followAll effects, ?_⟩
  · rw [hfollow]
    exact h.document_eq
  · rw [hfollow, Ledger.filled_noteAll_did]
    exact h.stocked

/-! ## The accounts of a document -/

/-- Every slot of the document is seen to once, and nothing is done for any other. -/
structure Sees (document : Page.Document) (ledger : Ledger) : Prop where
  balanced : ledger.Balanced
  once : ∀ slot ∈ document.pending, (ledger.account slot).tally = 1
  others : ∀ slot, slot ∉ document.pending → ledger.account slot = {}

namespace Sees

variable {document : Page.Document} {ledger : Ledger} {slot : Nat}

theorem mem_pending (h : Sees document ledger) (hslot : ledger.account slot ≠ {}) :
    slot ∈ document.pending :=
  Decidable.byContradiction fun hnot => hslot (h.others slot hnot)

theorem isSettled (h : Sees document ledger) (hslot : slot ∈ document.pending)
    (hflight : ledger.inFlight = []) : (ledger.account slot).IsSettled := by
  have htally := h.once slot hslot
  have hflying : (ledger.account slot).flying = [] := by rw [Ledger.account, hflight]; rfl
  rw [Account.tally, hflying, List.length_nil] at htally
  rw [Account.IsSettled]
  omega

/-- The slots that are filled are the filled slots of the document. -/
theorem length_filled (h : Sees document ledger) :
    ledger.filled.length = ledger.filledOf document := by
  have hfilled : ledger.filled.Nodup := List.nodup_iff_count_le_one.mpr fun slot => by
    have hcount : ledger.filled.count slot = (ledger.account slot).filled := rfl
    have htally := (h.balanced.accounts slot).tally_le
    rw [Account.tally] at htally
    omega
  have hpending : ∀ slot ∈ ledger.filled, slot ∈ document.pending := by
    refine fun slot hmem => h.mem_pending fun hnew => ?_
    have hcount : ledger.filled.count slot = 0 := congrArg Account.filled hnew
    exact List.count_eq_zero.mp hcount hmem
  rw [Ledger.filledOf, List.countP_eq_length_filter]
  refine List.Perm.length_eq ((List.perm_ext_iff_of_nodup hfilled
    (document.nodup_pending.filter _)).mpr fun slot => ?_)
  rw [List.mem_filter, List.contains_iff_mem]
  exact ⟨fun hmem => ⟨hpending slot hmem, hmem⟩, And.right⟩

/-- Effects that tend to a slot of the document and leave it seen to. -/
theorem tends {target? : Resolution} {effects : List Effect} {answered : Ledger} {after : Account}
    (h : Sees document ledger)
    (hothers : ∀ other, slot ≠ other → answered.account other = ledger.account other)
    (hbalanced : answered.Balanced) (hslot : slot ∈ document.pending)
    (htends : Tends document target? answered slot effects after) (htally : after.tally = 1)
    (hfresh : Follows Fresh answered (effects.map .did)) :
    Sees document (answered.noteAll (effects.map .did)) := by
  have hleft : ∀ other, slot ≠ other →
      (answered.noteAll (effects.map .did)).account other = ledger.account other :=
    fun other hne => ((htends.account other).trans (if_neg hne)).trans (hothers other hne)
  refine ⟨hbalanced.noteAll hfresh (htends.proper.imp fun _ _ => Proper.admits), ?_, ?_⟩
  · intro other hother
    by_cases heq : slot = other
    · rw [← heq, htends.account_self, htally]
    · rw [hleft other heq]
      exact h.once other hother
  · intro other hnot
    rw [hleft other fun heq => hnot (heq ▸ hslot)]
    exact h.others other hnot

/-- What is done first about the slots of a document sees to all of them. -/
theorem begins {stream : Stream} {effects : List Effect}
    (hall : Stream.FetchesAll stream document document.pending effects)
    (hrequests : ∀ slot ∈ document.pending, (document.request? slot).isSome)
    (hfresh : Follows Fresh {} (effects.map .did)) (size : Nat) :
    Follows (Proper document stream.target?) {} (effects.map .did) ∧
      Sees document (Ledger.noteAll {} (effects.map .did)) ∧
      Serves document (Ledger.noteAll {} (effects.map .did))
        (Assembly.followAll { document, bodySize := size } effects) := by
  obtain ⟨hproper, honce, hothers⟩ := hall.tends document.nodup_pending (fun _ hmem => hmem)
    hrequests (fun _ _ => rfl) hfresh
  have hnew : Serves document {} { document, bodySize := size } := ⟨rfl, .empty, .empty⟩
  exact ⟨hproper,
    ⟨Ledger.Balanced.new.noteAll hfresh (hproper.imp fun _ _ => Proper.admits), honce, hothers⟩,
    hnew.followAll effects⟩

/-- An answer to a fetch on its way leaves its slot seen to. -/
theorem answers (h : Sees document ledger) {assembly after : Assembly} {token : Nat} {viaAlt : Bool}
    {stream : Stream} {status : Option String} {fragment : Bytes} {effects : List Effect}
    (hserves : Serves document ledger assembly)
    (hrequests : ∀ slot ∈ document.pending, (document.request? slot).isSome)
    (hlookup : ledger.inFlight.lookup token = some ⟨slot, viaAlt⟩)
    (hanswers : Stream.Answers stream (assembly.settle token) ⟨slot, viaAlt⟩ status fragment effects
      after)
    (hfresh : Follows Fresh (ledger.answer token status) (effects.map .did)) :
    Follows (Proper document stream.target?) (ledger.answer token status) (effects.map .did) ∧
      Sees document ((ledger.answer token status).noteAll (effects.map .did)) ∧
      Serves document ((ledger.answer token status).noteAll (effects.map .did)) after := by
  obtain ⟨hflying, haccount⟩ := Ledger.account_answer h.balanced hlookup status slot
  rw [if_pos rfl] at haccount
  have hothers : ∀ other, slot ≠ other →
      (ledger.answer token status).account other = ledger.account other := fun other hne =>
    (Ledger.account_answer h.balanced hlookup status other).2.trans (if_neg hne)
  have hslot : slot ∈ document.pending := h.mem_pending fun hnew => by
    rw [hnew] at hflying
    cases hflying
  have htally := h.once slot hslot
  rw [Account.tally, hflying, List.length_singleton] at htally
  have hbalanced := h.balanced.answer token status
  have htied : Tied (assembly.settle token).outstanding (ledger.without token) :=
    hserves.tied.settle token
  cases hanswers with
  | success hsuccess =>
    rw [hsuccess] at haccount
    have hfilled : slot ∉ ledger.filled := List.count_eq_zero.mp
      (show (ledger.account slot).filled = 0 by omega)
    have hseen : ((ledger.account slot).answer true).tally = 1 := by
      simp only [Account.tally, Account.answer, List.length_nil, if_true]
      omega
    have htends : Tends document stream.target? (ledger.answer token status) slot []
        ((ledger.account slot).answer true) := .idle haccount trivial rfl
    refine ⟨trivial, h.tends hothers hbalanced hslot htends hseen hfresh, ?_⟩
    rw [List.map_nil, Ledger.noteAll, List.foldl_nil, Ledger.answer_of_success hlookup hsuccess]
    exact ⟨hserves.document_eq, htied, hserves.stocked.insert hfilled fragment⟩
  | without hfailure hrequest =>
    have hnone : document.request? slot = none := hserves.document_eq ▸ hrequest
    exact absurd (hrequests slot hslot) (by rw [hnone]; exact Bool.false_ne_true)
  | @failure request failure effects hfailure hrequest hrecovers =>
    rw [hfailure] at haccount
    have hopen : ((ledger.answer token status).account slot).tally = 0 := by
      rw [haccount]
      simp only [Account.tally, Account.answer, List.length_nil, Bool.false_eq_true, if_false]
      omega
    have hlost : ⟨slot, viaAlt⟩ ∈ (ledger.answer token status).lost := by
      rw [Ledger.answer_of_failure hlookup hfailure]
      exact List.mem_cons_self
    have hfirst : viaAlt = false → true ∉ ((ledger.answer token status).account slot).asked := by
      rintro rfl
      rw [haccount]
      exact (h.balanced.accounts slot).first (hflying ▸ List.mem_singleton_self false)
    have hsettled : Serves document (ledger.answer token status) (assembly.settle token) := by
      rw [Ledger.answer_of_failure hlookup hfailure]
      exact ⟨hserves.document_eq, htied, hserves.stocked⟩
    rw [Assembly.request?, hsettled.document_eq] at hrequest
    obtain ⟨last, htends, hlast⟩ := hrecovers.tends hslot hrequest hopen
      (fun hviaAlt => ⟨hfirst hviaAlt, hviaAlt ▸ hlost⟩) hfresh
    exact ⟨htends.proper, h.tends hothers hbalanced hslot htends hlast hfresh,
      hsettled.followAll effects⟩

/-- The page is put in its place when no fetch is on its way. -/
theorem follows_finale (h : Sees document ledger) {target? : Resolution} {assembly : Assembly}
    (hserves : Serves document ledger assembly) (hdone : assembly.isDone) (stream : Stream) :
    Follows (Proper document target?) ledger ((stream.finale assembly).map .did) := by
  have hflight : ledger.inFlight = [] := hserves.tied.isDone_iff.mp hdone
  refine ⟨fun slot hslot => h.isSettled hslot hflight, ⟨nofun, fun _ => ?_⟩, trivial⟩
  show some assembly.filled = some (ledger.filledOf document)
  rw [Assembly.filled, hserves.stocked.size_eq, h.length_filled]

end Sees
end Response
end EdgeIncludes
