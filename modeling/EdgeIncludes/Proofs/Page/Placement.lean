/-
Where a slot of a page comes from.

Output is merged, dropped and set aside while tags are closed, and a tag need not be closed in the
order in which it was opened.  None of this makes a slot: what holds a slot after a call held it
before, or the call opens an include whose request is registered under the number of the slot just
then (`holds_after`).  Each slot of a page was therefore put there at one place among the calls
(`exists_placed`, `Placed.unique`), and its request is what was read off the attributes that were
given at that place (`Placed.request?`).
-/
import EdgeIncludes.Proofs.Page.Slots
import Mathlib.Data.List.Basic
import Mathlib.Data.List.Induction

namespace EdgeIncludes
namespace Page

open Markup (Attribute)

/-! ## Fragments -/

namespace Fragment

def slots (fragment : Fragment) : List Nat :=
  fragment.atoms.filterMap Atom.slot?

theorem slots_pushBytes (fragment : Fragment) (bytes : Bytes) :
    (fragment.pushBytes bytes).slots = fragment.slots := by
  rw [slots, atoms_pushBytes, List.filterMap_append, filterMap_slot?_map_byte, List.append_nil]
  rfl

theorem slots_pushSlot (fragment : Fragment) (number : Nat) :
    (fragment.pushSlot number).slots = fragment.slots ++ [number] := by
  rw [slots, atoms_pushSlot, List.filterMap_append]
  rfl

theorem slots_append (fragment other : Fragment) :
    (fragment ++ other).slots = fragment.slots ++ other.slots := by
  rw [slots, atoms_append, List.filterMap_append]
  rfl

end Fragment

/-! ## Open tags -/

namespace OpenTag

variable {opened parent closed : OpenTag} {slot : Nat}

/-- The slot is in what the tag has collected. -/
def Holds (opened : OpenTag) (slot : Nat) : Prop :=
  slot ∈ opened.content.slots ∨ slot ∈ (opened.fallback.getD .empty).slots

theorem holds_of_mem_output (h : slot ∈ opened.output.slots) : opened.Holds slot := by
  rw [output] at h
  split at h
  · cases hfallback : opened.fallback with
    | none => exact Or.inl (by rwa [hfallback] at h)
    | some fallback => exact Or.inr (by rwa [hfallback] at h ⊢)
  · exact Or.inl h

/-- A tag gets its slots from what is closed inside it. -/
theorem holds_adopt (h : (parent.adopt closed).Holds slot) :
    parent.Holds slot ∨ closed.Holds slot := by
  have hjoined : ∀ {fragment : Fragment}, slot ∈ (fragment ++ closed.output).slots →
      slot ∈ fragment.slots ∨ closed.Holds slot := by
    intro fragment hmem
    rw [Fragment.slots_append, List.mem_append] at hmem
    exact hmem.imp_right holds_of_mem_output
  rw [adopt] at h
  repeat' split at h
  · exact h.elim (fun hcontent => (hjoined hcontent).imp_left .inl) fun h => .inl (.inr h)
  · exact h.elim (fun h => .inl (.inl h)) fun hfallback => (hjoined hfallback).imp_left .inr
  · exact .inl h
  · exact h.elim (fun hcontent => (hjoined hcontent).imp_left .inl) fun h => .inl (.inr h)
  · exact .inl h

theorem exists_holds_failInnermost {stack : List OpenTag}
    (h : ∃ opened ∈ failInnermost stack, opened.Holds slot) :
    ∃ opened ∈ stack, opened.Holds slot := by
  induction stack with
  | nil => exact h
  | cons top below ih =>
    rw [failInnermost] at h
    split at h <;> simp only [List.exists_mem_cons_iff] at h ⊢
    · exact h
    · exact h.imp_right ih

end OpenTag

/-! ## Builders -/

namespace Builder

variable {builder : Builder} {call : Call} {slot : Nat}

/-- The slot is in what was collected, by an open tag or outside of all tags. -/
def Holds (builder : Builder) (slot : Nat) : Prop :=
  slot ∈ builder.root.slots ∨ ∃ opened ∈ builder.stack, opened.Holds slot

/-- The slot goes into the output with the call. -/
def Places (builder : Builder) (call : Call) (slot : Nat) : Prop :=
  ¬ builder.Holds slot ∧ (builder.after call).Holds slot

/-- The call opens an include, and its request is registered under the number. -/
inductive Registers (builder : Builder) : Call → Nat → Include.Request → Prop where
  | inclusion {name : Bytes} {attributes : List Attribute} {request : Include.Request}
      (hname : Tag.ofName? name = some .inclusion)
      (hrequest : Include.Request.ofAttributes attributes = .ok request)
      (hrequests : (builder.after (.event (.startTag name attributes))).requests =
        builder.requests ++ [request]) :
      Registers builder (.event (.startTag name attributes)) builder.nextNumber request

theorem not_holds_fresh (silentErrors logTags : Bool) (slot : Nat) :
    ¬ (fresh silentErrors logTags).Holds slot := by
  rintro (h | ⟨opened, hmem, -⟩)
  · exact List.not_mem_nil h
  · exact List.not_mem_nil hmem

theorem Holds.congr {other : Builder} (h : builder.Holds slot) (hroot : builder.root = other.root)
    (hstack : builder.stack = other.stack) : other.Holds slot := by
  rwa [Holds, hroot, hstack] at h

theorem holds_deliver {add : Fragment → Fragment} {added : List Nat}
    (hadd : ∀ fragment, (add fragment).slots = fragment.slots ++ added)
    (h : (builder.deliver add).Holds slot) : builder.Holds slot ∨ slot ∈ added := by
  have hmem : ∀ {fragment : Fragment}, slot ∈ (add fragment).slots →
      slot ∈ fragment.slots ∨ slot ∈ added := by
    intro fragment hmem
    rwa [hadd, List.mem_append] at hmem
  rw [deliver.eq_def] at h
  split at h
  · exact h.elim (fun hroot => (hmem hroot).imp_left .inl) fun h => .inl (.inr h)
  · rename_i top below hstack
    split at h
    · rw [Holds, List.exists_mem_cons_iff] at h
      rw [Holds, hstack, List.exists_mem_cons_iff]
      rcases h with hroot | (hcontent | hfallback) | hbelow
      · exact .inl (.inl hroot)
      · exact (hmem hcontent).imp_left fun h => .inr (.inl (.inl h))
      · exact .inl (.inr (.inl (.inr hfallback)))
      · exact .inl (.inr (.inr hbelow))
    · exact .inl h

theorem holds_raise (h : builder.raise.Holds slot) : builder.Holds slot :=
  h.imp_right OpenTag.exists_holds_failInnermost

theorem holds_closeTop (h : builder.closeTop.Holds slot) : builder.Holds slot := by
  match hstack : builder.stack with
  | [] => rwa [closeTop, hstack] at h
  | [closed] =>
    rw [closeTop_eq_of_last hstack, Holds] at h
    rw [Holds, hstack, List.exists_mem_cons_iff]
    rcases h with hroot | ⟨opened, hmem, -⟩
    · dsimp only at hroot
      split at hroot
      · rw [Fragment.slots_append, List.mem_append] at hroot
        exact hroot.imp_right fun h => .inl (OpenTag.holds_of_mem_output h)
      · exact .inl hroot
    · exact absurd hmem List.not_mem_nil
  | closed :: parent :: rest =>
    rw [closeTop_eq_of_inner hstack, Holds, List.exists_mem_cons_iff] at h
    rw [Holds, hstack, List.exists_mem_cons_iff, List.exists_mem_cons_iff]
    rcases h with hroot | hadopted | hrest
    · exact .inl hroot
    · exact .inr ((OpenTag.holds_adopt hadopted).elim (fun h => .inr (.inl h)) .inl)
    · exact .inr (.inr (.inr hrest))

theorem holds_closeMany {count : Nat} (h : (closeMany count builder).Holds slot) :
    builder.Holds slot := by
  induction count generalizing builder with
  | zero => exact h
  | succ count ih => exact holds_closeTop (ih h)

theorem holds_of_mem_document (h : slot ∈ builder.document.slots) : builder.Holds slot := by
  rw [Document.slots_eq] at h
  exact holds_closeMany (Or.inl h)

/-! ## Calls -/

theorem holds_register {attributes : List Attribute}
    (h : (builder.register attributes).Holds slot) :
    builder.Holds slot ∨ slot = builder.nextNumber ∧
      ∃ request, Include.Request.ofAttributes attributes = .ok request ∧
        (builder.register attributes).requests = builder.requests ++ [request] := by
  rw [register] at h ⊢
  cases hread : Include.Request.ofAttributes attributes with
  | ok request =>
    rw [hread] at h
    refine (holds_deliver (fun output => output.slots_pushSlot builder.nextNumber) h).imp ?_ ?_
    · exact fun h => h.congr rfl rfl
    · exact fun hmem => ⟨List.mem_singleton.mp hmem, request, rfl, requests_deliver _ _⟩
  | error refusal =>
    rw [hread] at h
    dsimp only at h
    split at h
    · exact .inl h
    · exact .inl (holds_raise h)

/-- What holds a slot held it before, or the slot is that of an include that opens. -/
theorem holds_after (h : (builder.after call).Holds slot) :
    builder.Holds slot ∨ ∃ request, builder.Registers call slot request := by
  cases call with
  | raise => exact .inl (holds_raise h)
  | take => exact absurd h (not_holds_fresh _ _ _)
  | event event =>
    cases event with
    | output bytes =>
      refine (holds_deliver (fun output => ?_) h).imp_right fun hmem => absurd hmem List.not_mem_nil
      rw [output.slots_pushBytes, List.append_nil]
    | endTag name =>
      rw [after, receive] at h
      split at h
      · exact .inl (holds_closeMany h)
      · exact .inl h
    | startTag name attributes =>
      cases hname : Tag.ofName? name with
      | none =>
        rw [after, receive, hname] at h
        exact .inl h
      | some tag =>
        have hopened : builder.after (.event (.startTag name attributes)) =
            builder.openTag tag attributes := by
          rw [after, receive, hname]
        have hprepared : (builder.prepare tag attributes).Holds slot := by
          rw [hopened, openTag, Holds, List.exists_mem_cons_iff] at h
          rcases h with hroot | (hcontent | hfallback) | hbelow
          · exact .inl hroot
          · exact absurd hcontent List.not_mem_nil
          · exact absurd hfallback List.not_mem_nil
          · exact .inr hbelow
        by_cases htag : tag = .inclusion ∧ builder.ignoring = false
        · obtain ⟨rfl, hignoring⟩ := htag
          have hprepare : builder.prepare .inclusion attributes = builder.register attributes := by
            rw [prepare, hignoring, if_neg Bool.false_ne_true]
          rw [hprepare] at hprepared
          refine (holds_register hprepared).imp_right ?_
          rintro ⟨rfl, request, hrequest, hrequests⟩
          refine ⟨request, .inclusion hname hrequest ?_⟩
          rw [hopened, openTag, hprepare]
          exact hrequests
        · refine .inl (hprepared.congr ?_ ?_)
          all_goals
            cases tag with
            | inclusion =>
              rw [prepare, if_pos (by simpa using htag)]
            | _ => rfl

theorem Places.registers (h : builder.Places call slot) :
    ∃ request, builder.Registers call slot request :=
  (holds_after h.2).resolve_left h.1

theorem Registers.request? {request : Include.Request} (h : builder.Registers call slot request) :
    (builder.after call).requests[slot]? = some request := by
  cases h with
  | inclusion hname hrequest hrequests =>
    rw [hrequests]
    exact List.getElem?_concat_length

theorem Registers.request?_before {request : Include.Request}
    (h : builder.Registers call slot request) : builder.requests[slot]? = none := by
  cases h with
  | inclusion hname hrequest hrequests => exact List.getElem?_eq_none (Nat.le_refl _)

theorem requests_after (builder : Builder) (hcall : call ≠ .take) :
    builder.requests <+: (builder.after call).requests := by
  cases call with
  | take => exact absurd rfl hcall
  | raise => exact List.prefix_refl _
  | event event =>
    rw [after, requests_receive]
    exact List.prefix_append _ _

end Builder

/-! ## Runs -/

/-- The slot went into the output at the place, and no document was taken since. -/
def Placed (start : Builder × History) (calls : List Builder.Call) (slot place : Nat) : Prop :=
  Since (fun builder _ call => builder.Places call slot) (fun _ _ call => call = .take)
    start calls place

variable {start : Builder × History} {calls : List Builder.Call} {slot place other : Nat}

theorem Placed.request? (h : Placed start calls slot place) :
    ∃ name attributes request, calls[place]? = some (.event (.startTag name attributes)) ∧
      Tag.ofName? name = some .inclusion ∧
      Include.Request.ofAttributes attributes = .ok request ∧
      (calls.foldl observe start).1.requests[slot]? = some request := by
  induction calls using List.reverseRecOn with
  | nil => exact absurd h.1.lt_length (Nat.not_lt_zero _)
  | append_singleton calls call ih =>
    rw [List.foldl_append, List.foldl_cons, List.foldl_nil, observe]
    rcases since_snoc.mp h with ⟨hearlier, hcall⟩ | ⟨rfl, hplaces⟩
    · obtain ⟨name, attributes, request, hstart, hname, hread, hrequest⟩ := ih hearlier
      refine ⟨name, attributes, request, ?_, hname, hread, ?_⟩
      · rw [List.getElem?_append_left hearlier.1.lt_length, hstart]
      · obtain ⟨hlt, -⟩ := List.getElem?_eq_some_iff.mp hrequest
        obtain ⟨more, hmore⟩ := (calls.foldl observe start).1.requests_after hcall
        rw [← hmore, List.getElem?_append_left hlt, hrequest]
    · obtain ⟨request, hregisters⟩ := hplaces.registers
      have hrequest := hregisters.request?
      cases hregisters with
      | inclusion hname hread hrequests =>
        exact ⟨_, _, request, List.getElem?_concat_length, hname, hread, hrequest⟩

/-- The number of a slot is given once. -/
theorem Placed.unique (h : Placed start calls slot place) (hother : Placed start calls slot other) :
    other = place := by
  induction calls using List.reverseRecOn with
  | nil => exact absurd h.1.lt_length (Nat.not_lt_zero _)
  | append_singleton calls call ih =>
    have hnew : ∀ {place}, Placed start calls slot place →
        ¬ (calls.foldl observe start).1.Places call slot := by
      intro place hplaced hplaces
      obtain ⟨name, attributes, request, -, -, -, hrequest⟩ := hplaced.request?
      obtain ⟨another, hregisters⟩ := hplaces.registers
      rw [hregisters.request?_before] at hrequest
      cases hrequest
    rcases since_snoc.mp h with ⟨hearlier, -⟩ | ⟨rfl, hplaces⟩ <;>
      rcases since_snoc.mp hother with ⟨hbefore, -⟩ | ⟨rfl, hlast⟩
    · exact ih hearlier hbefore
    · exact absurd hlast (hnew hearlier)
    · exact absurd hplaces (hnew hbefore)
    · rfl

theorem exists_placed (hstart : ¬ start.1.Holds slot)
    (h : (calls.foldl observe start).1.Holds slot) : ∃ place, Placed start calls slot place := by
  induction calls using List.reverseRecOn with
  | nil => exact absurd h hstart
  | append_singleton calls call ih =>
    rw [List.foldl_append, List.foldl_cons, List.foldl_nil, observe] at h
    by_cases hbefore : (calls.foldl observe start).1.Holds slot
    · obtain ⟨place, hplaced⟩ := ih hbefore
      refine ⟨place, since_snoc.mpr (.inl ⟨hplaced, ?_⟩)⟩
      rintro rfl
      exact Builder.not_holds_fresh _ _ _ h
    · exact ⟨calls.length, since_snoc.mpr (.inr ⟨rfl, hbefore, h⟩)⟩

end Page
end EdgeIncludes
