/-
Output that comes in pieces.

The scanner lets text out in pieces that depend on where the body was cut, and a tag is
closed with whatever it has collected.  Neither may show in a fragment: one that takes two
pieces one after the other is the fragment that takes both at once.
-/
import EdgeIncludes.Page.Fragment

namespace EdgeIncludes
namespace Page

namespace Fragment

theorem addLiteral_ne_nil (bytes : Bytes) (segments : List Segment) :
    addLiteral bytes segments ≠ [] := by
  rw [addLiteral.eq_def]
  split <;> exact List.cons_ne_nil _ _

theorem addLiteral_cons {rest : List Segment} (hrest : rest ≠ []) (bytes : Bytes)
    (segment : Segment) :
    addLiteral bytes (segment :: rest) = segment :: addLiteral bytes rest := by
  cases segment with
  | slot number => rfl
  | literal last =>
    cases rest with
    | nil => exact absurd rfl hrest
    | cons next rest => rfl

theorem addLiteral_addLiteral (front back : Bytes) (segments : List Segment) :
    addLiteral back (addLiteral front segments) = addLiteral (front ++ back) segments := by
  induction segments with
  | nil => rfl
  | cons segment rest ih =>
    by_cases hrest : rest = []
    · subst hrest
      cases segment with
      | slot number => rfl
      | literal last =>
        show [Segment.literal (last ++ front ++ back)] = _
        rw [List.append_assoc]
        rfl
    · rw [addLiteral_cons hrest, addLiteral_cons (addLiteral_ne_nil front rest), ih,
        addLiteral_cons hrest]

@[simp] theorem pushBytes_nil (fragment : Fragment) : fragment.pushBytes [] = fragment := rfl

theorem pushBytes_of_ne_nil {bytes : Bytes} (h : bytes ≠ []) (fragment : Fragment) :
    fragment.pushBytes bytes = ⟨addLiteral bytes fragment.segments⟩ := by
  rw [pushBytes, if_neg (by rwa [List.isEmpty_iff])]

theorem pushBytes_pushBytes (fragment : Fragment) (front back : Bytes) :
    (fragment.pushBytes front).pushBytes back = fragment.pushBytes (front ++ back) := by
  by_cases hfront : front = []
  · rw [hfront, pushBytes_nil, List.nil_append]
  by_cases hback : back = []
  · rw [hback, pushBytes_nil, List.append_nil]
  have happend : front ++ back ≠ [] := List.append_ne_nil_of_left_ne_nil hfront back
  rw [pushBytes_of_ne_nil hback, pushBytes_of_ne_nil hfront, pushBytes_of_ne_nil happend,
    addLiteral_addLiteral]

end Fragment

end Page
end EdgeIncludes
