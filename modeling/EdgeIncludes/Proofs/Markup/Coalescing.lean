/-
Event sequences that say the same.

`coalesce` joins adjacent outputs, and the statements about the scanner compare event
sequences after it.  What makes such comparisons compose is `coalesce_append`: the normal
form of two sequences put together depends on the normal forms of the two only.  It rests
on `prepend_prepend_output`, which says that joining output is associative whatever
stands behind it, so that no proof here needs the sequences to be in normal form.
-/
import EdgeIncludes.Markup.Event

namespace EdgeIncludes
namespace Markup
namespace Event

/-! ## Prepending -/

theorem prepend_prepend_output (front back : Bytes) (rest : List Event) :
    prepend (.output front) (prepend (.output back) rest) =
      prepend (.output (front ++ back)) rest := by
  cases front with
  | nil => rw [prepend_output_nil, List.nil_append]
  | cons b front =>
    cases back with
    | nil => rw [prepend_output_nil, List.append_nil]
    | cons c back =>
      cases rest with
      | nil => rfl
      | cons event rest =>
        cases event with
        | output bytes =>
          show [Event.output (b :: front ++ (c :: back ++ bytes))] ++ rest = _
          rw [← List.append_assoc]
          rfl
        | startTag name attributes => rfl
        | endTag name => rfl

theorem foldr_prepend_prepend (event : Event) (events acc : List Event) :
    (prepend event events).foldr prepend acc = prepend event (events.foldr prepend acc) := by
  cases event with
  | startTag name attributes => rfl
  | endTag name => rfl
  | output bytes =>
    cases bytes with
    | nil => rw [prepend_output_nil, prepend_output_nil]
    | cons b bytes =>
      cases events with
      | nil => rfl
      | cons next rest =>
        cases next with
        | startTag name attributes => rfl
        | endTag name => rfl
        | output more => exact (prepend_prepend_output (b :: bytes) more _).symm

/-! ## Normal forms -/

theorem foldr_prepend_coalesce (events acc : List Event) :
    (coalesce events).foldr prepend acc = events.foldr prepend acc := by
  induction events with
  | nil => rfl
  | cons event events ih => rw [coalesce_cons, foldr_prepend_prepend, ih, List.foldr_cons]

/-- The normal form of two sequences put together depends on their normal forms only. -/
theorem coalesce_append (front back : List Event) :
    coalesce (front ++ back) = coalesce (coalesce front ++ coalesce back) := by
  show (front ++ back).foldr prepend [] = (coalesce front ++ coalesce back).foldr prepend []
  rw [List.foldr_append, List.foldr_append, foldr_prepend_coalesce, foldr_prepend_coalesce]

@[simp] theorem coalesce_coalesce (events : List Event) :
    coalesce (coalesce events) = coalesce events :=
  foldr_prepend_coalesce events []

theorem coalesce_append_right {front other : List Event} (h : coalesce front = coalesce other)
    (back : List Event) : coalesce (front ++ back) = coalesce (other ++ back) := by
  rw [coalesce_append, h, ← coalesce_append]

theorem coalesce_append_left (front : List Event) {back other : List Event}
    (h : coalesce back = coalesce other) :
    coalesce (front ++ back) = coalesce (front ++ other) := by
  rw [coalesce_append, h, ← coalesce_append]

theorem coalesce_output_output (front back : Bytes) (rest : List Event) :
    coalesce (.output front :: .output back :: rest) =
      coalesce (.output (front ++ back) :: rest) := by
  rw [coalesce_cons, coalesce_cons, coalesce_cons, prepend_prepend_output]

end Event
end Markup
end EdgeIncludes
