/-
What the calls on a builder do to it.

A builder does not hear in how many pieces output comes (`hear_coalesce`): what it hears is
the normal form of the events, and nothing else about them.  Exceptions commute with
output, and what they change is looked at when a tag opens and at no other time, so that an
exception at the end of a body has no effect on its page (`document_raise`).
-/
import EdgeIncludes.Page.Builder
import EdgeIncludes.Proofs.Markup.Coalescing
import EdgeIncludes.Proofs.Page.Joining

namespace EdgeIncludes

/-- An attempt, or what replaces one.  The end of such a tag ends what was raised and ignored
inside it. -/
def Tag.isBranch (tag : Tag) : Bool :=
  tag == .attempt || tag == .except

namespace Page

open Markup (Event)

/-! ## Output -/

namespace Builder

theorem deliver_deliver (builder : Builder) (first second : Fragment → Fragment) :
    (builder.deliver first).deliver second = builder.deliver (second ∘ first) := by
  obtain ⟨stack, root, requests, exceptionRaised, ignoring, silentErrors, logTags⟩ := builder
  cases stack with
  | nil => rfl
  | cons top below =>
    by_cases hretains : top.retains
    · simp only [deliver, if_pos hretains, Function.comp_apply]
    · simp only [deliver, if_neg hretains]

theorem deliver_of_id {add : Fragment → Fragment} (h : ∀ fragment, add fragment = fragment)
    (builder : Builder) : builder.deliver add = builder := by
  obtain ⟨stack, root, requests, exceptionRaised, ignoring, silentErrors, logTags⟩ := builder
  cases stack with
  | nil => simp only [deliver, h]
  | cons top below => simp only [deliver, h, ite_self]

theorem receive_output_nil (builder : Builder) : builder.receive (.output []) = builder :=
  builder.deliver_of_id fun _ => rfl

theorem receive_output_output (builder : Builder) (front back : Bytes) :
    (builder.receive (.output front)).receive (.output back) =
      builder.receive (.output (front ++ back)) := by
  rw [receive, receive, receive, deliver_deliver]
  congr 1
  funext output
  exact output.pushBytes_pushBytes front back

/-! ## Hearing -/

theorem hear_cons (builder : Builder) (event : Event) (rest : List Event) :
    builder.hear (event :: rest) =
      (((builder.receive event).hear rest).1,
        builder.eventNotices event ++ ((builder.receive event).hear rest).2) := rfl

theorem hear_append (builder : Builder) (front back : List Event) :
    builder.hear (front ++ back) =
      (((builder.hear front).1.hear back).1,
        (builder.hear front).2 ++ ((builder.hear front).1.hear back).2) := by
  induction front generalizing builder with
  | nil => rfl
  | cons event front ih => rw [List.cons_append, hear_cons, ih, hear_cons, List.append_assoc]

theorem hear_output (builder : Builder) (bytes : Bytes) (rest : List Event) :
    builder.hear (.output bytes :: rest) = (builder.receive (.output bytes)).hear rest := rfl

theorem hear_prepend (builder : Builder) (event : Event) (rest : List Event) :
    builder.hear (event.prepend rest) = builder.hear (event :: rest) := by
  cases event with
  | startTag name attributes => rfl
  | endTag name => rfl
  | output bytes =>
    cases bytes with
    | nil => rw [Event.prepend_output_nil, hear_output, receive_output_nil]
    | cons b bytes =>
      cases rest with
      | nil => rfl
      | cons next rest =>
        cases next with
        | startTag name attributes => rfl
        | endTag name => rfl
        | output more =>
          show builder.hear (.output (b :: bytes ++ more) :: rest) = _
          rw [hear_output, hear_output, hear_output, receive_output_output]

/-- A builder does not hear in how many pieces output comes. -/
theorem hear_coalesce (builder : Builder) (events : List Event) :
    builder.hear (Event.coalesce events) = builder.hear events := by
  induction events generalizing builder with
  | nil => rfl
  | cons event rest ih =>
    rw [Event.coalesce_cons, hear_prepend, hear_cons, hear_cons, ih]

end Builder

/-! ## Closing -/

namespace Builder

variable {builder : Builder} {closed parent : OpenTag} {rest : List OpenTag}

theorem closeTop_eq_of_last (h : builder.stack = [closed]) :
    builder.closeTop = { builder with
      stack := []
      root := if closed.isKept then builder.root ++ closed.output else builder.root
      exceptionRaised := builder.exceptionRaised && !closed.tag.isBranch
      ignoring := builder.ignoring && !closed.tag.isBranch } := by
  rw [closeTop, h]
  dsimp only
  cases hbranch : closed.tag == .attempt || closed.tag == .except <;>
    simp [Tag.isBranch, hbranch]

theorem closeTop_eq_of_inner (h : builder.stack = closed :: parent :: rest) :
    builder.closeTop = { builder with
      stack := parent.adopt closed :: rest
      exceptionRaised := builder.exceptionRaised && !closed.tag.isBranch
      ignoring := builder.ignoring && !closed.tag.isBranch } := by
  rw [closeTop, h]
  dsimp only
  cases hbranch : closed.tag == .attempt || closed.tag == .except <;>
    simp [Tag.isBranch, hbranch]

end Builder

/-! ## Exceptions -/

/-- The open tag without the memory of a failure. -/
def OpenTag.unmarked (opened : OpenTag) : OpenTag :=
  { opened with failed := false }

theorem OpenTag.unmarked_adopt (parent closed : OpenTag) :
    (parent.adopt closed).unmarked = parent.unmarked.adopt closed.unmarked := by
  rw [adopt]
  simp only [apply_ite unmarked]
  rfl

theorem OpenTag.map_unmarked_failInnermost (stack : List OpenTag) :
    (failInnermost stack).map unmarked = stack.map unmarked := by
  induction stack with
  | nil => rfl
  | cons top below ih =>
    rw [failInnermost]
    split
    · rfl
    · rw [List.map_cons, List.map_cons, ih]

theorem OpenTag.failInnermost_failInnermost (stack : List OpenTag) :
    failInnermost (failInnermost stack) = failInnermost stack := by
  induction stack with
  | nil => rfl
  | cons top below ih =>
    by_cases htry : top.isTry
    · have hmarked : isTry { top with failed := true } = true := htry
      rw [failInnermost, if_pos htry, failInnermost, if_pos hmarked]
    · rw [failInnermost, if_neg htry, failInnermost, if_neg htry, ih]

namespace Builder

theorem raise_raise (builder : Builder) : builder.raise.raise = builder.raise := by
  rw [raise, raise, OpenTag.failInnermost_failInnermost]

theorem raise_deliver (builder : Builder) (add : Fragment → Fragment) :
    builder.raise.deliver add = (builder.deliver add).raise := by
  obtain ⟨stack, root, requests, exceptionRaised, ignoring, silentErrors, logTags⟩ := builder
  cases stack with
  | nil => rfl
  | cons top below =>
    have hcontent : OpenTag.isTry { top with content := add top.content } = top.isTry := rfl
    by_cases hretains : top.retains
    · by_cases htry : top.isTry
      · simp only [raise, deliver, OpenTag.failInnermost, hcontent, if_pos hretains, if_pos htry]
      · simp only [raise, deliver, OpenTag.failInnermost, hcontent, if_pos hretains, if_neg htry]
    · by_cases htry : top.isTry
      · simp only [raise, deliver, OpenTag.failInnermost, if_neg hretains, if_pos htry]
      · simp only [raise, deliver, OpenTag.failInnermost, if_neg hretains, if_neg htry]

/-- The builder without the memory of exceptions. -/
def unmarked (builder : Builder) : Builder :=
  { builder with stack := builder.stack.map OpenTag.unmarked, exceptionRaised := false }

theorem unmarked_raise (builder : Builder) : builder.raise.unmarked = builder.unmarked := by
  rw [unmarked, raise, OpenTag.map_unmarked_failInnermost]
  rfl

theorem unmarked_closeTop (builder : Builder) :
    builder.closeTop.unmarked = builder.unmarked.closeTop := by
  match hstack : builder.stack with
  | [] =>
    have hunmarked : builder.unmarked.stack = [] := by rw [unmarked, hstack, List.map_nil]
    rw [closeTop, closeTop, hstack, hunmarked]
  | [closed] =>
    have hunmarked : builder.unmarked.stack = [closed.unmarked] := by
      rw [unmarked, hstack, List.map_singleton]
    rw [closeTop_eq_of_last hstack, closeTop_eq_of_last hunmarked]
    rfl
  | closed :: parent :: rest =>
    have hunmarked : builder.unmarked.stack =
        closed.unmarked :: parent.unmarked :: rest.map OpenTag.unmarked := by
      rw [unmarked, hstack, List.map_cons, List.map_cons]
    rw [closeTop_eq_of_inner hstack, closeTop_eq_of_inner hunmarked, unmarked, List.map_cons,
      OpenTag.unmarked_adopt]
    rfl

theorem unmarked_closeMany (count : Nat) (builder : Builder) :
    (closeMany count builder).unmarked = closeMany count builder.unmarked := by
  induction count generalizing builder with
  | zero => rfl
  | succ count ih => rw [closeMany, closeMany, ih, unmarked_closeTop]

theorem document_unmarked (builder : Builder) : builder.unmarked.document = builder.document := by
  have hclosed : builder.unmarked.closeAll = builder.closeAll.unmarked := by
    rw [closeAll, closeAll, unmarked_closeMany]
    show closeMany (builder.stack.map OpenTag.unmarked).length _ = _
    rw [List.length_map]
  rw [document, document, hclosed]
  rfl

/-- At the end of a body it is too late to raise an exception. -/
theorem document_raise (builder : Builder) : builder.raise.document = builder.document := by
  rw [← document_unmarked builder.raise, unmarked_raise, document_unmarked]

theorem notices_take_unmarked (builder : Builder) :
    builder.unmarked.notices .take = builder.notices .take := by
  simp only [notices, closeNotices, traced, unmarked, List.isEmpty_map, List.length_map,
    ← List.map_take, List.map_map]
  rfl

theorem notices_take_raise (builder : Builder) :
    builder.raise.notices .take = builder.notices .take := by
  rw [← notices_take_unmarked builder.raise, unmarked_raise, notices_take_unmarked]

end Builder
end Page
end EdgeIncludes
