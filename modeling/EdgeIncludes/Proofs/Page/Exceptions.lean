/-
What makes a branch stand.

An exception leaves two traces.  The innermost group is marked as failed, and the builder itself
knows that an exception was raised, until an attempt begins or a branch ends.  A branch that opens
inside a group stands if the group is marked, and it stands as well if the builder still knows of
an exception, whichever group that was raised in and whether or not it was raised in any
(`retainsBranch_iff`).

Both traces are read off the calls: the mark says that an exception was raised while the group was
the innermost one, and what the builder knows says that one was raised and nothing has settled it
since.
-/
import EdgeIncludes.Proofs.Page.Growth
import EdgeIncludes.Proofs.Page.Selection
import Mathlib.Data.List.Induction
import Mathlib.Tactic.IntervalCases

namespace EdgeIncludes
namespace Page

open Markup (Attribute Event)

/-! ## Calls that raise and calls that settle -/

namespace Builder

/-- To open the tag is a failure: it is an include without a source, which is not ignored, and
errors are not silent. -/
def misses (builder : Builder) (tag : Tag) (attributes : List Attribute) : Bool :=
  match tag with
  | .inclusion =>
    (Include.givenValue? "src" attributes).isNone && !builder.ignoring && !builder.silentErrors
  | _ => false

/-- The call raises an exception: it asks for one, or it opens a tag and that is a failure. -/
def raises (builder : Builder) : Call → Bool
  | .raise => true
  | .event (.startTag name attributes) =>
    (Tag.ofName? name).any fun tag => builder.misses tag attributes
  | _ => false

/-- What was raised before the call does not matter after it: an attempt begins, or an attempt or
what replaces one ends. -/
def settles (builder : Builder) : Call → Bool
  | .event (.startTag name _) => Tag.ofName? name = some .attempt
  | .event (.endTag name) =>
    match Tag.ofName? name with
    | some tag =>
      (builder.stack.take ((builder.closedBy? tag).getD 0)).any fun opened => opened.tag.isBranch
    | none => false
  | .take => true
  | _ => false

end Builder

/-- The number of the innermost group that is open. -/
def History.group? (history : History) : Option Nat :=
  (history.frames.find? Frame.isGroup).map Frame.number

/-! ## What went before -/

/-- An exception was raised while the group was the innermost one. -/
def RaisedWithin (start : Builder × History) (calls : List Builder.Call) (number : Nat) : Prop :=
  ∃ place, Occurs (fun builder history call =>
    builder.raises call ∧ history.group? = some number) start calls place

/-- An exception was raised, and nothing settled it since. -/
def Unsettled (start : Builder × History) (calls : List Builder.Call) : Prop :=
  ∃ place, Since (fun builder _ call => builder.raises call)
    (fun builder _ call => builder.settles call) start calls place

section Places

variable {start : Builder × History} {calls : List Builder.Call} {call : Builder.Call}
  {number : Nat}

theorem raisedWithin_snoc :
    RaisedWithin start (calls ++ [call]) number ↔ RaisedWithin start calls number ∨
      (calls.foldl observe start).1.raises call ∧
        (calls.foldl observe start).2.group? = some number := by
  simp only [RaisedWithin, occurs_snoc, exists_or, exists_eq_left]

end Places

/-! ## What the builder knows -/

namespace Builder

variable {builder : Builder}

@[simp] theorem exceptionRaised_deliver (builder : Builder) (add : Fragment → Fragment) :
    (builder.deliver add).exceptionRaised = builder.exceptionRaised := by
  rw [deliver.eq_def]
  repeat' split
  all_goals rfl

theorem ofAttributes_eq_error_iff {attributes : List Attribute} :
    (∃ refusal, Include.Request.ofAttributes attributes = .error refusal) ↔
      (Include.givenValue? "src" attributes).isNone := by
  rw [Include.Request.ofAttributes]
  cases Include.givenValue? "src" attributes <;> simp

/-- An include that is not ignored is registered, or it is a failure if errors are not silent. -/
theorem exceptionRaised_register (builder : Builder) (attributes : List Attribute) :
    (builder.register attributes).exceptionRaised = (builder.exceptionRaised ||
      ((Include.givenValue? "src" attributes).isNone && !builder.silentErrors)) := by
  have hsource := @ofAttributes_eq_error_iff attributes
  rw [register]
  cases hread : Include.Request.ofAttributes attributes with
  | ok request =>
    have hgiven : (Include.givenValue? "src" attributes).isNone = false := by
      rw [← Bool.not_eq_true, ← hsource, hread]
      rintro ⟨refusal, hrefusal⟩
      cases hrefusal
    rw [hgiven, Bool.false_and, Bool.or_false]
    exact exceptionRaised_deliver _ _
  | error refusal =>
    rw [hsource.mp ⟨refusal, hread⟩, Bool.true_and]
    cases hsilent : builder.silentErrors with
    | true => exact (Bool.or_false _).symm
    | false => exact (Bool.or_true _).symm

theorem exceptionRaised_prepare (builder : Builder) (tag : Tag) (attributes : List Attribute) :
    (builder.prepare tag attributes).exceptionRaised =
      (builder.misses tag attributes || builder.exceptionRaised && !decide (tag = .attempt)) := by
  cases tag with
  | inclusion =>
    dsimp only [prepare, misses]
    cases hignoring : builder.ignoring with
    | true => simp
    | false => simp [exceptionRaised_register, Bool.or_comm]
  | _ => simp [prepare, misses]

theorem exceptionRaised_closeTop (builder : Builder) :
    builder.closeTop.exceptionRaised = (builder.exceptionRaised &&
      !(builder.stack.take 1).any fun opened => opened.tag.isBranch) := by
  match hstack : builder.stack with
  | [] => simp [closeTop, hstack]
  | [closed] => simp [closeTop_eq_of_last hstack]
  | closed :: parent :: rest => simp [closeTop_eq_of_inner hstack]

theorem map_tag_closeTop (builder : Builder) :
    builder.closeTop.stack.map OpenTag.tag = (builder.stack.map OpenTag.tag).tail := by
  match hstack : builder.stack with
  | [] => simp [closeTop, hstack]
  | [closed] => simp [closeTop_eq_of_last hstack]
  | closed :: parent :: rest => simp [closeTop_eq_of_inner hstack, OpenTag.adopt_tag]

/-- A flag that the end of a branch clears is cleared if a branch is among the tags closed. -/
theorem flag_closeMany {flag : Builder → Bool}
    (hclose : ∀ builder, flag builder.closeTop =
      (flag builder && !(builder.stack.take 1).any fun opened => opened.tag.isBranch))
    (count : Nat) (builder : Builder) :
    flag (closeMany count builder) = (flag builder &&
      !(builder.stack.take count).any fun opened => opened.tag.isBranch) := by
  have htags : ∀ (stack : List OpenTag) (count : Nat),
      ((stack.take count).any fun opened => opened.tag.isBranch) =
        ((stack.map OpenTag.tag).take count).any Tag.isBranch := by
    intro stack count
    rw [← List.map_take, List.any_map]
    rfl
  induction count generalizing builder with
  | zero => simp [closeMany]
  | succ count ih =>
    rw [closeMany, ih, hclose, htags, htags, htags, map_tag_closeTop]
    cases builder.stack.map OpenTag.tag with
    | nil => simp
    | cons tag rest => simp [Bool.and_assoc]

/-- An exception is known of if the call raises one, or if one was known of and the call does not
settle it. -/
theorem exceptionRaised_after (builder : Builder) (call : Call) :
    (builder.after call).exceptionRaised =
      (builder.raises call || builder.exceptionRaised && !builder.settles call) := by
  cases call with
  | raise => rfl
  | take => exact (Bool.and_false _).symm
  | event event =>
    cases event with
    | output bytes => simp [after, receive, raises, settles]
    | endTag name =>
      dsimp only [after, receive, raises, settles]
      cases Tag.ofName? name with
      | none => simp
      | some tag => exact flag_closeMany exceptionRaised_closeTop _ builder
    | startTag name attributes =>
      dsimp only [after, receive, raises, settles]
      cases Tag.ofName? name with
      | none => simp
      | some tag =>
        have hopened : (builder.openTag tag attributes).exceptionRaised =
            (builder.prepare tag attributes).exceptionRaised := rfl
        simpa [hopened] using exceptionRaised_prepare builder tag attributes

end Builder

/-- A flag that some calls set and others clear is set just if a call has set it and none has
cleared it since. -/
theorem flag_iff_exists_since {flag : Builder → Bool} {sets clears : Builder → Builder.Call → Bool}
    (hafter : ∀ builder call,
      flag (builder.after call) = (sets builder call || flag builder && !clears builder call))
    {start : Builder × History} (hstart : flag start.1 = false) (calls : List Builder.Call) :
    flag (calls.foldl observe start).1 ↔
      ∃ place, Since (fun builder _ call => sets builder call)
        (fun builder _ call => clears builder call) start calls place := by
  induction calls using List.reverseRecOn with
  | nil =>
    refine iff_of_false (Bool.eq_false_iff.mp hstart) ?_
    rintro ⟨place, hset, -⟩
    exact Nat.not_lt_zero _ hset.lt_length
  | append_singleton calls call ih =>
    simp only [since_snoc, exists_or, exists_eq_left, exists_and_right]
    rw [← ih, List.foldl_append, List.foldl_cons, List.foldl_nil, observe, hafter, or_comm]
    simp

theorem exceptionRaised_iff_unsettled {start : Builder × History}
    (hstart : start.1.exceptionRaised = false) (calls : List Builder.Call) :
    (calls.foldl observe start).1.exceptionRaised ↔ Unsettled start calls :=
  flag_iff_exists_since Builder.exceptionRaised_after hstart calls

/-! ## What the groups know -/

/-- A group is marked as failed just if its number is one of those given. -/
def Marked (raised : Nat → Prop) : List OpenTag → List Frame → Prop :=
  List.Forall₂ fun opened frame => opened.isTry → (opened.failed ↔ raised frame.number)

namespace Marked

variable {raised other : Nat → Prop} {builder : Builder} {stack : List OpenTag}
  {frames : List Frame}

theorem congr (h : Marked raised stack frames)
    (hsame : ∀ frame ∈ frames, (raised frame.number ↔ other frame.number)) :
    Marked other stack frames := by
  induction h with
  | nil => exact .nil
  | cons hfirst hrest ih =>
    obtain ⟨hframe, hframes⟩ := List.forall_mem_cons.mp hsame
    exact .cons (fun htry => (hfirst htry).trans hframe) (ih hframes)

theorem deliver (h : Marked raised builder.stack frames) (add : Fragment → Fragment) :
    Marked raised (builder.deliver add).stack frames := by
  have hstack : (builder.deliver add).stack = builder.stack.modifyHead (OpenTag.collect add) := by
    rw [Builder.deliver_eq_grown]
    rfl
  rw [hstack]
  generalize builder.stack = stack at h
  cases h with
  | nil => exact .nil
  | @cons opened frame below rest hfirst hrest =>
    have hfailed : (opened.collect add).failed = opened.failed := by
      rw [OpenTag.collect]
      split <;> rfl
    refine .cons (fun htry => ?_) hrest
    rw [OpenTag.isTry, OpenTag.collect_tag] at htry
    rw [hfailed]
    exact hfirst htry

/-- The innermost group is marked, and no other one has its number. -/
theorem fail (h : Marked raised stack frames)
    (htags : stack.map OpenTag.tag = frames.map Frame.tag)
    (hnodup : (frames.map Frame.number).Nodup) :
    Marked (fun number => raised number ∨
        (frames.find? Frame.isGroup).map Frame.number = some number)
      (OpenTag.failInnermost stack) frames := by
  induction h with
  | nil => exact .nil
  | @cons opened frame below rest hfirst hrest ih =>
    obtain ⟨htag, htags⟩ := List.cons.inj htags
    obtain ⟨hframe, hnodup⟩ := List.nodup_cons.mp hnodup
    have hgroup : opened.isTry = frame.isGroup := by rw [OpenTag.isTry, htag, Frame.isGroup]
    rw [OpenTag.failInnermost, hgroup, List.find?_cons]
    cases hframes : frame.isGroup with
    | true =>
      have hbelow : Marked (fun number => raised number ∨ some frame.number = some number) below
          rest := by
        refine congr hrest fun inner hmem => (or_iff_left fun heq => hframe ?_).symm
        exact Option.some.inj heq ▸ List.mem_map_of_mem hmem
      exact .cons (fun _ => iff_of_true rfl (Or.inr rfl)) hbelow
    | false =>
      refine .cons (fun htry => ?_) (ih htags hnodup)
      rw [hgroup, hframes] at htry
      cases htry

theorem closeTop (h : Marked raised builder.stack frames) :
    Marked raised builder.closeTop.stack frames.tail := by
  generalize hstack : builder.stack = stack at h
  match h with
  | .nil =>
    have hclosed : builder.closeTop = builder := by rw [Builder.closeTop, hstack]
    rw [hclosed, hstack]
    exact .nil
  | .cons hfirst .nil =>
    rw [Builder.closeTop_eq_of_last hstack]
    exact .nil
  | .cons hfirst (.cons hsecond hrest) =>
    rw [Builder.closeTop_eq_of_inner hstack]
    refine .cons (fun htry => ?_) hrest
    rw [OpenTag.adopt_failed]
    exact hsecond (by rwa [OpenTag.isTry, OpenTag.adopt_tag] at htry)

theorem closeMany (h : Marked raised builder.stack frames) (count : Nat) :
    Marked raised (Builder.closeMany count builder).stack (frames.drop count) := by
  induction count generalizing builder frames with
  | zero => exact h
  | succ count ih =>
    rw [← List.drop_tail]
    exact ih h.closeTop

theorem innermostFailed_iff (h : Marked raised stack frames)
    (htags : stack.map OpenTag.tag = frames.map Frame.tag) :
    OpenTag.innermostFailed stack ↔
      ∃ number, (frames.find? Frame.isGroup).map Frame.number = some number ∧ raised number := by
  induction h with
  | nil => simp [OpenTag.innermostFailed]
  | @cons opened frame below rest hfirst hrest ih =>
    obtain ⟨htag, htags⟩ := List.cons.inj htags
    have hgroup : opened.isTry = frame.isGroup := by rw [OpenTag.isTry, htag, Frame.isGroup]
    rw [OpenTag.innermostFailed, List.find?_cons, List.find?_cons, hgroup]
    cases hframes : frame.isGroup with
    | true => simpa using hfirst (hgroup.trans hframes)
    | false => exact ih htags

end Marked

namespace Describes

variable {builder : Builder} {history : History} {raised : Nat → Prop}

theorem group?_lt (h : Describes builder history) {number : Nat}
    (hgroup : history.group? = some number) : number < history.opened := by
  obtain ⟨frame, hframe, rfl⟩ := Option.map_eq_some_iff.mp hgroup
  exact h.open_lt frame (List.mem_of_find?_eq_some hframe)

theorem marked_raise (h : Describes builder history)
    (hmarked : Marked raised builder.stack history.frames) :
    Marked (fun number => raised number ∨ history.group? = some number) builder.raise.stack
      history.frames :=
  hmarked.fail h.explains.tags h.nodup

/-- The number that a tag gets when it opens is that of no tag before it. -/
theorem frames_openTag (history : History) (builder : Builder) (tag : Tag)
    (attributes : List Attribute) :
    (history.openTag builder tag attributes).frames =
        ⟨history.opened, tag, tag == .except && !builder.branchStands⟩ :: history.frames ∧
      (history.openTag builder tag attributes).opened = history.opened + 1 := by
  have hregister : (history.register builder attributes).frames = history.frames ∧
      (history.register builder attributes).opened = history.opened := by
    rw [History.register]
    repeat' split
    all_goals exact ⟨rfl, rfl⟩
  rw [History.openTag]
  split
  · rw [History.push, hregister.1, hregister.2]
    exact ⟨rfl, rfl⟩
  · exact ⟨rfl, rfl⟩

theorem marked_register (h : Describes builder history)
    (hmarked : Marked raised builder.stack history.frames) (attributes : List Attribute) :
    Marked (fun number => raised number ∨
        ((Include.givenValue? "src" attributes).isNone && !builder.silentErrors) ∧
          history.group? = some number)
      (builder.register attributes).stack history.frames := by
  have hsource := @Builder.ofAttributes_eq_error_iff attributes
  rw [Builder.register]
  cases hread : Include.Request.ofAttributes attributes with
  | ok request =>
    have hgiven : ¬ (Include.givenValue? "src" attributes).isNone := by
      rw [← hsource, hread]
      rintro ⟨refusal, hrefusal⟩
      cases hrefusal
    have hregistered : Marked raised
        { builder with requests := builder.requests ++ [request] }.stack history.frames := hmarked
    exact (hregistered.deliver _).congr fun frame _ => by simp [hgiven]
  | error refusal =>
    have hgiven : (Include.givenValue? "src" attributes).isNone := hsource.mp ⟨refusal, hread⟩
    cases hsilent : builder.silentErrors with
    | true => exact hmarked.congr fun frame _ => by simp
    | false => exact (h.marked_raise hmarked).congr fun frame _ => by simp [hgiven]

theorem marked_prepare (h : Describes builder history)
    (hmarked : Marked raised builder.stack history.frames) (tag : Tag)
    (attributes : List Attribute) :
    Marked (fun number => raised number ∨ builder.misses tag attributes ∧
        history.group? = some number)
      (builder.prepare tag attributes).stack history.frames := by
  cases tag with
  | inclusion =>
    dsimp only [Builder.prepare, Builder.misses]
    cases hignoring : builder.ignoring with
    | true => exact hmarked.congr fun frame _ => by simp
    | false =>
      rw [if_neg Bool.false_ne_true]
      exact (h.marked_register hmarked attributes).congr fun frame _ => by simp
  | _ => exact hmarked.congr fun frame _ => by simp [Builder.misses]

/-- The innermost group is marked by the calls that raise an exception, and no mark changes
otherwise. -/
theorem marked_after (h : Describes builder history)
    (hmarked : Marked raised builder.stack history.frames)
    (hraised : ∀ number, raised number → number < history.opened) {call : Builder.Call}
    (hcall : call ≠ .take) :
    Marked (fun number => raised number ∨ builder.raises call ∧ history.group? = some number)
      (builder.after call).stack (history.after builder call).frames := by
  have hquiet : ∀ {stack : List OpenTag} {frames : List Frame}, Marked raised stack frames →
      Marked (fun number => raised number ∨ false = true ∧ history.group? = some number)
        stack frames := fun hsame => hsame.congr fun frame _ => by simp
  cases call with
  | take => exact absurd rfl hcall
  | raise => exact (h.marked_raise hmarked).congr fun frame _ => by simp [Builder.raises]
  | event event =>
    cases event with
    | output bytes => exact hquiet (hmarked.deliver _)
    | endTag name =>
      dsimp only [Builder.after, Builder.receive, Builder.raises, History.after]
      cases Tag.ofName? name with
      | none => exact hquiet hmarked
      | some tag =>
        dsimp only
        rw [Builder.closeTag, h.closedBy?_eq, History.closeTag, History.frames_closeMany]
        exact hquiet (hmarked.closeMany _)
    | startTag name attributes =>
      dsimp only [Builder.after, Builder.receive, Builder.raises, History.after]
      cases Tag.ofName? name with
      | none => exact hquiet hmarked
      | some tag =>
        dsimp only [Option.any_some]
        rw [(frames_openTag history builder tag attributes).1]
        refine .cons (fun _ => iff_of_false Bool.false_ne_true ?_)
          (h.marked_prepare hmarked tag attributes)
        rintro (hnew | ⟨-, hgroup⟩)
        · exact Nat.lt_irrefl _ (hraised _ hnew)
        · exact Nat.lt_irrefl _ (h.group?_lt hgroup)

end Describes

theorem History.opened_closeMany (count : Nat) (history : History) :
    (closeMany count history).opened = history.opened := by
  induction count generalizing history with
  | zero => rfl
  | succ count ih =>
    rw [closeMany, ih, closeTop.eq_def]
    split <;> rfl

theorem History.opened_le_after (history : History) (builder : Builder) {call : Builder.Call}
    (hcall : call ≠ .take) : history.opened ≤ (history.after builder call).opened := by
  cases call with
  | take => exact absurd rfl hcall
  | raise => exact Nat.le_refl _
  | event event =>
    cases event with
    | output bytes => exact Nat.le_refl _
    | endTag name =>
      dsimp only [after]
      cases Tag.ofName? name with
      | none => exact Nat.le_refl _
      | some tag => exact Nat.le_of_eq (opened_closeMany _ history).symm
    | startTag name attributes =>
      dsimp only [after]
      cases Tag.ofName? name with
      | none => exact Nat.le_refl _
      | some tag =>
        dsimp only
        rw [(Describes.frames_openTag history builder tag attributes).2]
        exact Nat.le_succ _

section Runs

variable {start : Builder × History} {calls : List Builder.Call}

/-- The groups of a run that are marked are those that were the innermost one when an exception
was raised. -/
theorem marked_foldl (hstart : Describes start.1 start.2) (hempty : start.1.stack = [])
    (hcalls : ∀ call ∈ calls, call ≠ .take) :
    Marked (RaisedWithin start calls) (calls.foldl observe start).1.stack
        (calls.foldl observe start).2.frames ∧
      ∀ number, RaisedWithin start calls number →
        number < (calls.foldl observe start).2.opened := by
  induction calls using List.reverseRecOn with
  | nil =>
    refine ⟨?_, ?_⟩
    · have hframes : start.2.frames = [] := by
        have hlength := hstart.length_eq
        rwa [hempty, List.length_nil, eq_comm, List.length_eq_zero_iff] at hlength
      rw [List.foldl_nil, hempty, hframes]
      exact .nil
    · rintro number ⟨place, h⟩
      exact absurd h.lt_length (Nat.not_lt_zero _)
  | append_singleton calls call ih =>
    obtain ⟨hbefore, hlast⟩ := List.forall_mem_append.mp hcalls
    have hcall : call ≠ .take := hlast call (List.mem_singleton_self call)
    obtain ⟨hmarked, hraised⟩ := ih hbefore
    have hdescribes := hstart.foldl calls
    have hopened := History.opened_le_after (calls.foldl observe start).2
      (calls.foldl observe start).1 hcall
    simp only [List.foldl_append, List.foldl_cons, List.foldl_nil]
    refine ⟨?_, fun number hnumber => ?_⟩
    · exact (hdescribes.marked_after hmarked hraised hcall).congr
        fun frame _ => raisedWithin_snoc.symm
    · rcases raisedWithin_snoc.mp hnumber with hearlier | ⟨-, hgroup⟩
      · exact Nat.lt_of_lt_of_le (hraised number hearlier) hopened
      · exact Nat.lt_of_lt_of_le (hdescribes.group?_lt hgroup) hopened

end Runs

/-! ## Branches -/

/-- The branch that opens now stands, with all that is in it. -/
def Builder.retainsBranch (builder : Builder) (attributes : List Attribute) : Bool :=
  (builder.after (.event (.startTag Tag.except.name attributes))).stack.head?.any OpenTag.retains

theorem Builder.retainsBranch_eq (builder : Builder) (attributes : List Attribute) :
    builder.retainsBranch attributes =
      (builder.exceptionRaised || OpenTag.innermostFailed builder.stack) := by
  rw [retainsBranch, after, receive, Tag.ofName?_name]
  show (true && !(true && !builder.branchStands)) = _
  rw [Bool.true_and, Bool.true_and, Bool.not_not, branchStands]

/-- A branch that opens inside a group of a new document stands just if an exception was raised
while the group was the innermost one, or if one was raised anywhere and nothing settled it
since: no attempt began, and no attempt or branch ended. -/
theorem retainsBranch_iff (silentErrors logTags : Bool) {calls : List Builder.Call}
    {number : Nat} (hcalls : ∀ call ∈ calls, call ≠ .take)
    (hgroup : (calls.foldl observe (Builder.fresh silentErrors logTags, {})).2.group? =
      some number) (attributes : List Attribute) :
    (calls.foldl observe (Builder.fresh silentErrors logTags, {})).1.retainsBranch attributes ↔
      RaisedWithin (Builder.fresh silentErrors logTags, {}) calls number ∨
        Unsettled (Builder.fresh silentErrors logTags, {}) calls := by
  let start : Builder × History := (Builder.fresh silentErrors logTags, {})
  have hstart : Describes start.1 start.2 := .fresh silentErrors logTags
  obtain ⟨hmarked, -⟩ := marked_foldl hstart rfl hcalls
  have hfailed := hmarked.innermostFailed_iff (hstart.foldl calls).explains.tags
  have hknown : (calls.foldl observe start).1.exceptionRaised ↔ Unsettled start calls :=
    exceptionRaised_iff_unsettled rfl calls
  rw [Builder.retainsBranch_eq, Bool.or_eq_true, hknown, hfailed, or_comm]
  refine or_congr_left ⟨?_, fun hraised => ⟨number, hgroup, hraised⟩⟩
  rintro ⟨other, hother, hraised⟩
  rwa [Option.some.inj (hother.symm.trans hgroup)] at hraised

/-- The attempt of the group has failed, and its end has settled the exception. -/
theorem retainsBranch_of_failed_attempt :
    let start := (Builder.fresh false false, ({} : History))
    let calls : List Builder.Call := [.event (.startTag Tag.tryBlock.name []),
      .event (.startTag Tag.attempt.name []), .event (.startTag Tag.inclusion.name []),
      .event (.endTag Tag.inclusion.name), .event (.endTag Tag.attempt.name)]
    (∀ call ∈ calls, call ≠ .take) ∧ (calls.foldl observe start).2.group? = some 0 ∧
      (calls.foldl observe start).1.retainsBranch [] ∧ RaisedWithin start calls 0 ∧
      ¬ Unsettled start calls := by
  intro start calls
  have hcalls : ∀ call ∈ calls, call ≠ .take := by decide
  have hgroup : (calls.foldl observe start).2.group? = some 0 := by decide
  have hraised : RaisedWithin start calls 0 := ⟨2, _, rfl, by decide, by decide⟩
  have hsettled : ¬ Unsettled start calls :=
    mt (exceptionRaised_iff_unsettled rfl calls).mpr (by decide)
  exact ⟨hcalls, hgroup, (retainsBranch_iff false false hcalls hgroup []).mpr (Or.inl hraised),
    hraised, hsettled⟩

/-- An include without a source comes before the group, and nothing is raised inside the group.
The branch of the group stands nevertheless, and takes the place of an attempt after it. -/
theorem retainsBranch_of_earlier_exception :
    let start := (Builder.fresh false false, ({} : History))
    let calls : List Builder.Call := [.event (.startTag Tag.inclusion.name []),
      .event (.endTag Tag.inclusion.name), .event (.startTag Tag.tryBlock.name [])]
    let later : List Builder.Call := [.event (.startTag Tag.except.name []),
      .event (.output [0x42]), .event (.endTag Tag.except.name),
      .event (.startTag Tag.attempt.name []), .event (.output [0x41]),
      .event (.endTag Tag.attempt.name), .event (.endTag Tag.tryBlock.name)]
    (calls.foldl observe start).2.group? = some 1 ∧ ¬ RaisedWithin start calls 1 ∧
      (calls.foldl observe start).1.retainsBranch [] ∧
      ((calls ++ later).foldl observe start).1.document.segments = [.literal [0x42]] := by
  intro start calls later
  refine ⟨by decide, ?_, by decide, by decide⟩
  rintro ⟨place, hraised⟩
  have hplace : place < 3 := hraised.lt_length
  obtain ⟨call, -, -, hgroup⟩ := hraised
  interval_cases place <;> revert hgroup <;> decide

end Page
end EdgeIncludes
