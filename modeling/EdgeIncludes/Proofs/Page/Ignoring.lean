/-
What happens inside an ignored branch.

The builder knows by one flag that includes are to be ignored.  The flag is set where a branch
opens that does not stand, and it is cleared where one opens that does, and wherever an attempt
or a branch ends (`ignoring_after`), so that it says nothing about which branch is open.  An
include inside an ignored branch is therefore without effect up to the first attempt or branch
that ends there, or until a branch that stands opens there, and from then on it is treated as if
it were outside; but wherever its slot is put, it does not get out of the ignored branch
(`inert_iff_of_ignoredSince`).
-/
import EdgeIncludes.Proofs.Page.Exceptions
import EdgeIncludes.Proofs.Page.Placement
import Mathlib.Data.List.Nodup
import Mathlib.Data.List.Pairwise

namespace EdgeIncludes
namespace Page

open Markup (Attribute)

/-! ## Calls that ignore and calls that resume -/

namespace Builder

/-- The call opens a branch that is ignored. -/
def ignores (builder : Builder) : Call → Bool
  | .event (.startTag name _) => decide (Tag.ofName? name = some .except) && !builder.branchStands
  | _ => false

/-- Nothing is ignored right after the call: a branch opens that stands, or an attempt or a
branch ends. -/
def resumes (builder : Builder) : Call → Bool
  | .event (.startTag name _) => decide (Tag.ofName? name = some .except) && builder.branchStands
  | call => builder.settles call

@[simp] theorem ignoring_deliver (builder : Builder) (add : Fragment → Fragment) :
    (builder.deliver add).ignoring = builder.ignoring := by
  rw [deliver.eq_def]
  repeat' split
  all_goals rfl

theorem ignoring_register (builder : Builder) (attributes : List Attribute) :
    (builder.register attributes).ignoring = builder.ignoring := by
  rw [register]
  split
  · exact ignoring_deliver _ _
  · split <;> rfl

theorem ignoring_prepare (builder : Builder) (tag : Tag) (attributes : List Attribute) :
    (builder.prepare tag attributes).ignoring =
      if tag = .except then !builder.branchStands else builder.ignoring := by
  cases tag with
  | inclusion =>
    dsimp only [prepare]
    rw [if_neg (show Tag.inclusion ≠ .except by decide)]
    split
    · rfl
    · exact ignoring_register builder attributes
  | _ => rfl

theorem ignoring_closeTop (builder : Builder) :
    builder.closeTop.ignoring = (builder.ignoring &&
      !(builder.stack.take 1).any fun opened => opened.tag.isBranch) := by
  match hstack : builder.stack with
  | [] => simp [closeTop, hstack]
  | [closed] => simp [closeTop_eq_of_last hstack]
  | closed :: parent :: rest => simp [closeTop_eq_of_inner hstack]

/-- Includes are ignored if the call opens a branch that is ignored, or if they were ignored and
the call does not resume. -/
theorem ignoring_after (builder : Builder) (call : Call) :
    (builder.after call).ignoring =
      (builder.ignores call || builder.ignoring && !builder.resumes call) := by
  cases call with
  | raise => simp [after, raise, ignores, resumes, settles]
  | take => simp [after, fresh, ignores, resumes, settles]
  | event event =>
    cases event with
    | output bytes => simp [after, receive, ignores, resumes, settles]
    | endTag name =>
      dsimp only [after, receive, ignores, resumes, settles]
      cases Tag.ofName? name with
      | none => simp
      | some tag => exact flag_closeMany ignoring_closeTop _ builder
    | startTag name attributes =>
      dsimp only [after, receive, ignores, resumes]
      cases Tag.ofName? name with
      | none => simp
      | some tag =>
        have hopened : (builder.openTag tag attributes).ignoring =
            (builder.prepare tag attributes).ignoring := rfl
        rw [hopened, ignoring_prepare]
        by_cases htag : tag = .except
        · subst htag
          cases builder.branchStands <;> simp
        · simp [htag]

end Builder

/-! ## Includes without effect -/

namespace Builder

variable {builder : Builder} {attributes : List Attribute}

/-- All that an include does where it opens is to open a tag: it registers no request, takes no
number, puts no slot anywhere and raises no exception, and nothing else is said about it. -/
structure Inert (builder : Builder) (attributes : List Attribute) : Prop where
  after_eq : builder.after (.event (.startTag Tag.inclusion.name attributes)) =
    { builder with stack := { tag := .inclusion, retains := false } :: builder.stack }
  raises_eq : builder.raises (.event (.startTag Tag.inclusion.name attributes)) = false
  notices_eq : builder.notices (.event (.startTag Tag.inclusion.name attributes)) =
    builder.traced [.opened .inclusion attributes.length]

theorem after_inclusion (builder : Builder) (attributes : List Attribute) :
    builder.after (.event (.startTag Tag.inclusion.name attributes)) =
      builder.openTag .inclusion attributes := by
  rw [after, receive, Tag.ofName?_name]

theorem inert_of_ignoring (h : builder.ignoring = true) : builder.Inert attributes := by
  constructor
  · rw [after_inclusion, openTag, prepare, if_pos h]
    rfl
  · rw [raises, Tag.ofName?_name, Option.any_some, misses, h]
    simp
  · rw [notices, eventNotices, Tag.ofName?_name]
    simp [openNotices, h]

/-- An include that is not ignored registers a request, or it is said that it cannot. -/
theorem not_inert_of_not_ignoring (h : builder.ignoring = false) :
    ¬ builder.Inert attributes := by
  rintro ⟨hafter, -, hnotices⟩
  rw [after_inclusion, openTag, prepare, h, if_neg Bool.false_ne_true, register] at hafter
  rw [notices, eventNotices, Tag.ofName?_name] at hnotices
  dsimp only at hnotices
  rw [openNotices, registerNotices, h] at hnotices
  cases hread : Include.Request.ofAttributes attributes with
  | ok request =>
    rw [hread] at hafter
    have hrequests := congrArg Builder.requests hafter
    simp at hrequests
  | error refusal =>
    rw [hread] at hnotices
    simp at hnotices

theorem inert_iff : builder.Inert attributes ↔ builder.ignoring = true := by
  constructor
  · intro hinert
    by_contra h
    exact not_inert_of_not_ignoring (Bool.eq_false_iff.mpr h) hinert
  · exact inert_of_ignoring

end Builder

/-! ## Inside an ignored branch -/

/-- The branch that opened at the place got the number and is ignored, and it is open since. -/
def IgnoredSince (start : Builder × History) (calls : List Builder.Call) (place number : Nat) :
    Prop :=
  Since (fun builder history call => builder.ignores call ∧ history.opened = number)
    (fun builder history call =>
      ∀ frame ∈ (history.after builder call).frames, frame.number ≠ number)
    start calls place

namespace History

variable {history : History} {builder : Builder} {call : Builder.Call}

/-- What is open after a call was open before, or it has a number that no tag has yet. -/
theorem mem_frames_after {frame : Frame} (h : frame ∈ (history.after builder call).frames) :
    frame ∈ history.frames ∨ frame.number = history.opened := by
  cases call with
  | raise => exact Or.inl h
  | take => exact absurd h List.not_mem_nil
  | event event =>
    cases event with
    | output bytes => exact Or.inl h
    | endTag name =>
      rw [after] at h
      split at h
      · rw [closeTag, frames_closeMany] at h
        exact Or.inl (List.mem_of_mem_drop h)
      · exact Or.inl h
    | startTag name attributes =>
      rw [after] at h
      split at h
      · rw [(Describes.frames_openTag history builder _ attributes).1] at h
        rcases List.mem_cons.mp h with rfl | hbefore
        · exact Or.inr rfl
        · exact Or.inl hbefore
      · exact Or.inl h

/-- A branch that is ignored is noted as such where it opens. -/
theorem frames_after_of_ignores (h : builder.ignores call) :
    (history.after builder call).frames = ⟨history.opened, .except, true⟩ :: history.frames := by
  cases call with
  | raise => cases h
  | take => cases h
  | event event =>
    cases event with
    | output bytes => cases h
    | endTag name => cases h
    | startTag name attributes =>
      rw [Builder.ignores, Bool.and_eq_true, decide_eq_true_eq] at h
      obtain ⟨hname, hstands⟩ := h
      rw [after, hname]
      dsimp only
      rw [(Describes.frames_openTag history builder .except attributes).1, hstands]
      rfl

end History

section Runs

variable {start : Builder × History} {calls : List Builder.Call} {place number : Nat}

theorem IgnoredSince.exists_frame (hstart : Describes start.1 start.2)
    (h : IgnoredSince start calls place number) :
    ∃ frame ∈ (calls.foldl observe start).2.frames,
      frame.number = number ∧ frame.tag = .except ∧ frame.ignored = true := by
  induction calls using List.reverseRecOn with
  | nil => exact absurd h.1.lt_length (Nat.not_lt_zero _)
  | append_singleton calls call ih =>
    rw [List.foldl_append, List.foldl_cons, List.foldl_nil, observe]
    rcases since_snoc.mp h with ⟨hearlier, hopen⟩ | ⟨-, hignores, hnumber⟩
    · obtain ⟨frame, hframe, hnumber, htag, hignored⟩ := ih hearlier
      have hdescribes := hstart.foldl calls
      obtain ⟨other, hother, hsame⟩ :
          ∃ frame ∈ ((calls.foldl observe start).2.after (calls.foldl observe start).1 call).frames,
            frame.number = number := by
        simpa using hopen
      -- the tag that has the number now is the one that had it before
      rcases History.mem_frames_after hother with hbefore | hnew
      · have heq : other = frame :=
          List.inj_on_of_nodup_map hdescribes.nodup hbefore hframe (hsame.trans hnumber.symm)
        exact ⟨other, hother, hsame, heq ▸ htag, heq ▸ hignored⟩
      · have hlt := hdescribes.open_lt frame hframe
        rw [hnumber, ← hsame, hnew] at hlt
        exact absurd hlt (Nat.lt_irrefl _)
    · rw [History.frames_after_of_ignores hignores]
      exact ⟨_, List.mem_cons_self, hnumber, rfl, rfl⟩

theorem ignoring_iff_exists_since (hstart : start.1.ignoring = false)
    (calls : List Builder.Call) :
    (calls.foldl observe start).1.ignoring ↔
      ∃ place, Since (fun builder _ call => builder.ignores call)
        (fun builder _ call => builder.resumes call) start calls place :=
  flag_iff_exists_since Builder.ignoring_after hstart calls

/-- What was delivered stays delivered up to the end of the document. -/
theorem History.delivered_after (history : History) (builder : Builder) {call : Builder.Call}
    (hcall : call ≠ .take) : history.delivered <+: (history.after builder call).delivered := by
  cases call with
  | raise => exact List.prefix_refl _
  | take => exact absurd rfl hcall
  | event event =>
    cases event with
    | output bytes => exact List.prefix_append _ _
    | endTag name =>
      rw [after]
      split
      · exact ⟨[], (List.append_nil _).trans (delivered_closeMany _ history).symm⟩
      · exact List.prefix_refl _
    | startTag name attributes =>
      rw [after]
      split
      · rw [openTag]
        split
        · show history.delivered <+: (history.register builder attributes).delivered
          rw [register]
          split
          · split
            · exact List.prefix_refl _
            · exact List.prefix_append _ _
          · exact List.prefix_refl _
        · exact List.prefix_refl _
      · exact List.prefix_refl _

theorem History.delivered_foldl (hcalls : ∀ call ∈ calls, call ≠ .take) :
    start.2.delivered <+: (calls.foldl observe start).2.delivered := by
  induction calls generalizing start with
  | nil => exact List.prefix_refl _
  | cons call calls ih =>
    obtain ⟨hcall, hrest⟩ := List.forall_mem_cons.mp hcalls
    have hlater := @ih (observe start call) hrest
    exact (start.2.delivered_after start.1 hcall).trans hlater

/-- The slot of an include that registers a request is delivered there and then. -/
theorem Builder.Registers.mem_delivered {builder : Builder} {call : Builder.Call} {slot : Nat}
    {request : Include.Request} (h : builder.Registers call slot request) (history : History) :
    (.slot slot, history.frames) ∈ (history.after builder call).delivered := by
  cases h with
  | @inclusion name attributes request hname hrequest hrequests =>
    have hheeded : ¬ builder.ignoring := by
      intro hignoring
      rw [after, requests_receive, asked?, if_neg (by simp [hignoring])] at hrequests
      simp at hrequests
    rw [History.after, hname]
    dsimp only
    rw [History.openTag, if_pos rfl]
    show _ ∈ (history.register builder attributes).delivered
    rw [History.register, hrequest]
    dsimp only
    rw [if_neg hheeded]
    exact List.mem_append_right _ List.mem_cons_self

/-- No slot is delivered twice. -/
theorem History.Registers.eq_of_mem_delivered {builder : Builder} {history : History}
    (h : history.Registers builder) {slot : Nat} {inner outer : List Frame}
    (hinner : (.slot slot, inner) ∈ history.delivered)
    (houter : (.slot slot, outer) ∈ history.delivered) : inner = outer := by
  have hnodup : history.slots.Nodup := by
    rw [h]
    exact List.nodup_range
  rw [slots, List.Nodup, List.pairwise_filterMap] at hnodup
  have hsymm : Std.Symm fun a b : Atom × List Frame =>
      ∀ m, a.1.slot? = some m → ∀ n, b.1.slot? = some n → m ≠ n :=
    ⟨fun a b hab m hm n hn => (hab n hn m hm).symm⟩
  by_contra hne
  have hother : (Atom.slot slot, inner) ≠ (Atom.slot slot, outer) :=
    fun heq => hne (congrArg Prod.snd heq)
  exact hnodup.forall hinner houter hother slot rfl slot rfl rfl

/-- What is delivered inside an ignored branch does not reach the page. -/
theorem Frame.reaches_eq_false {replaced : List Nat} {frames : List Frame} {frame : Frame}
    (hframe : frame ∈ frames) (htag : frame.tag = .except) (hignored : frame.ignored = true) :
    Frame.reaches replaced frames = false := by
  have hpasses : frame.passes = false := by
    simp [passes, isGroup, isAttempt, isFallback, htag, hignored]
  have hall : frames.all passes = false := by
    rw [List.all_eq_false]
    exact ⟨frame, hframe, by rw [hpasses]; exact Bool.false_ne_true⟩
  rw [reaches, hall, Bool.false_and, Bool.false_and]

/-- An include inside an ignored branch, whose slot is not on the page whatever follows. -/
theorem IgnoredSince.slot_notMem_document {silentErrors logTags : Bool}
    (h : IgnoredSince (Builder.fresh silentErrors logTags, {}) calls place number)
    {call : Builder.Call} {slot : Nat} {request : Include.Request}
    (hregisters : (calls.foldl observe (Builder.fresh silentErrors logTags, {})).1.Registers call
      slot request)
    {more : List Builder.Call} (hmore : ∀ later ∈ more, later ≠ .take) :
    slot ∉ ((calls ++ call :: more).foldl Builder.after
      (Builder.fresh silentErrors logTags)).document.slots := by
  let start : Builder × History := (Builder.fresh silentErrors logTags, {})
  obtain ⟨frame, hframe, -, htag, hignored⟩ := h.exists_frame (.fresh silentErrors logTags)
  have hhere := hregisters.mem_delivered (calls.foldl observe start).2
  have hlast : (.slot slot, (calls.foldl observe start).2.frames) ∈
      ((calls ++ call :: more).foldl observe start).2.delivered := by
    rw [List.foldl_append, List.foldl_cons]
    exact (History.delivered_foldl hmore).subset hhere
  have hnew : History.Registers {} (Builder.fresh silentErrors logTags) := rfl
  have hregistered := hnew.foldl (calls ++ call :: more)
  intro hslot
  rw [Document.slots_eq, document_atoms, History.kept, List.filterMap_map,
    List.mem_filterMap] at hslot
  obtain ⟨⟨atom, frames⟩, hmem, hatom⟩ := hslot
  obtain ⟨hdelivered, hreaches⟩ := List.mem_filter.mp hmem
  rw [History.ended, History.delivered_closeMany] at hdelivered
  cases atom with
  | byte b => cases hatom
  | slot other =>
    cases Option.some.inj hatom
    have hreached : Frame.reaches _ frames = true := hreaches
    have hframes := hregistered.eq_of_mem_delivered hlast hdelivered
    rw [← hframes, Frame.reaches_eq_false hframe htag hignored] at hreached
    cases hreached

/-- While a branch of a new document is open that was ignored when it opened, an include is
without effect just if a branch that was ignored has opened since, or with it, and nothing has
resumed after that: no branch has opened that stands, and no attempt or branch has ended.
Whether or not it is without effect, the slot that it takes does not come onto the page. -/
theorem inert_iff_of_ignoredSince (silentErrors logTags : Bool)
    (h : IgnoredSince (Builder.fresh silentErrors logTags, {}) calls place number)
    (attributes : List Attribute) :
    let start := (Builder.fresh silentErrors logTags, ({} : History))
    let builder := (calls.foldl observe start).1
    let call := .event (.startTag Tag.inclusion.name attributes)
    (builder.Inert attributes ↔ ∃ other, place ≤ other ∧
      Since (fun builder _ call => builder.ignores call)
        (fun builder _ call => builder.resumes call) start calls other) ∧
    ∀ slot request, builder.Registers call slot request →
      ∀ more, (∀ later ∈ more, later ≠ .take) →
        slot ∉ ((calls ++ call :: more).foldl Builder.after start.1).document.slots := by
  intro start builder call
  constructor
  · rw [Builder.inert_iff, ignoring_iff_exists_since rfl calls]
    constructor
    · rintro ⟨other, hother⟩
      rcases Nat.le_total place other with hle | hle
      · exact ⟨other, hle, hother⟩
      · -- nothing has resumed since an earlier place, and so nothing since this one
        refine ⟨place, Nat.le_refl _, ?_, fun later hlater => hother.2 later (by omega)⟩
        obtain ⟨opening, hopening, hignores, -⟩ := h.1
        exact ⟨opening, hopening, hignores⟩
    · rintro ⟨other, -, hother⟩
      exact ⟨other, hother⟩
  · intro slot request hregisters more hmore
    exact h.slot_notMem_document hregisters hmore

end Runs

/-- An include inside a group of its own, in an ignored branch, which holds no branch. -/
theorem inert_of_inner_group :
    let start := (Builder.fresh false false, ({} : History))
    let calls : List Builder.Call := [.event (.startTag Tag.tryBlock.name []),
      .event (.startTag Tag.except.name []), .event (.startTag Tag.tryBlock.name []),
      .event (.endTag Tag.vars.name), .raise]
    IgnoredSince start calls 1 1 ∧ (calls.foldl observe start).1.Inert [⟨"src", "/a"⟩] := by
  intro start calls
  have hopen : IgnoredSince start calls 1 1 := by
    refine ⟨⟨_, rfl, by decide, by decide⟩, ?_⟩
    intro later hlater hcloses
    have hbound : later < 5 := hcloses.lt_length
    obtain ⟨call, hcall, hclosed⟩ := hcloses
    interval_cases later <;> cases hcall <;> revert hclosed <;> decide
  have hignores : Since (fun builder _ call => builder.ignores call)
      (fun builder _ call => builder.resumes call) start calls 1 := by
    refine ⟨⟨_, rfl, by decide⟩, ?_⟩
    intro later hlater hresumes
    have hbound : later < 5 := hresumes.lt_length
    obtain ⟨call, hcall, hresumed⟩ := hresumes
    interval_cases later <;> cases hcall <;> revert hresumed <;> decide
  obtain ⟨hinert, -⟩ := inert_iff_of_ignoredSince false false hopen [⟨"src", "/a"⟩]
  exact ⟨hopen, hinert.mpr ⟨1, Nat.le_refl _, hignores⟩⟩

/-- An attempt has ended inside an ignored branch.  An include after it registers a request, and
one without a source raises an exception, for which the branch after the ignored one stands. -/
theorem not_inert_of_ended_attempt :
    let start := (Builder.fresh false false, ({} : History))
    let calls : List Builder.Call := [.event (.startTag Tag.tryBlock.name []),
      .event (.startTag Tag.attempt.name []), .event (.output [0x41]),
      .event (.endTag Tag.attempt.name), .event (.startTag Tag.except.name []),
      .event (.startTag Tag.attempt.name []), .event (.endTag Tag.attempt.name)]
    let inclusion (attributes : List Attribute) : Builder.Call :=
      .event (.startTag Tag.inclusion.name attributes)
    let later : List Builder.Call := [.event (.endTag Tag.inclusion.name),
      .event (.endTag Tag.except.name), .event (.startTag Tag.except.name []),
      .event (.output [0x42]), .event (.endTag Tag.except.name),
      .event (.endTag Tag.tryBlock.name)]
    IgnoredSince start calls 4 2 ∧
      (calls.foldl observe start).1.Registers (inclusion [⟨"src", "/e"⟩]) 0 { src := "/e" } ∧
      (calls.foldl observe start).1.raises (inclusion []) ∧
      ((calls ++ inclusion [] :: later).foldl observe start).1.document.segments =
        [.literal [0x42]] := by
  intro start calls inclusion later
  refine ⟨⟨⟨_, rfl, by decide, by decide⟩, ?_⟩, ?_, by decide, by decide⟩
  · intro other hother hcloses
    have hbound : other < 7 := hcloses.lt_length
    obtain ⟨call, hcall, hclosed⟩ := hcloses
    interval_cases other <;> cases hcall <;> revert hclosed <;> decide
  · exact .inclusion (Tag.ofName?_name .inclusion) rfl (by decide)

end Page
end EdgeIncludes
