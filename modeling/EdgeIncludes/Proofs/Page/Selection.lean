/-
What reaches the page.

`Explains` says of all open tags at once what each has collected.  What was delivered falls
into one stretch for each open tag, because nothing gets past a tag that is open, and so a
call makes the last stretch longer, begins one, or joins the last two.  When every tag is
closed there is one stretch left, and it is the page (`document_atoms`).
-/
import EdgeIncludes.Proofs.Page.Collected

namespace EdgeIncludes
namespace Page

open Markup (Event)

/-! ## Stretches -/

/-- What was delivered falls into a stretch for each open tag and one for what is outside of
them, and each has collected what it should of its own.  `live` has the numbers of the tags
that are open. -/
inductive Explains (replaced live : List Nat) (root : Fragment) :
    List OpenTag → List Frame → List Delivery → Prop where
  | outside {log : List Delivery} (hroot : root.atoms = fitting (Frame.reaches replaced) log)
      (hapart : ∀ delivery ∈ log, Apart live delivery.2) : Explains replaced live root [] [] log
  | within {stack : List OpenTag} {frames : List Frame} {log : List Delivery} {opened : OpenTag}
      {frame : Frame} {stretch : List Delivery}
      (hbelow : Explains replaced live root stack frames log)
      (hcollects : Collects replaced opened frame stretch)
      (hapart : ∀ delivery ∈ stretch, Apart live delivery.2) :
      Explains replaced live root (opened :: stack) (frame :: frames)
        (log ++ inside (frame :: frames) stretch)

theorem Apart.forget {number : Nat} {live : List Nat} {frames : List Frame}
    (h : Apart (number :: live) frames) : Apart live frames :=
  fun frame hmem hin => h frame hmem (List.mem_cons_of_mem number hin)

theorem apart_inside {frame : Frame} {live : List Nat} {stretch : List Delivery}
    (h : ∀ delivery ∈ stretch, Apart (frame.number :: live) delivery.2)
    (hframe : frame.number ∉ live) :
    ∀ delivery ∈ inside [frame] stretch, Apart live delivery.2 := by
  intro delivery hmem
  obtain ⟨first, hfirst, rfl⟩ := List.mem_map.mp hmem
  exact List.forall_mem_append.mpr
    ⟨(h first hfirst).forget, List.forall_mem_singleton.mpr hframe⟩

namespace Explains

variable {number : Nat} {replaced live : List Nat} {root : Fragment} {stack : List OpenTag}
  {frames : List Frame} {log : List Delivery}

theorem tags (h : Explains replaced live root stack frames log) :
    stack.map OpenTag.tag = frames.map Frame.tag := by
  induction h with
  | outside => rfl
  | within hbelow hcollects hapart ih => rw [List.map_cons, List.map_cons, hcollects.tag, ih]

/-- Other numbers can be live, as long as none of them is around what was delivered unless
it was live before. -/
theorem relive (h : Explains replaced live root stack frames log) {other : List Nat}
    (hother : ∀ delivery ∈ log, ∀ frame ∈ delivery.2, frame.number ∈ other →
      frame.number ∈ live) : Explains replaced other root stack frames log := by
  induction h with
  | outside hroot hapart =>
    exact .outside hroot fun delivery hmem frame hframe hin =>
      hapart delivery hmem frame hframe (hother delivery hmem frame hframe hin)
  | within hbelow hcollects hapart ih =>
    refine .within (ih fun delivery hmem => hother delivery (List.mem_append_left _ hmem))
      hcollects fun delivery hmem frame hframe hin => ?_
    exact hapart delivery hmem frame hframe
      (hother _ (List.mem_append_right _ (mem_inside hmem)) frame (List.mem_append_left _ hframe)
        hin)

/-- The replacement of a group that is open matters to no other tag. -/
theorem replace (h : Explains replaced live root stack frames log) {number : Nat}
    (hlive : number ∈ live) (hframes : ∀ frame ∈ frames, frame.number ≠ number) :
    Explains (number :: replaced) live root stack frames log := by
  induction h with
  | outside hroot hapart =>
    refine .outside (hroot.trans (fitting_congr fun delivery hmem => ?_)) hapart
    exact (Frame.reaches_cons ((hapart delivery hmem).ne hlive)).symm
  | within hbelow hcollects hapart ih =>
    obtain ⟨hframe, hrest⟩ := List.forall_mem_cons.mp hframes
    exact .within (ih hrest)
      (hcollects.cons hframe fun delivery hmem => (hapart delivery hmem).ne hlive) hapart

/-! ## Calls -/

theorem fail (h : Explains replaced live root stack frames log) :
    Explains replaced live root (OpenTag.failInnermost stack) frames log := by
  induction h with
  | outside hroot hapart => exact .outside hroot hapart
  | within hbelow hcollects hapart ih =>
    rw [OpenTag.failInnermost]
    split
    · exact .within hbelow ⟨hcollects.tag, hcollects.retains, hcollects.content,
        hcollects.fallback, hcollects.isSome⟩ hapart
    · exact .within ih hcollects hapart

theorem deliver {builder : Builder}
    (h : Explains replaced live builder.root builder.stack frames log)
    {add : Fragment → Fragment} {atoms : List Atom}
    (hadd : ∀ fragment, (add fragment).atoms = fragment.atoms ++ atoms) :
    Explains replaced live (builder.deliver add).root (builder.deliver add).stack frames
      (log ++ atoms.map fun atom => (atom, frames)) := by
  have hnow : ∀ delivery ∈ atoms.map fun atom => (atom, ([] : List Frame)),
      Apart live delivery.2 := by
    intro delivery hmem
    obtain ⟨atom, -, rfl⟩ := List.mem_map.mp hmem
    exact List.forall_mem_nil _
  generalize hstack : builder.stack = stack at h
  cases h with
  | outside hroot hapart =>
    have hdeliver : builder.deliver add = { builder with root := add builder.root } := by
      rw [Builder.deliver, hstack]
    rw [hdeliver, hstack]
    refine .outside ?_ (List.forall_mem_append.mpr ⟨hapart, hnow⟩)
    rw [fitting_append, fitting_now, ← hroot]
    exact hadd builder.root
  | @within stack frames log opened frame stretch hbelow hcollects hapart =>
    have hdeliver : (builder.deliver add).stack =
          (if opened.retains then { opened with content := add opened.content } else opened) ::
            stack ∧
        (builder.deliver add).root = builder.root := by
      rw [Builder.deliver, hstack]
      by_cases hretains : opened.retains
      · simp only [if_pos hretains, and_self]
      · simp only [if_neg hretains, hstack, and_self]
    have hjoined : log ++ inside (frame :: frames) stretch ++
        atoms.map (fun atom => (atom, frame :: frames)) =
        log ++ inside (frame :: frames) (stretch ++ atoms.map fun atom => (atom, [])) := by
      rw [inside_append, ← List.append_assoc, inside, inside, List.map_map]
      rfl
    rw [hjoined, hdeliver.1, hdeliver.2]
    exact .within hbelow (hcollects.deliver hadd) (List.forall_mem_append.mpr ⟨hapart, hnow⟩)

theorem push (h : Explains replaced live root stack frames log) {opened : OpenTag}
    {frame : Frame} (hcollects : Collects replaced opened frame [])
    (hpast : ∀ delivery ∈ log, ∀ inner ∈ delivery.2, inner.number ≠ frame.number) :
    Explains replaced (frame.number :: live) root (opened :: stack) (frame :: frames) log := by
  have hbelow : Explains replaced (frame.number :: live) root stack frames log :=
    h.relive fun delivery hmem inner hinner hin =>
      (List.mem_cons.mp hin).resolve_left (hpast delivery hmem inner hinner)
  have hwithin := hbelow.within hcollects (List.forall_mem_nil _)
  exact (List.append_nil log) ▸ hwithin

theorem forget (h : Explains replaced (number :: live) root stack frames log) :
    Explains replaced live root stack frames log :=
  h.relive fun _ _ _ _ hin => List.mem_cons_of_mem number hin

theorem closeLast {opened : OpenTag} {frame : Frame}
    (h : Explains replaced (frame.number :: live) root [opened] [frame] log)
    (hlive : frame.number ∉ live) :
    Explains replaced live (if opened.isKept then root ++ opened.output else root) [] [] log := by
  cases h with
  | within hbelow hcollects hapart =>
    cases hbelow.forget with
    | outside hroot hlog =>
      have hthrough := hcollects.through true
      simp only [Bool.and_true, Bool.true_and] at hthrough
      refine .outside ?_ (List.forall_mem_append.mpr ⟨hlog, ?_⟩)
      · rw [fitting_append, fitting_inside, hthrough, ← hroot, hcollects.isKept]
        split <;> simp
      · exact apart_inside hapart hlive

theorem closeInner {opened parent : OpenTag} {frame outer : Frame}
    (h : Explains replaced (frame.number :: outer.number :: live) root (opened :: parent :: stack)
      (frame :: outer :: frames) log)
    (hne : frame.number ∉ outer.number :: live)
    (hframes : ∀ below ∈ frames, below.number ≠ outer.number) :
    Explains (outer.replacing replaced frame) (outer.number :: live) root
      (parent.adopt opened :: stack) (outer :: frames) log := by
  cases h with
  | @within _ _ _ _ _ stretch hmiddle hcollects hstretch =>
    cases hmiddle with
    | @within _ _ log _ _ before hbelow hparent hbefore =>
      have hlive : outer.number ∈ frame.number :: outer.number :: live :=
        List.mem_cons_of_mem _ List.mem_cons_self
      have hjoined : log ++ inside (outer :: frames) before ++
          inside (frame :: outer :: frames) stretch =
          log ++ inside (outer :: frames) (before ++ inside [frame] stretch) := by
        rw [inside_append, inside_inside, List.append_assoc]
        rfl
      have hadopted := hparent.adopt hcollects (List.ne_of_not_mem_cons hne)
        (fun delivery hmem => (hbefore delivery hmem).ne hlive)
        (fun delivery hmem => (hstretch delivery hmem).ne hlive)
      rw [hjoined]
      refine .within ?_ hadopted (List.forall_mem_append.mpr
        ⟨fun delivery hmem => (hbefore delivery hmem).forget, apart_inside hstretch hne⟩)
      rw [Frame.replacing]
      split
      · exact (hbelow.replace hlive hframes).forget
      · exact hbelow.forget

end Explains
/-! ## Closing tags of the builder -/

namespace Builder

variable {builder : Builder} {closed parent : OpenTag} {rest : List OpenTag}

theorem closeTop_last (h : builder.stack = [closed]) :
    builder.closeTop.stack = [] ∧
      builder.closeTop.root =
        if closed.isKept then builder.root ++ closed.output else builder.root := by
  rw [closeTop, h]
  dsimp only
  by_cases hbranch : closed.tag == .attempt || closed.tag == .except
  · simp only [if_pos hbranch, and_self]
  · simp only [if_neg hbranch, and_self]

theorem closeTop_inner (h : builder.stack = closed :: parent :: rest) :
    builder.closeTop.stack = parent.adopt closed :: rest ∧
      builder.closeTop.root = builder.root := by
  rw [closeTop, h]
  dsimp only
  by_cases hbranch : closed.tag == .attempt || closed.tag == .except
  · simp only [if_pos hbranch, and_self]
  · simp only [if_neg hbranch, and_self]

end Builder

namespace History

theorem frames_closeTop (history : History) : history.closeTop.frames = history.frames.tail := by
  rw [closeTop]
  split <;> simp [*]

theorem frames_closeMany (history : History) (count : Nat) :
    (closeMany count history).frames = history.frames.drop count := by
  induction count generalizing history with
  | zero => rfl
  | succ count ih => rw [closeMany, ih, frames_closeTop, List.drop_tail]

end History

theorem length_sub_findIdx? {α : Type} (p : α → Bool) (items : List α) :
    ((items.findIdx? p).map fun outermost => items.length - outermost).getD 0 =
      items.length - (items.takeWhile fun item => !p item).length := by
  induction items with
  | nil => rfl
  | cons item rest ih =>
    rw [List.findIdx?_cons, List.takeWhile_cons]
    cases hp : p item with
    | true => rfl
    | false =>
      simp only [Bool.not_false, if_true, Bool.false_eq_true, if_false, List.length_cons,
        Option.map_map, Function.comp_def, Nat.add_sub_add_right]
      exact ih

/-! ## The builder and its history -/

/-- The history is that of the builder. -/
structure Describes (builder : Builder) (history : History) : Prop where
  explains : Explains history.replaced (history.frames.map Frame.number) builder.root
    builder.stack history.frames history.delivered
  nodup : (history.frames.map Frame.number).Nodup
  open_lt : ∀ frame ∈ history.frames, frame.number < history.opened
  past_lt : ∀ delivery ∈ history.delivered, ∀ frame ∈ delivery.2, frame.number < history.opened
  replaced_lt : ∀ number ∈ history.replaced, number < history.opened

namespace Describes

variable {builder : Builder} {history : History}

theorem congr (h : Describes builder history) {other : Builder}
    (hstack : other.stack = builder.stack) (hroot : other.root = builder.root) :
    Describes other history :=
  ⟨hstack ▸ hroot ▸ h.explains, h.nodup, h.open_lt, h.past_lt, h.replaced_lt⟩

theorem fresh (silentErrors logTags : Bool) : Describes (Builder.fresh silentErrors logTags) {} :=
  ⟨.outside rfl (List.forall_mem_nil _), List.nodup_nil, List.forall_mem_nil _,
    List.forall_mem_nil _, List.forall_mem_nil _⟩

theorem length_eq (h : Describes builder history) :
    builder.stack.length = history.frames.length := by
  have hlength := congrArg List.length h.explains.tags
  rwa [List.length_map, List.length_map] at hlength

theorem deliver (h : Describes builder history) {add : Fragment → Fragment} {atoms : List Atom}
    (hadd : ∀ fragment, (add fragment).atoms = fragment.atoms ++ atoms) :
    Describes (builder.deliver add) (history.deliver atoms) := by
  refine ⟨h.explains.deliver hadd, h.nodup, h.open_lt, ?_, h.replaced_lt⟩
  refine List.forall_mem_append.mpr ⟨h.past_lt, fun delivery hmem => ?_⟩
  obtain ⟨atom, -, rfl⟩ := List.mem_map.mp hmem
  exact h.open_lt

theorem closeTop (h : Describes builder history) :
    Describes builder.closeTop history.closeTop := by
  have hlength := h.length_eq
  obtain ⟨frames, opened, delivered, replaced⟩ := history
  obtain ⟨hexplains, hnodup, hopen, hpast, hreplaced⟩ := h
  generalize hstack : builder.stack = stack at hexplains hlength
  match frames, stack, hlength with
  | [], [], _ =>
    have hclosed : builder.closeTop = builder := by rw [Builder.closeTop, hstack]
    rw [hclosed]
    exact ⟨hstack ▸ hexplains, hnodup, hopen, hpast, hreplaced⟩
  | [frame], [closed], _ =>
    obtain ⟨hrest, hroot⟩ := Builder.closeTop_last hstack
    refine ⟨?_, List.nodup_nil, List.forall_mem_nil _, hpast, hreplaced⟩
    rw [hrest, hroot]
    exact hexplains.closeLast List.not_mem_nil
  | frame :: outer :: frames, closed :: parent :: stack, _ =>
    obtain ⟨hrest, hroot⟩ := Builder.closeTop_inner hstack
    obtain ⟨hframe, houter⟩ := List.nodup_cons.mp hnodup
    obtain ⟨-, hbelow⟩ := List.forall_mem_cons.mp hopen
    refine ⟨?_, houter, hbelow, hpast, ?_⟩
    · rw [hrest, hroot]
      refine hexplains.closeInner hframe fun below hmem heq => ?_
      exact (List.nodup_cons.mp houter).1 (heq ▸ List.mem_map_of_mem hmem)
    · show ∀ number ∈ outer.replacing replaced frame, number < opened
      rw [Frame.replacing]
      split
      · exact List.forall_mem_cons.mpr ⟨hbelow outer List.mem_cons_self, hreplaced⟩
      · exact hreplaced

theorem closeMany (h : Describes builder history) (count : Nat) :
    Describes (Builder.closeMany count builder) (History.closeMany count history) := by
  induction count generalizing builder history with
  | zero => exact h
  | succ count ih => exact ih h.closeTop

theorem closedBy?_eq (h : Describes builder history) (tag : Tag) :
    (builder.closedBy? tag).getD 0 = history.frames.length - history.staying tag := by
  have hbuilder := length_sub_findIdx? (fun other => other == tag)
    (builder.stack.map OpenTag.tag).reverse
  rw [← List.map_reverse, List.findIdx?_map, List.length_map, List.length_reverse] at hbuilder
  rw [Builder.closedBy?, History.staying]
  refine Eq.trans hbuilder ?_
  rw [h.length_eq, List.map_reverse, h.explains.tags, ← List.map_reverse, List.takeWhile_map,
    List.length_map]
  rfl

theorem closeTag (h : Describes builder history) (tag : Tag) :
    Describes (builder.closeTag tag) (history.closeTag tag) := by
  rw [Builder.closeTag, h.closedBy?_eq]
  exact h.closeMany _

theorem raise (h : Describes builder history) : Describes builder.raise history :=
  ⟨h.explains.fail, h.nodup, h.open_lt, h.past_lt, h.replaced_lt⟩

theorem register (h : Describes builder history) (attributes : List Markup.Attribute)
    (hignoring : ¬ builder.ignoring) :
    Describes (builder.register attributes) (history.register builder attributes) := by
  rw [Builder.register, History.register]
  cases Include.Request.ofAttributes attributes with
  | ok request =>
    simp only [if_neg hignoring]
    have hrequests : Describes { builder with requests := builder.requests ++ [request] } history :=
      h.congr rfl rfl
    exact hrequests.deliver fun output => output.atoms_pushSlot builder.nextNumber
  | error refusal =>
    by_cases hsilent : builder.silentErrors
    · simp only [if_pos hsilent]
      exact h
    · simp only [if_neg hsilent]
      exact h.raise

theorem register_ignoring (attributes : List Markup.Attribute) (hignoring : builder.ignoring) :
    history.register builder attributes = history := by
  rw [History.register]
  cases Include.Request.ofAttributes attributes with
  | ok request => exact if_pos hignoring
  | error refusal => rfl

theorem prepare (h : Describes builder history) (tag : Tag) (attributes : List Markup.Attribute) :
    Describes (builder.prepare tag attributes)
      (if tag = .inclusion then history.register builder attributes else history) := by
  cases tag with
  | inclusion =>
    rw [if_pos rfl, Builder.prepare]
    by_cases hignoring : builder.ignoring
    · rw [register_ignoring attributes hignoring]
      simp only [if_pos hignoring]
      exact h
    · simp only [if_neg hignoring]
      exact h.register attributes hignoring
  | _ => exact h.congr rfl rfl

theorem push {prepared : Builder} (h : Describes prepared history) {tag : Tag}
    (hignoring : tag = .except → prepared.ignoring = !builder.branchStands) :
    Describes { prepared with stack := prepared.opening tag :: prepared.stack }
      (history.push builder tag) := by
  have hcollects : Collects history.replaced (prepared.opening tag)
      ⟨history.opened, tag, tag == .except && !builder.branchStands⟩ [] := by
    refine ⟨rfl, ?_, rfl, rfl, ?_⟩
    · cases tag with
      | except =>
        rw [Builder.opening, hignoring rfl]
        cases builder.branchStands <;> rfl
      | _ => rfl
    · have hnew : history.replaced.contains history.opened = false := by
        rw [List.contains_eq_mem, decide_eq_false_iff_not]
        exact fun hmem => Nat.lt_irrefl _ (h.replaced_lt _ hmem)
      show false = (_ && history.replaced.contains history.opened)
      rw [hnew, Bool.and_false]
  have hpush := h.explains.push hcollects fun delivery hmem inner hinner =>
    Nat.ne_of_lt (h.past_lt delivery hmem inner hinner)
  have hlater : ∀ {number : Nat}, number < history.opened → number < history.opened + 1 :=
    fun hlt => Nat.lt_succ_of_lt hlt
  refine ⟨hpush, List.nodup_cons.mpr ⟨?_, h.nodup⟩, ?_, ?_, ?_⟩
  · intro hmem
    obtain ⟨frame, hframe, hnumber⟩ := List.mem_map.mp hmem
    exact absurd hnumber (Nat.ne_of_lt (h.open_lt frame hframe))
  · exact List.forall_mem_cons.mpr
      ⟨Nat.lt_succ_self _, fun frame hmem => hlater (h.open_lt frame hmem)⟩
  · exact fun delivery hmem frame hframe => hlater (h.past_lt delivery hmem frame hframe)
  · exact fun number hmem => hlater (h.replaced_lt number hmem)

theorem openTag (h : Describes builder history) (tag : Tag)
    (attributes : List Markup.Attribute) :
    Describes (builder.openTag tag attributes) (history.openTag builder tag attributes) := by
  have hprepared := h.prepare tag attributes
  have hignoring : tag = .except →
      (builder.prepare tag attributes).ignoring = !builder.branchStands := by
    rintro rfl
    rfl
  rw [Builder.openTag, History.openTag]
  by_cases htag : tag = .inclusion
  · rw [if_pos htag] at hprepared ⊢
    exact hprepared.push hignoring
  · rw [if_neg htag] at hprepared ⊢
    exact hprepared.push hignoring

theorem after (h : Describes builder history) (call : Builder.Call) :
    Describes (builder.after call) (history.after builder call) := by
  cases call with
  | raise => exact h.raise
  | take => exact fresh builder.silentErrors builder.logTags
  | event event =>
    cases event with
    | output bytes => exact h.deliver fun output => output.atoms_pushBytes bytes
    | startTag name attributes =>
      rw [Builder.after, Builder.receive, History.after]
      cases Tag.ofName? name with
      | none => exact h
      | some tag => exact h.openTag tag attributes
    | endTag name =>
      rw [Builder.after, Builder.receive, History.after]
      cases Tag.ofName? name with
      | none => exact h
      | some tag => exact h.closeTag tag

theorem foldl (h : Describes builder history) (calls : List Builder.Call) :
    Describes (calls.foldl observe (builder, history)).1
      (calls.foldl observe (builder, history)).2 := by
  induction calls generalizing builder history with
  | nil => exact h
  | cons call calls ih => exact ih (h.after call)

/-- At the end of the body nothing is open, and all that is left is the page. -/
theorem document_eq (h : Describes builder history) :
    builder.document.atoms = history.ended.kept := by
  have hclosed : Describes builder.closeAll history.ended := by
    rw [Builder.closeAll, History.ended, h.length_eq]
    exact h.closeMany _
  have hframes : history.ended.frames = [] := by
    rw [History.ended, History.frames_closeMany, List.drop_length]
  have hexplains := hclosed.explains
  rw [hframes] at hexplains
  generalize hstack : builder.closeAll.stack = stack at hexplains
  cases hexplains with
  | outside hroot hapart => exact hroot

end Describes

/-- Whatever is asked of a new builder, the page it would hand over has, in the order in which
they were delivered, just the bytes and slots that every tag around them lets through. -/
theorem document_atoms (silentErrors logTags : Bool) (calls : List Builder.Call) :
    (calls.foldl Builder.after (Builder.fresh silentErrors logTags)).document.atoms =
      (calls.foldl observe (Builder.fresh silentErrors logTags, {})).2.ended.kept := by
  have hdescribes := (Describes.fresh silentErrors logTags).foldl calls
  rw [← hdescribes.document_eq, foldl_observe_fst]

end Page
end EdgeIncludes
