/-
What an open tag has collected.

The output of an open tag is a part of what was delivered since the tag opened, and
`Collects` says which part: what every tag closed inside it let through, and in a group the
attempts and what replaces them apart.  Output that is delivered (`deliver`) and a tag that
is closed directly inside (`adopt`) keep it so.
-/
import EdgeIncludes.Proofs.Page.History

namespace EdgeIncludes
namespace Page

open Markup (Event)

/-! ## Atoms of joined output -/

namespace Fragment

theorem atoms_addLiteral (bytes : Bytes) (segments : List Segment) :
    (addLiteral bytes segments).flatMap Segment.atoms =
      segments.flatMap Segment.atoms ++ bytes.map .byte := by
  induction segments with
  | nil => simp [addLiteral, Segment.atoms]
  | cons segment rest ih =>
    cases segment with
    | slot number => simp only [addLiteral, List.flatMap_cons, ih, List.append_assoc]
    | literal last =>
      cases rest with
      | nil => simp [addLiteral, Segment.atoms]
      | cons next rest => simp only [addLiteral, List.flatMap_cons, ih, List.append_assoc]

@[simp] theorem atoms_pushBytes (fragment : Fragment) (bytes : Bytes) :
    (fragment.pushBytes bytes).atoms = fragment.atoms ++ bytes.map .byte := by
  rw [pushBytes]
  split
  · rename_i h
    rw [List.isEmpty_iff.mp h, List.map_nil, List.append_nil]
  · exact atoms_addLiteral bytes fragment.segments

@[simp] theorem atoms_pushSlot (fragment : Fragment) (number : Nat) :
    (fragment.pushSlot number).atoms = fragment.atoms ++ [.slot number] := by
  rw [pushSlot, atoms, List.flatMap_append]
  rfl

theorem atoms_push (fragment : Fragment) (segment : Segment) :
    (fragment.push segment).atoms = fragment.atoms ++ segment.atoms := by
  cases segment with
  | literal bytes => exact atoms_pushBytes fragment bytes
  | slot number => exact atoms_pushSlot fragment number

@[simp] theorem atoms_append (fragment other : Fragment) :
    (fragment ++ other).atoms = fragment.atoms ++ other.atoms := by
  have hfold : ∀ (segments : List Segment) (front : Fragment),
      (segments.foldl push front).atoms = front.atoms ++ segments.flatMap Segment.atoms := by
    intro segments
    induction segments with
    | nil => intro front; exact (List.append_nil _).symm
    | cons segment rest ih =>
      intro front
      rw [List.foldl_cons, ih, atoms_push, List.flatMap_cons, List.append_assoc]
  exact hfold other.segments fragment

end Fragment

/-! ## Tags around output -/

namespace Frame

theorem zip_tail_snoc (frames : List Frame) (frame : Frame) :
    (frames ++ [frame]).zip (frames ++ [frame]).tail =
      frames.zip frames.tail ++ (frames.getLast?.map fun last => (last, frame)).toList := by
  induction frames with
  | nil => rfl
  | cons first rest ih =>
    cases rest with
    | nil => rfl
    | cons second rest =>
      have hlast : (first :: second :: rest).getLast? = (second :: rest).getLast? :=
        List.getLast?_cons_cons
      rw [hlast]
      exact congrArg ((first, second) :: ·) ih

theorem reaches_snoc (replaced : List Nat) (above : List Frame) (frame : Frame) :
    reaches replaced (above ++ [frame]) =
      (reaches replaced above && frame.passes &&
        (!frame.isGroup || above.getLast?.any (frame.takes replaced))) := by
  rw [reaches, reaches, zip_tail_snoc, List.all_append, List.all_append]
  cases above with
  | nil => simp [takes]
  | cons top rest =>
    obtain ⟨last, hlast⟩ : ∃ last, (top :: rest).getLast? = some last :=
      ⟨_, List.getLast?_eq_some_getLast (List.cons_ne_nil top rest)⟩
    rw [hlast]
    simp only [List.cons_append, List.head?_cons, Option.all_some, List.all_cons, List.all_nil,
      Option.map_some, Option.toList_some, Option.any_some, Bool.and_true]
    have htakes : (!frame.isGroup || frame.takes replaced last) = frame.takes replaced last := by
      rw [takes]
      cases frame.isGroup <;> rfl
    rw [htakes]
    ac_rfl

/- What the kinds of tag have to do with one another. -/

theorem isAttempt_and_passes (frame : Frame) :
    (frame.isAttempt && frame.passes) = frame.isAttempt := by
  rw [passes]
  cases frame.isAttempt <;> simp

theorem isFallback_and_passes (frame : Frame) :
    (frame.isFallback && frame.passes) = frame.isFallback := by
  rw [passes]
  cases frame.isFallback <;> simp

theorem isExcept_and_retains (frame : Frame) :
    (frame.tag == .except && (frame.passes && !frame.isGroup)) = frame.isFallback := by
  obtain ⟨number, tag, ignored⟩ := frame
  cases tag <;> cases ignored <;> rfl

end Frame

/-! ## Stretches of what was delivered -/

abbrev Delivery := Atom × List Frame

/-- The atoms whose tags fit. -/
def fitting (fits : List Frame → Bool) (stretch : List Delivery) : List Atom :=
  (stretch.filter fun delivery => fits delivery.2).map Prod.fst

/-- The same output with more tags around it. -/
def inside (outer : List Frame) (stretch : List Delivery) : List Delivery :=
  stretch.map fun delivery => (delivery.1, delivery.2 ++ outer)

@[simp] theorem fitting_append (fits : List Frame → Bool) (front back : List Delivery) :
    fitting fits (front ++ back) = fitting fits front ++ fitting fits back := by
  rw [fitting, List.filter_append, List.map_append]
  rfl

theorem fitting_inside (fits : List Frame → Bool) (outer : List Frame) (stretch : List Delivery) :
    fitting fits (inside outer stretch) = fitting (fun above => fits (above ++ outer)) stretch := by
  rw [fitting, inside, List.filter_map, List.map_map]
  rfl

theorem fitting_congr {fits other : List Frame → Bool} {stretch : List Delivery}
    (h : ∀ delivery ∈ stretch, fits delivery.2 = other delivery.2) :
    fitting fits stretch = fitting other stretch := by
  rw [fitting, fitting, List.filter_congr h]

theorem fitting_eq_nil_iff {fits : List Frame → Bool} {stretch : List Delivery} :
    fitting fits stretch = [] ↔ ∀ delivery ∈ stretch, fits delivery.2 = false := by
  rw [fitting, List.map_eq_nil_iff, List.filter_eq_nil_iff]
  simp only [Bool.not_eq_true]

theorem fitting_now (fits : List Frame → Bool) (atoms : List Atom) :
    fitting fits (atoms.map fun atom => (atom, [])) = if fits [] then atoms else [] := by
  rw [fitting, List.filter_map, List.map_map]
  cases h : fits [] <;> simp [Function.comp_def, h]

@[simp] theorem inside_append (outer : List Frame) (front back : List Delivery) :
    inside outer (front ++ back) = inside outer front ++ inside outer back :=
  List.map_append

theorem mem_inside {outer : List Frame} {stretch : List Delivery} {delivery : Delivery}
    (h : delivery ∈ stretch) : (delivery.1, delivery.2 ++ outer) ∈ inside outer stretch :=
  List.mem_map.mpr ⟨delivery, h, rfl⟩

theorem inside_inside (outer more : List Frame) (stretch : List Delivery) :
    inside outer (inside more stretch) = inside (more ++ outer) stretch := by
  rw [inside, inside, inside, List.map_map]
  simp only [Function.comp_def, List.append_assoc]

/-! ## What an open tag has collected -/

/-- What is collected as the content of an open tag. -/
def Frame.content (replaced : List Nat) (frame : Frame) (above : List Frame) : Bool :=
  reaches replaced above &&
    if frame.isGroup then above.getLast?.any isAttempt else frame.passes

/-- What is collected in place of a group's attempts. -/
def Frame.fallback (replaced : List Nat) (frame : Frame) (above : List Frame) : Bool :=
  reaches replaced above && frame.isGroup && above.getLast?.any isFallback

/-- The open tag is the frame, and it has collected what it should of the stretch. -/
structure Collects (replaced : List Nat) (opened : OpenTag) (frame : Frame)
    (stretch : List Delivery) : Prop where
  tag : opened.tag = frame.tag
  retains : opened.retains = (frame.passes && !frame.isGroup)
  content : opened.content.atoms = fitting (frame.content replaced) stretch
  fallback : (opened.fallback.getD .empty).atoms = fitting (frame.fallback replaced) stretch
  isSome : opened.fallback.isSome = (frame.isGroup && replaced.contains frame.number)

namespace Collects

variable {replaced : List Nat} {opened : OpenTag} {frame : Frame} {stretch : List Delivery}

theorem isTry (h : Collects replaced opened frame stretch) : opened.isTry = frame.isGroup := by
  rw [OpenTag.isTry, h.tag]
  rfl

theorem isKept (h : Collects replaced opened frame stretch) : opened.isKept = frame.passes := by
  rw [OpenTag.isKept, h.retains, h.isTry, Frame.passes]
  cases frame.isGroup <;> simp

/-- What a tag stands for when it is closed is what it lets through. -/
theorem output (h : Collects replaced opened frame stretch) (hopen : frame.passes) :
    opened.output.atoms =
      fitting (fun above => Frame.reaches replaced (above ++ [frame])) stretch := by
  have hsnoc : (fun above => Frame.reaches replaced (above ++ [frame])) = fun above =>
      Frame.reaches replaced above &&
        (!frame.isGroup || above.getLast?.any (frame.takes replaced)) := by
    funext above
    rw [Frame.reaches_snoc, hopen, Bool.and_true]
  rw [hsnoc, OpenTag.output, h.isTry]
  cases hgroup : frame.isGroup with
  | false =>
    rw [if_neg (by decide), h.content]
    refine fitting_congr fun delivery _ => ?_
    simp only [Frame.content, hgroup, hopen, Bool.not_false, Bool.true_or]
    rfl
  | true =>
    rw [if_pos rfl]
    have hsome := h.isSome
    rw [hgroup, Bool.true_and] at hsome
    cases hfallback : opened.fallback with
    | some branch =>
      have hbranch := h.fallback
      rw [hfallback] at hbranch hsome
      refine Eq.trans hbranch (fitting_congr fun delivery _ => ?_)
      have htakes : frame.takes replaced = Frame.isFallback := by
        funext inner
        simp only [Frame.takes, hgroup, ← hsome, Option.isSome_some, Bool.not_true, Bool.and_false,
          Bool.false_or]
      simp only [Frame.fallback, hgroup, htakes, Bool.not_true, Bool.false_or, Bool.and_true]
    | none =>
      -- nothing came in place of the attempts, and so nothing of the kind was delivered
      have hnone := h.fallback
      rw [hfallback] at hnone hsome
      have hno := fitting_eq_nil_iff.mp hnone.symm
      refine Eq.trans h.content (fitting_congr fun delivery hmem => ?_)
      have hfits := hno delivery hmem
      simp only [Frame.fallback, hgroup, Bool.and_true] at hfits
      simp only [Frame.content, hgroup, if_true, Bool.not_true, Bool.false_or]
      cases hlast : delivery.2.getLast? with
      | none => rfl
      | some inner =>
        rw [hlast, Option.any_some] at hfits
        simp only [Option.any_some, Frame.takes, hgroup, ← hsome, Option.isSome_none,
          Bool.not_true, Bool.not_false, Bool.and_true, Bool.false_or, Bool.and_or_distrib_left,
          hfits, Bool.or_false]

theorem deliver (h : Collects replaced opened frame stretch) {add : Fragment → Fragment}
    {atoms : List Atom} (hadd : ∀ fragment, (add fragment).atoms = fragment.atoms ++ atoms) :
    Collects replaced
      (if opened.retains then { opened with content := add opened.content } else opened)
      frame (stretch ++ atoms.map fun atom => (atom, [])) := by
  have hcontent : frame.content replaced [] = opened.retains := by
    rw [h.retains, Frame.content]
    cases frame.isGroup <;> simp [Frame.reaches]
  have hfallback : frame.fallback replaced [] = false := by
    simp [Frame.fallback]
  by_cases hretains : opened.retains
  · rw [if_pos hretains]
    refine ⟨h.tag, h.retains, ?_, ?_, h.isSome⟩
    · rw [fitting_append, fitting_now, hcontent, if_pos hretains, ← h.content]
      exact hadd opened.content
    · rw [fitting_append, fitting_now, hfallback, ← h.fallback]
      exact (List.append_nil _).symm
  · rw [if_neg hretains]
    refine ⟨h.tag, h.retains, ?_, ?_, h.isSome⟩
    · rw [fitting_append, fitting_now, hcontent, if_neg hretains, ← h.content, List.append_nil]
    · rw [fitting_append, fitting_now, hfallback, ← h.fallback]
      exact (List.append_nil _).symm

theorem through (h : Collects replaced opened frame stretch) (wanted : Bool) :
    fitting (fun above => Frame.reaches replaced (above ++ [frame]) && wanted) stretch =
      if wanted && frame.passes then opened.output.atoms else [] := by
  cases hwanted : wanted && frame.passes with
  | true =>
    obtain ⟨hw, hopen⟩ := Bool.and_eq_true_iff.mp hwanted
    rw [if_pos rfl, h.output hopen, hw]
    simp only [Bool.and_true]
  | false =>
    rw [if_neg (by decide), fitting_eq_nil_iff]
    intro delivery _
    rw [Frame.reaches_snoc]
    rcases Bool.and_eq_false_iff.mp hwanted with hw | hpasses
    · rw [hw, Bool.and_false]
    · rw [hpasses, Bool.and_false, Bool.false_and, Bool.false_and]

end Collects

/-! ## Closing a tag inside another one -/

namespace OpenTag

variable {parent closed : OpenTag}

/-- What joins the content of the tag around a closed one. -/
def joins (parent closed : OpenTag) : Bool :=
  if parent.isTry then closed.tag == .attempt else parent.retains && closed.isKept

/-- What joins the fallback of the tag around a closed one. -/
def replaces (parent closed : OpenTag) : Bool :=
  parent.isTry && closed.tag == .except && closed.retains

theorem adopt_tag : (parent.adopt closed).tag = parent.tag := by
  rw [adopt]
  repeat' split
  all_goals rfl

theorem adopt_retains : (parent.adopt closed).retains = parent.retains := by
  rw [adopt]
  repeat' split
  all_goals rfl

theorem adopt_content (h : parent.isTry → parent.retains = false) :
    (parent.adopt closed).content.atoms =
      parent.content.atoms ++ if parent.joins closed then closed.output.atoms else [] := by
  rw [adopt, joins]
  cases htry : parent.isTry with
  | false =>
    simp only [Bool.false_and, if_false, Bool.false_eq_true]
    split <;> simp
  | true =>
    rw [h htry]
    simp only [Bool.true_and, Bool.false_and, if_true, if_false, Bool.false_eq_true]
    by_cases hattempt : closed.tag = .attempt
    · simp [hattempt]
    · simp only [beq_eq_false_iff_ne.mpr hattempt, if_false, Bool.false_eq_true, List.append_nil]
      split
      · split <;> rfl
      · rfl

theorem adopt_fallback :
    (parent.adopt closed).fallback =
      if parent.replaces closed then some (parent.fallback.getD .empty ++ closed.output)
      else parent.fallback := by
  rw [adopt, replaces]
  cases parent.isTry with
  | false =>
    simp only [Bool.false_and, if_false, Bool.false_eq_true]
    split <;> rfl
  | true =>
    simp only [Bool.true_and]
    by_cases hattempt : closed.tag = .attempt
    · simp [hattempt]
    · simp only [beq_eq_false_iff_ne.mpr hattempt, if_false, Bool.false_eq_true]
      by_cases hexcept : closed.tag = .except
      · cases hretains : closed.retains <;> simp [hexcept]
      · simp only [beq_eq_false_iff_ne.mpr hexcept, Bool.false_and, if_false, Bool.false_eq_true]
        split <;> rfl

end OpenTag

/-- Every tag has a number of its own, so that a group that is replaced now was around none of
the output with other tags around it. -/
theorem Frame.reaches_cons {replaced : List Nat} {number : Nat} {frames : List Frame}
    (h : ∀ frame ∈ frames, frame.number ≠ number) :
    reaches (number :: replaced) frames = reaches replaced frames := by
  have htakes : ∀ pair ∈ frames.zip frames.tail,
      pair.2.takes (number :: replaced) pair.1 = pair.2.takes replaced pair.1 := by
    intro pair hmem
    have hne := h pair.2 (List.mem_of_mem_tail (List.of_mem_zip hmem).2)
    have hcontains : (number :: replaced).contains pair.2.number =
        replaced.contains pair.2.number := by
      rw [List.contains_cons, beq_eq_false_iff_ne.mpr hne, Bool.false_or]
    rw [takes, takes, hcontains]
  have hpairs : ((frames.zip frames.tail).all fun pair =>
        pair.2.takes (number :: replaced) pair.1) =
      (frames.zip frames.tail).all fun pair => pair.2.takes replaced pair.1 := by
    rw [Bool.eq_iff_iff, List.all_eq_true, List.all_eq_true]
    exact forall₂_congr fun pair hmem => by rw [htakes pair hmem]
  exact congrArg (fun pairs => _ && pairs) hpairs

/-- None of the tags is one of the given numbers. -/
def Apart (numbers : List Nat) (frames : List Frame) : Prop :=
  ∀ frame ∈ frames, frame.number ∉ numbers

theorem Apart.ne {numbers : List Nat} {frames : List Frame} {number : Nat}
    (h : Apart numbers frames) (hmem : number ∈ numbers) :
    ∀ frame ∈ frames, frame.number ≠ number := by
  rintro frame hframe rfl
  exact h frame hframe hmem

namespace Collects

variable {replaced : List Nat} {opened parent : OpenTag} {frame outer : Frame}
  {stretch before : List Delivery}

theorem cons (h : Collects replaced opened frame stretch) {number : Nat}
    (hne : frame.number ≠ number)
    (hapart : ∀ delivery ∈ stretch, ∀ inner ∈ delivery.2, inner.number ≠ number) :
    Collects (number :: replaced) opened frame stretch := by
  refine ⟨h.tag, h.retains, ?_, ?_, ?_⟩
  · rw [h.content]
    refine fitting_congr fun delivery hmem => ?_
    rw [Frame.content, Frame.content, Frame.reaches_cons (hapart delivery hmem)]
  · rw [h.fallback]
    refine fitting_congr fun delivery hmem => ?_
    rw [Frame.fallback, Frame.fallback, Frame.reaches_cons (hapart delivery hmem)]
  · rw [h.isSome, List.contains_cons, beq_eq_false_iff_ne.mpr hne, Bool.false_or]

/-- What a tag directly inside another one adds to what that one has collected. -/
theorem content_snoc (h : Collects replaced opened frame stretch) (outer : Frame) :
    fitting (outer.content replaced) (inside [frame] stretch) =
      if (if outer.isGroup then frame.isAttempt else outer.passes) && frame.passes
      then opened.output.atoms else [] := by
  rw [fitting_inside, ← h.through]
  refine fitting_congr fun delivery _ => ?_
  rw [Frame.content, List.getLast?_concat, Option.any_some]

theorem fallback_snoc (h : Collects replaced opened frame stretch) (outer : Frame) :
    fitting (outer.fallback replaced) (inside [frame] stretch) =
      if outer.isGroup && frame.isFallback && frame.passes then opened.output.atoms else [] := by
  rw [fitting_inside, ← h.through]
  refine fitting_congr fun delivery _ => ?_
  rw [Frame.fallback, List.getLast?_concat, Option.any_some, Bool.and_assoc]

/-- A tag that is closed directly inside another one leaves there what it lets through. -/
theorem adopt (hparent : Collects replaced parent outer before)
    (h : Collects replaced opened frame stretch) (hne : frame.number ≠ outer.number)
    (hbefore : ∀ delivery ∈ before, ∀ inner ∈ delivery.2, inner.number ≠ outer.number)
    (hstretch : ∀ delivery ∈ stretch, ∀ inner ∈ delivery.2, inner.number ≠ outer.number) :
    Collects (outer.replacing replaced frame) (parent.adopt opened) outer
      (before ++ inside [frame] stretch) := by
  have hsame : ∀ delivery ∈ before ++ inside [frame] stretch,
      Frame.reaches (outer.replacing replaced frame) delivery.2 =
        Frame.reaches replaced delivery.2 := by
    intro delivery hmem
    rw [Frame.replacing]
    split
    · refine Frame.reaches_cons ?_
      rcases List.mem_append.mp hmem with hmem | hmem
      · exact hbefore delivery hmem
      · obtain ⟨first, hfirst, rfl⟩ := List.mem_map.mp hmem
        exact List.forall_mem_append.mpr
          ⟨hstretch first hfirst, List.forall_mem_singleton.mpr hne⟩
    · rfl
  have htry : parent.isTry → parent.retains = false := by
    intro h
    rw [hparent.retains, ← hparent.isTry, h, Bool.not_true, Bool.and_false]
  have hjoins : parent.joins opened =
      ((if outer.isGroup then frame.isAttempt else outer.passes) && frame.passes) := by
    rw [OpenTag.joins, hparent.isTry, h.tag, hparent.retains, h.isKept]
    cases outer.isGroup with
    | false => rw [if_neg (by decide), if_neg (by decide), Bool.not_false, Bool.and_true]
    | true => exact (frame.isAttempt_and_passes).symm
  have hreplaces : parent.replaces opened =
      (outer.isGroup && frame.isFallback && frame.passes) := by
    rw [OpenTag.replaces, hparent.isTry, h.tag, h.retains, Bool.and_assoc, Bool.and_assoc,
      frame.isFallback_and_passes, frame.isExcept_and_retains]
  refine ⟨OpenTag.adopt_tag.trans hparent.tag, OpenTag.adopt_retains.trans hparent.retains, ?_, ?_,
    ?_⟩
  · rw [OpenTag.adopt_content htry, hjoins, hparent.content, ← h.content_snoc, ← fitting_append]
    refine fitting_congr fun delivery hmem => ?_
    rw [Frame.content, Frame.content, hsame delivery hmem]
  · have hsnoc := h.fallback_snoc outer
    rw [← hreplaces] at hsnoc
    have hfits : fitting (outer.fallback replaced) (before ++ inside [frame] stretch) =
        ((parent.adopt opened).fallback.getD .empty).atoms := by
      rw [fitting_append, ← hparent.fallback, hsnoc, OpenTag.adopt_fallback]
      split <;> simp
    rw [← hfits]
    refine fitting_congr fun delivery hmem => ?_
    rw [Frame.fallback, Frame.fallback, hsame delivery hmem]
  · rw [OpenTag.adopt_fallback, hreplaces, Bool.and_assoc, frame.isFallback_and_passes,
      Bool.and_comm, Frame.replacing]
    cases hreplaced : frame.isFallback && outer.isGroup with
    | false =>
      rw [if_neg (by decide), if_neg (by decide)]
      exact hparent.isSome
    | true =>
      rw [if_pos rfl, if_pos rfl, (Bool.and_eq_true_iff.mp hreplaced).2, List.contains_cons,
        beq_self_eq_true]
      rfl

end Collects

end Page
end EdgeIncludes
