/-
How a page grows with what it is told.

Between two moments with the same tags open a builder can change in few ways: the innermost
tag has more output, more requests are registered, the innermost group has failed, and an
exception may be known of (`Builder.grown`).  An element as a whole is such a change, and so
is any sequence of siblings.  `Grows` is that, with what the output says once the slots in it
are read as the requests they stand for.
-/
import EdgeIncludes.Proofs.Page.Builder
import EdgeIncludes.Proofs.Page.Collected
import EdgeIncludes.Proofs.Page.Forest

namespace EdgeIncludes
namespace Page

open Markup (Event Piece piecesAttributes)

/-! ## Reading output -/

/-- With their slots looked up, the atoms are the content. -/
def Spells (requests : List Include.Request) (atoms : List Atom) (value : List Content) : Prop :=
  atoms.map (Atom.content? (requests[·]?)) = value.map some

namespace Spells

variable {requests : List Include.Request} {atoms more : List Atom} {value other : List Content}

theorem nil : Spells requests [] [] := rfl

theorem append (h : Spells requests atoms value) (hmore : Spells requests more other) :
    Spells requests (atoms ++ more) (value ++ other) := by
  rw [Spells, List.map_append, List.map_append, h, hmore]

theorem bytes (bytes : Bytes) : Spells requests (bytes.map .byte) (bytes.map .byte) := by
  rw [Spells, List.map_map, List.map_map]
  rfl

/-- Requests that are registered later change nothing. -/
theorem later (h : Spells requests atoms value) (new : List Include.Request) :
    Spells (requests ++ new) atoms value := by
  refine Eq.trans (List.map_congr_left fun atom hmem => ?_) h
  cases atom with
  | byte b => rfl
  | slot number =>
    have hread : Atom.content? (requests[·]?) (.slot number) ∈ value.map some :=
      h ▸ List.mem_map_of_mem hmem
    obtain ⟨content, -, hcontent⟩ := List.mem_map.mp hread
    obtain ⟨request, hrequest, -⟩ := Option.map_eq_some_iff.mp hcontent.symm
    have hlt : number < requests.length := (List.getElem?_eq_some_iff.mp hrequest).1
    show ((requests ++ new)[number]?).map Content.fragment = _
    rw [List.getElem?_append_left hlt]
    rfl

end Spells

/-- To go through the function is to get more output, and it is the content. -/
def Adds (requests : List Include.Request) (add : Fragment → Fragment) (value : List Content) :
    Prop :=
  ∃ atoms, (∀ fragment, (add fragment).atoms = fragment.atoms ++ atoms) ∧
    Spells requests atoms value

namespace Adds

variable {requests : List Include.Request} {add next : Fragment → Fragment}
  {value other : List Content}

theorem id : Adds requests id [] :=
  ⟨[], fun fragment => (List.append_nil fragment.atoms).symm, .nil⟩

theorem comp (h : Adds requests add value) (hnext : Adds requests next other) :
    Adds requests (next ∘ add) (value ++ other) := by
  obtain ⟨atoms, hadd, hatoms⟩ := h
  obtain ⟨more, hmore, hother⟩ := hnext
  refine ⟨atoms ++ more, fun fragment => ?_, hatoms.append hother⟩
  rw [Function.comp_apply, hmore, hadd, List.append_assoc]

theorem later (h : Adds requests add value) (new : List Include.Request) :
    Adds (requests ++ new) add value :=
  h.imp fun _ hadd => ⟨hadd.1, hadd.2.later new⟩

theorem spells (h : Adds requests add value) : Spells requests (add .empty).atoms value := by
  obtain ⟨atoms, hadd, hatoms⟩ := h
  rw [hadd]
  exact hatoms

end Adds

/-! ## Open tags -/

namespace OpenTag

/-- The open tag with more output, if it takes any. -/
def collect (add : Fragment → Fragment) (opened : OpenTag) : OpenTag :=
  if opened.retains then { opened with content := add opened.content } else opened

/-- What the end of the tag does to the output around it, unless it is a branch. -/
def through (closed : OpenTag) (output : Fragment) : Fragment :=
  if closed.isKept then output ++ closed.output else output

/-- The stack with the innermost group marked as failed if need be. -/
def marked (missed : Bool) (stack : List OpenTag) : List OpenTag :=
  if missed then failInnermost stack else stack

@[simp] theorem collect_tag (add : Fragment → Fragment) (opened : OpenTag) :
    (opened.collect add).tag = opened.tag := by
  rw [collect]
  split <;> rfl

theorem collect_collect (first second : Fragment → Fragment) (opened : OpenTag) :
    (opened.collect first).collect second = opened.collect (second ∘ first) := by
  by_cases hretains : opened.retains
  · simp only [collect, if_pos hretains, Function.comp_apply]
  · simp only [collect, if_neg hretains]

@[simp] theorem collect_id (opened : OpenTag) : opened.collect id = opened := by
  rw [collect]
  exact ite_self opened

@[simp] theorem adopt_failed (parent closed : OpenTag) :
    (parent.adopt closed).failed = parent.failed := by
  simp only [adopt, apply_ite failed, ite_self]

@[simp] theorem map_tag_failInnermost (stack : List OpenTag) :
    (failInnermost stack).map tag = stack.map tag := by
  have hunmarked := congrArg (List.map tag) (map_unmarked_failInnermost stack)
  rwa [List.map_map, List.map_map] at hunmarked

@[simp] theorem map_tag_marked (missed : Bool) (stack : List OpenTag) :
    (marked missed stack).map tag = stack.map tag := by
  cases missed with
  | false => rfl
  | true => exact map_tag_failInnermost stack

@[simp] theorem map_tag_modifyHead (add : Fragment → Fragment) (stack : List OpenTag) :
    (stack.modifyHead (collect add)).map tag = stack.map tag := by
  cases stack with
  | nil => rfl
  | cons top below => rw [List.modifyHead_cons, List.map_cons, collect_tag, List.map_cons]

theorem marked_marked (first second : Bool) (stack : List OpenTag) :
    marked second (marked first stack) = marked (first || second) stack := by
  cases first with
  | false => rfl
  | true =>
    cases second with
    | false => rfl
    | true => exact failInnermost_failInnermost stack

theorem marked_collect (missed : Bool) (add : Fragment → Fragment) (stack : List OpenTag) :
    (marked missed stack).modifyHead (collect add) =
      marked missed (stack.modifyHead (collect add)) := by
  cases missed with
  | false => rfl
  | true =>
    cases stack with
    | nil => rfl
    | cons top below =>
      have htag : (top.collect add).isTry = top.isTry := by rw [isTry, collect_tag, isTry]
      simp only [marked, if_true, List.modifyHead_cons, failInnermost, htag]
      cases htry : top.isTry with
      | false => simp
      | true =>
        cases hretains : top.retains <;> simp [collect, hretains]

end OpenTag

/-! ## Builders -/

namespace Builder

/-- The builder with more output in its innermost tag, more requests and a failure in its
innermost group. -/
def grown (builder : Builder) (add : Fragment → Fragment) (more : List Include.Request)
    (missed raised : Bool) : Builder :=
  { builder with
    stack := OpenTag.marked missed (builder.stack.modifyHead (OpenTag.collect add))
    root := if builder.stack.isEmpty then add builder.root else builder.root
    requests := builder.requests ++ more
    exceptionRaised := raised }

theorem deliver_eq_grown (builder : Builder) (add : Fragment → Fragment) :
    builder.deliver add = builder.grown add [] false builder.exceptionRaised := by
  obtain ⟨stack, root, requests, exceptionRaised, ignoring, silentErrors, logTags⟩ := builder
  cases stack with
  | nil => simp [deliver, grown, OpenTag.marked]
  | cons top below =>
    cases hretains : top.retains <;>
      simp [deliver, grown, OpenTag.marked, OpenTag.collect, hretains]

theorem raise_eq_grown (builder : Builder) : builder.raise = builder.grown id [] true true := by
  have hid : OpenTag.collect id = id := funext OpenTag.collect_id
  simp [raise, grown, OpenTag.marked, hid]

theorem grown_grown (builder : Builder) (first second : Fragment → Fragment)
    (more new : List Include.Request) (missed later raised last : Bool) :
    (builder.grown first more missed raised).grown second new later last =
      builder.grown (second ∘ first) (more ++ new) (missed || later) last := by
  have hstack : OpenTag.marked later
        ((OpenTag.marked missed (builder.stack.modifyHead (OpenTag.collect first))).modifyHead
          (OpenTag.collect second)) =
      OpenTag.marked (missed || later)
        (builder.stack.modifyHead (OpenTag.collect (second ∘ first))) := by
    have hcollect : OpenTag.collect second ∘ OpenTag.collect first =
        OpenTag.collect (second ∘ first) := funext (OpenTag.collect_collect first second)
    rw [OpenTag.marked_collect, OpenTag.marked_marked, List.modifyHead_modifyHead, hcollect]
  have hempty : (OpenTag.marked missed
      (builder.stack.modifyHead (OpenTag.collect first))).isEmpty = builder.stack.isEmpty := by
    rw [← List.isEmpty_map (f := OpenTag.tag), OpenTag.map_tag_marked,
      OpenTag.map_tag_modifyHead, List.isEmpty_map]
  simp only [grown, hstack, hempty, List.append_assoc]
  cases builder.stack.isEmpty <;> rfl

theorem grown_id (builder : Builder) (more : List Include.Request) (raised : Bool) :
    builder.grown id more false raised =
      { builder with requests := builder.requests ++ more, exceptionRaised := raised } := by
  have hid : OpenTag.collect id = id := funext OpenTag.collect_id
  simp [grown, OpenTag.marked, hid]

theorem grown_nothing (builder : Builder) :
    builder.grown id [] false builder.exceptionRaised = builder := by
  rw [grown_id, List.append_nil]

variable {builder : Builder} {opened : OpenTag}

end Builder

/-! ## Growth -/

/-- The builder has grown by the content, and by a failure of its innermost group if one was
missed.  What is added while includes are ignored does not matter. -/
def Grows (before after : Builder) (value : List Content) (missed : Bool) : Prop :=
  ∃ add more raised, after = before.grown add more missed raised ∧
    (raised → before.exceptionRaised ∨ missed) ∧
    (before.ignoring = false → Adds (before.requests ++ more) add value)

namespace Grows

variable {before middle after : Builder} {value other : List Content} {missed later : Bool}

theorem refl (builder : Builder) : Grows builder builder [] false :=
  ⟨id, [], builder.exceptionRaised, builder.grown_nothing.symm, Or.inl, fun _ => .id⟩

theorem tags (h : Grows before after value missed) :
    after.stack.map OpenTag.tag = before.stack.map OpenTag.tag := by
  obtain ⟨add, more, raised, rfl, -, -⟩ := h
  rw [Builder.grown, OpenTag.map_tag_marked, OpenTag.map_tag_modifyHead]

theorem trans (h : Grows before middle value missed) (hmore : Grows middle after other later) :
    Grows before after (value ++ other) (missed || later) := by
  obtain ⟨add, more, raised, rfl, hraised, hadds⟩ := h
  obtain ⟨next, new, last, rfl, hlast, hnext⟩ := hmore
  refine ⟨next ∘ add, more ++ new, last, Builder.grown_grown .., fun h => ?_, fun hignoring => ?_⟩
  · rw [Bool.or_eq_true]
    rcases hlast h with hraise | hlater
    · exact (hraised hraise).imp_right Or.inl
    · exact Or.inr (Or.inr hlater)
  · have hadded : Adds (before.requests ++ more ++ new) (next ∘ add) (value ++ other) :=
      ((hadds hignoring).later new).comp (hnext hignoring)
    rwa [List.append_assoc] at hadded

theorem deliver {add : Fragment → Fragment} (builder : Builder)
    (h : Adds builder.requests add value) : Grows builder (builder.deliver add) value false :=
  ⟨add, [], builder.exceptionRaised, builder.deliver_eq_grown add, Or.inl,
    fun _ => h.later []⟩

theorem output (builder : Builder) (bytes : Bytes) :
    Grows builder (builder.receive (.output bytes)) (bytes.map .byte) false :=
  deliver builder ⟨_, fun fragment => fragment.atoms_pushBytes bytes, .bytes bytes⟩

/-- The include itself, before anything is in it. -/
theorem register (builder : Builder) (hsilent : builder.silentErrors = false)
    (pieces : List Piece) :
    Grows builder (builder.register (piecesAttributes pieces))
      ((Forest.request? pieces).toList.map .fragment) (Forest.request? pieces).isNone := by
  rw [Builder.register, Forest.request?]
  cases Include.Request.ofAttributes (piecesAttributes pieces) with
  | ok request =>
    have hlookup : Spells (builder.requests ++ [request]) [.slot builder.nextNumber]
        [.fragment request] := by
      show [((builder.requests ++ [request])[builder.requests.length]?).map Content.fragment] = _
      rw [List.getElem?_concat_length]
      rfl
    refine ⟨fun output => output.pushSlot builder.nextNumber, [request], builder.exceptionRaised,
      ?_, Or.inl, fun _ => ⟨_, fun fragment => fragment.atoms_pushSlot _, hlookup⟩⟩
    simp only [Builder.deliver_eq_grown, Builder.grown, List.append_nil]
    rfl
  | error refusal =>
    simp only [hsilent, Bool.false_eq_true, if_false, Builder.raise_eq_grown]
    exact ⟨id, [], true, rfl, fun _ => Or.inr rfl, fun _ => .id⟩

/-- What opens other than a branch is the include that it may be. -/
theorem prepare (builder : Builder) (hsilent : builder.silentErrors = false) {tag : Tag}
    (hbranch : tag.isBranch = false) (pieces : List Piece) :
    Grows builder (builder.prepare tag (piecesAttributes pieces))
      (if tag = .inclusion then (Forest.request? pieces).toList.map .fragment else [])
      (Forest.asksNothing tag pieces && !builder.ignoring) := by
  cases tag with
  | attempt | except => cases hbranch
  | inclusion =>
    cases hignoring : builder.ignoring with
    | false =>
      have hprepare : builder.prepare .inclusion (piecesAttributes pieces) =
          builder.register (piecesAttributes pieces) := if_neg (by rw [hignoring]; decide)
      rw [hprepare, Bool.not_false, Bool.and_true]
      exact register builder hsilent pieces
    | true =>
      have hprepare : builder.prepare .inclusion (piecesAttributes pieces) = builder :=
        if_pos hignoring
      rw [hprepare, Bool.not_true, Bool.and_false]
      refine ⟨id, [], builder.exceptionRaised, builder.grown_nothing.symm, Or.inl, fun h => ?_⟩
      rw [hignoring] at h
      cases h
  | _ => exact refl builder

end Grows
end Page
end EdgeIncludes
