/-
Output in its normal form.

Output is put together from text, from slots, and from the output of other tags.  In whatever
order that was done, what is kept is in one form: no text in it is empty and no two texts stand
side by side (`Making.canonical`).  Segments in that form can be read back off the atoms that they
consist of (`Canonical.gather_atoms`), so that two outputs are equal just if they consist of the
same bytes and slots.  The laws of putting output together are then laws about sequences of atoms,
and so are those of the page that comes of it, which is a sum over its atoms.
-/
import EdgeIncludes.Proofs.Page.Slots
import Mathlib.Data.List.Chain
import Mathlib.Data.List.Induction

namespace EdgeIncludes
namespace Page

/-! ## Segments in normal form -/

def Segment.isLiteral : Segment → Bool
  | .literal _ => true
  | .slot _ => false

/-- No text is empty, and no two texts stand side by side. -/
structure Canonical (segments : List Segment) : Prop where
  nonempty : .literal [] ∉ segments
  apart : segments.IsChain fun front back => ¬ (front.isLiteral ∧ back.isLiteral)

theorem canonical_nil : Canonical [] :=
  ⟨List.not_mem_nil, List.isChain_nil⟩

theorem canonical_singleton {segment : Segment} :
    Canonical [segment] ↔ segment ≠ .literal [] := by
  constructor
  · intro h heq
    exact h.nonempty (heq ▸ List.mem_cons_self)
  · intro hne
    exact ⟨fun hmem => hne (List.mem_singleton.mp hmem).symm, List.isChain_singleton segment⟩

/-- Segments are in normal form if the parts are and no two texts meet at the seam. -/
theorem canonical_append {front back : List Segment} :
    Canonical (front ++ back) ↔ Canonical front ∧ Canonical back ∧
      ∀ last ∈ front.getLast?, ∀ first ∈ back.head?, ¬ (last.isLiteral ∧ first.isLiteral) := by
  constructor
  · intro h
    have hchain := List.isChain_append.mp h.apart
    have hmem := mt List.mem_append.mpr h.nonempty
    exact ⟨⟨fun hfront => hmem (Or.inl hfront), hchain.1⟩,
      ⟨fun hback => hmem (Or.inr hback), hchain.2.1⟩, hchain.2.2⟩
  · rintro ⟨hfront, hback, hseam⟩
    refine ⟨?_, List.isChain_append.mpr ⟨hfront.apart, hback.apart, hseam⟩⟩
    intro hmem
    rcases List.mem_append.mp hmem with hmem | hmem
    · exact hfront.nonempty hmem
    · exact hback.nonempty hmem

/-! ## Reading segments off atoms -/

/-- Put a byte before segments, joining it to text that stands there. -/
def joinByte (b : UInt8) : List Segment → List Segment
  | .literal bytes :: rest => .literal (b :: bytes) :: rest
  | segments => .literal [b] :: segments

/-- The segments in normal form that consist of the atoms. -/
def gather : List Atom → List Segment
  | [] => []
  | .byte b :: rest => joinByte b (gather rest)
  | .slot number :: rest => .slot number :: gather rest

theorem joinByte_of_not_literal {segments : List Segment}
    (h : ∀ first ∈ segments.head?, first.isLiteral = false) (b : UInt8) :
    joinByte b segments = .literal [b] :: segments := by
  cases segments with
  | nil => rfl
  | cons first rest =>
    cases first with
    | slot number => rfl
    | literal bytes => exact absurd (h _ rfl) Bool.true_eq_false.mp

theorem gather_bytes {rest : List Atom}
    (h : ∀ first ∈ (gather rest).head?, first.isLiteral = false) (b : UInt8) (bytes : Bytes) :
    gather ((b :: bytes).map .byte ++ rest) = .literal (b :: bytes) :: gather rest := by
  induction bytes generalizing b with
  | nil => exact joinByte_of_not_literal h b
  | cons c bytes ih =>
    show joinByte b (gather ((c :: bytes).map .byte ++ rest)) = _
    rw [ih c]
    rfl

/-- Segments in normal form are read back off the atoms that they consist of. -/
theorem Canonical.gather_atoms {segments : List Segment} (h : Canonical segments) :
    gather (segments.flatMap Segment.atoms) = segments := by
  induction segments with
  | nil => rfl
  | cons segment rest ih =>
    obtain ⟨hsegment, hrest, hseam⟩ := (@canonical_append [segment] rest).mp h
    have hback := ih hrest
    rw [List.flatMap_cons]
    cases segment with
    | slot number => exact congrArg (Segment.slot number :: ·) hback
    | literal bytes =>
      cases bytes with
      | nil => exact absurd rfl (canonical_singleton.mp hsegment)
      | cons b bytes =>
        -- the text ends here, because no text stands behind it
        have hnext : ∀ first ∈ (gather (rest.flatMap Segment.atoms)).head?,
            first.isLiteral = false := by
          intro first hfirst
          rw [hback] at hfirst
          have hnot := hseam _ rfl first hfirst
          rw [← Bool.not_eq_true]
          exact fun hliteral => hnot ⟨rfl, hliteral⟩
        show gather ((b :: bytes).map .byte ++ rest.flatMap Segment.atoms) = _
        rw [gather_bytes hnext, hback]

/-! ## Putting output together -/

namespace Fragment

theorem addLiteral_snoc (bytes : Bytes) (front : List Segment) (last : Segment) :
    addLiteral bytes (front ++ [last]) = front ++ addLiteral bytes [last] := by
  induction front with
  | nil => rfl
  | cons segment front ih =>
    have hne : front ++ [last] ≠ [] := List.append_ne_nil_of_right_ne_nil front (by simp)
    rw [List.cons_append, addLiteral_cons hne, ih, List.cons_append]

theorem canonical_addLiteral {bytes : Bytes} (hbytes : bytes ≠ []) {segments : List Segment}
    (h : Canonical segments) : Canonical (addLiteral bytes segments) := by
  have hnew : Canonical [.literal bytes] := canonical_singleton.mpr fun heq => by
    cases heq
    exact hbytes rfl
  rcases List.eq_nil_or_concat' segments with rfl | ⟨front, last, rfl⟩
  · exact hnew
  · obtain ⟨hfront, -, hseam⟩ := canonical_append.mp h
    rw [addLiteral_snoc]
    cases last with
    | slot number =>
      have hslot : Canonical [.slot number] := canonical_singleton.mpr (by simp)
      have hback : Canonical ([.slot number] ++ [.literal bytes]) :=
        canonical_append.mpr ⟨hslot, hnew, by simp [Segment.isLiteral]⟩
      exact canonical_append.mpr ⟨hfront, hback, hseam⟩
    | literal text =>
      have hjoined : Canonical [.literal (text ++ bytes)] := canonical_singleton.mpr fun heq => by
        cases List.append_eq_nil_iff.mp (Segment.literal.inj heq) with
        | intro _ hnil => exact hbytes hnil
      -- a longer text meets what the text met before
      refine canonical_append.mpr ⟨hfront, hjoined, ?_⟩
      intro previous hprevious first hfirst
      cases hfirst
      exact hseam previous hprevious (.literal text) rfl

theorem canonical_pushBytes {output : Fragment} (h : Canonical output.segments) (bytes : Bytes) :
    Canonical (output.pushBytes bytes).segments := by
  by_cases hbytes : bytes = []
  · rw [hbytes, pushBytes_nil]
    exact h
  · rw [pushBytes_of_ne_nil hbytes]
    exact canonical_addLiteral hbytes h

theorem canonical_pushSlot {output : Fragment} (h : Canonical output.segments) (number : Nat) :
    Canonical (output.pushSlot number).segments := by
  have hslot : Canonical [.slot number] := canonical_singleton.mpr (by simp)
  exact canonical_append.mpr ⟨h, hslot, by simp [Segment.isLiteral]⟩

/-- Whatever is put behind output in normal form, the result is in normal form. -/
theorem canonical_append {output : Fragment} (h : Canonical output.segments) (other : Fragment) :
    Canonical (output ++ other).segments := by
  show Canonical (other.segments.foldl push output).segments
  induction other.segments generalizing output with
  | nil => exact h
  | cons segment rest ih =>
    cases segment with
    | literal bytes => exact ih (canonical_pushBytes h bytes)
    | slot number => exact ih (canonical_pushSlot h number)

/-- Output in normal form is determined by the bytes and slots that it consists of. -/
theorem eq_of_atoms_eq {output other : Fragment} (h : Canonical output.segments)
    (hother : Canonical other.segments) (hatoms : output.atoms = other.atoms) : output = other := by
  obtain ⟨segments⟩ := output
  obtain ⟨others⟩ := other
  have hsegments : segments = others :=
    calc segments
        = gather (segments.flatMap Segment.atoms) := h.gather_atoms.symm
      _ = gather (others.flatMap Segment.atoms) := congrArg gather hatoms
      _ = others := hother.gather_atoms
  rw [hsegments]

end Fragment

/-! ## Pages -/

/-- What an atom comes to once the fragments are there. -/
def Atom.fill (fragment? : Nat → Option Bytes) : Atom → Bytes
  | .byte b => [b]
  | .slot number => (fragment? number).getD []

theorem Segment.fill_eq (fragment? : Nat → Option Bytes) (segment : Segment) :
    segment.fill fragment? = segment.atoms.flatMap (Atom.fill fragment?) := by
  cases segment with
  | slot number => exact (List.append_nil _).symm
  | literal bytes =>
    show bytes = (bytes.map Atom.byte).flatMap (Atom.fill fragment?)
    rw [List.flatMap_map]
    exact (List.flatMap_singleton' bytes).symm

/-- A page is what its atoms come to, one after the other. -/
theorem Document.render_eq (document : Document) (fragment? : Nat → Option Bytes) :
    document.render fragment? = document.atoms.flatMap (Atom.fill fragment?) := by
  rw [render, atoms, List.flatMap_assoc]
  congr 1
  funext segment
  exact segment.fill_eq fragment?

/-- A page depends on the fragments of its pending slots and on no others. -/
theorem Document.render_congr {document : Document} {fragment? other? : Nat → Option Bytes}
    (h : ∀ number ∈ document.pending, fragment? number = other? number) :
    document.render fragment? = document.render other? := by
  rw [render_eq, render_eq]
  refine List.flatMap_congr fun atom hatom => ?_
  cases atom with
  | byte b => rfl
  | slot number =>
    have hslot : number ∈ document.pending := by
      rw [mem_pending_iff, slots_eq, List.mem_filterMap]
      exact ⟨_, hatom, rfl⟩
    rw [Atom.fill, Atom.fill, h number hslot]

/-! ## Any output -/

/-- A way in which output can be put together. -/
inductive Making where
  | nothing
  | text (made : Making) (bytes : Bytes)
  | slot (made : Making) (number : Nat)
  /-- One output, and another one behind it. -/
  | joined (made other : Making)
deriving Repr, DecidableEq

namespace Making

def output : Making → Fragment
  | nothing => .empty
  | text made bytes => made.output.pushBytes bytes
  | slot made number => made.output.pushSlot number
  | joined made other => made.output ++ other.output

/-- What was put in, in the order of the output. -/
def atoms : Making → List Atom
  | nothing => []
  | text made bytes => made.atoms ++ bytes.map .byte
  | slot made number => made.atoms ++ [.slot number]
  | joined made other => made.atoms ++ other.atoms

theorem canonical (making : Making) : Canonical making.output.segments := by
  induction making with
  | nothing => exact canonical_nil
  | text made bytes ih => exact Fragment.canonical_pushBytes ih bytes
  | slot made number ih => exact Fragment.canonical_pushSlot ih number
  | joined made other ih _ => exact Fragment.canonical_append ih other.output

/-- The output consists of what was put in. -/
theorem atoms_output (making : Making) : making.output.atoms = making.atoms := by
  induction making with
  | nothing => rfl
  | text made bytes ih => rw [output, Fragment.atoms_pushBytes, ih, atoms]
  | slot made number ih => rw [output, Fragment.atoms_pushSlot, ih, atoms]
  | joined made other ih ihother => rw [output, Fragment.atoms_append, ih, ihother, atoms]

/-- Two ways of putting output together have the same result if they put in the same. -/
theorem output_eq {making other : Making} (h : making.atoms = other.atoms) :
    making.output = other.output :=
  Fragment.eq_of_atoms_eq making.canonical other.canonical (by rw [atoms_output, atoms_output, h])

/-- Output is in normal form, however it was put together, and so it is the same just if it
consists of the same bytes and slots.  To put output behind output is to put their bytes and slots
one behind the other; the order in which that is done does not matter, and empty output is its
unit.  The page of joined output is the one page and then the other, and of the fragments a page
needs those of its pending slots only. -/
theorem output_laws (first second third : Making) (requests : List Include.Request) :
    Canonical first.output.segments ∧
      first.output.atoms = first.atoms ∧
      (first.output = second.output ↔ first.output.atoms = second.output.atoms) ∧
      (first.output ++ second.output).atoms = first.output.atoms ++ second.output.atoms ∧
      first.output ++ second.output ++ third.output =
        first.output ++ (second.output ++ third.output) ∧
      .empty ++ first.output = first.output ∧
      first.output ++ .empty = first.output ∧
      (∀ fragment?, (Document.of (first.output ++ second.output) requests).render fragment? =
        (Document.of first.output requests).render fragment? ++
          (Document.of second.output requests).render fragment?) ∧
      ∀ fragment? other? : Nat → Option Bytes,
        (∀ number ∈ (Document.of first.output requests).pending,
          fragment? number = other? number) →
        (Document.of first.output requests).render fragment? =
          (Document.of first.output requests).render other? := by
  have hassoc : (joined (joined first second) third).output =
      (joined first (joined second third)).output := output_eq (List.append_assoc _ _ _)
  have hunit : (joined nothing first).output = first.output := output_eq (List.nil_append _)
  have hatoms := first.output.atoms_append second.output
  refine ⟨first.canonical, first.atoms_output, ?_, hatoms, hassoc, hunit, rfl, ?_, ?_⟩
  · constructor
    · exact congrArg Fragment.atoms
    · exact Fragment.eq_of_atoms_eq first.canonical second.canonical
  · intro fragment?
    rw [Document.render_eq, Document.render_eq, Document.render_eq, ← List.flatMap_append]
    exact congrArg (List.flatMap (Atom.fill fragment?)) hatoms
  · intro fragment? other? hsame
    exact Document.render_congr hsame

/-- A slot and a text behind it, the text in two pieces or taken over from another output.  Of
the fragments the page needs the one of its slot. -/
theorem output_laws_of_cut_text :
    let first : Making := .text (.text (.slot .nothing 0) [0x61]) [0x62]
    let second : Making := .joined (.slot .nothing 0) (.text (.text .nothing []) [0x61, 0x62])
    first.output = second.output ∧
      (Document.of first.output []).render (fun _ => some [0x63]) =
        (Document.of first.output []).render fun number => if number = 0 then some [0x63] else none :=
  have laws := fun first second => output_laws first second .nothing []
  ⟨(laws _ _).2.2.1.mpr (by decide), (laws _ .nothing).2.2.2.2.2.2.2.2 _ _ (by decide)⟩

end Making
end Page
end EdgeIncludes
