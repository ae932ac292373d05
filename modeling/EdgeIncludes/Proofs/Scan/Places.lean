/-
Where the parts of a draft are.

The scanner remembers the parts of a tag as offsets into the bytes at hand.  `cursors`
says which offsets those are for a given draft, counted from the place where the bytes that
are kept of the draft start, and `Holds` says that a scanner has them.  Since every offset
of a draft moves with that place, bytes in front of it can be dropped at any time.
-/
import EdgeIncludes.Proofs.Scan.Draft
import EdgeIncludes.Scan.Scanner

namespace EdgeIncludes
namespace Scan

open Ascii Markup

/-! ## Spans -/

namespace Span

theorem between_length (front part : Bytes) :
    between front.length (front ++ part).length = ⟨front.length, part.length⟩ := by
  rw [between, List.length_append, Nat.add_sub_cancel_left]

theorem slice?_middle (front part back : Bytes) :
    slice? ⟨front.length, part.length⟩ (front ++ part ++ back) = some part := by
  have hle : (⟨front.length, part.length⟩ : Span).stop ≤ (front ++ part ++ back).length := by
    simp only [stop, List.length_append]
    omega
  rw [slice?, if_pos hle]
  simp only [List.append_assoc, List.drop_left, List.take_left]

theorem trim?_middle {delimiters part : Bytes} (hleft : ∀ b ∈ delimiters, isLeftDelimiter b)
    (hpart : IsBare part) (front back : Bytes) :
    trim? ⟨front.length, (delimiters ++ part).length⟩ (front ++ (delimiters ++ part) ++ back) =
      some ⟨(front ++ delimiters).length, part.length⟩ := by
  have hkept : trimLeft (delimiters ++ part) = part := by
    rw [trimLeft_append hleft, hpart.trimLeft]
  rw [trim?, slice?_middle]
  simp only [Option.bind_eq_bind, Option.bind_some, hkept, hpart.trimRight, List.length_append,
    Nat.add_sub_cancel]

end Span

/-! ## Marks -/

/-- The bytes of pieces, cut where the mark stands: in front of the quote that ended the
last attribute, or in front of everything if there is none. -/
def markedFrom (cut : Bytes × Bytes) (pieces : List Piece) : Bytes × Bytes :=
  pieces.foldl (fun (before, since) piece =>
    match piece with
    | .space b => (before, since ++ [b])
    | .pair key gap quote content =>
      (before ++ since ++ key ++ equals :: (gap ++ quote :: contentBytes content), [quote])) cut

def marked (pieces : List Piece) : Bytes × Bytes :=
  markedFrom ([], []) pieces

theorem marked_snoc_space (pieces : List Piece) (b : UInt8) :
    marked (pieces ++ [.space b]) = ((marked pieces).1, (marked pieces).2 ++ [b]) := by
  rw [marked, markedFrom, List.foldl_append]
  rfl

theorem marked_snoc_pair (pieces : List Piece) (key gap : Bytes) (quote : UInt8)
    (content : List EscapeUnit) :
    marked (pieces ++ [.pair key gap quote content]) =
      ((marked pieces).1 ++ (marked pieces).2 ++ key ++
        equals :: (gap ++ quote :: contentBytes content), [quote]) := by
  rw [marked, markedFrom, List.foldl_append]
  rfl

theorem markedFrom_bytes (cut : Bytes × Bytes) (pieces : List Piece) :
    (markedFrom cut pieces).1 ++ (markedFrom cut pieces).2 =
      cut.1 ++ cut.2 ++ piecesBytes pieces := by
  induction pieces generalizing cut with
  | nil => rw [piecesBytes_nil, List.append_nil]; rfl
  | cons piece pieces ih =>
    rw [markedFrom, List.foldl_cons]
    refine (ih _).trans ?_
    cases piece <;> simp [piecesBytes, Piece.written]

theorem marked_bytes (pieces : List Piece) :
    (marked pieces).1 ++ (marked pieces).2 = piecesBytes pieces :=
  markedFrom_bytes ([], []) pieces

/-- What stands between the mark and the next key is trimmed off the key. -/
theorem markedFrom_delimiters {cut : Bytes × Bytes} {pieces : List Piece}
    (hcut : ∀ b ∈ cut.2, isLeftDelimiter b) (hv : ∀ piece ∈ pieces, piece.Valid) :
    ∀ b ∈ (markedFrom cut pieces).2, isLeftDelimiter b := by
  induction pieces generalizing cut with
  | nil => exact hcut
  | cons piece pieces ih =>
    obtain ⟨hpiece, hrest⟩ := List.forall_mem_cons.mp hv
    rw [markedFrom, List.foldl_cons]
    refine ih ?_ hrest
    cases piece with
    | space b =>
      exact List.forall_mem_append.mpr
        ⟨hcut, List.forall_mem_singleton.mpr (isLeftDelimiter_of_isSpace hpiece)⟩
    | pair key gap quote content =>
      exact List.forall_mem_singleton.mpr (isLeftDelimiter_of_isQuote hpiece.2.2.1)

theorem marked_delimiters {pieces : List Piece} (hv : PiecesValid pieces) :
    ∀ b ∈ (marked pieces).2, isLeftDelimiter b :=
  markedFrom_delimiters (by simp) hv.2

/-! ## Offsets of a draft -/

namespace Draft

/-- The bytes of the draft in front of the ones that are kept.  Once the name has ended,
nothing before it is needed. -/
def bracket : Draft → Bytes
  | .afterName .. => [lessThan, slash]
  | .inTag .. => [lessThan]
  | _ => []

/-- The bytes of the draft that are kept. -/
def kept : Draft → Bytes
  | .afterName letters gap => namespaceBytes ++ letters ++ gap
  | .inTag letters pieces tail => namespaceBytes ++ letters ++ (piecesBytes pieces ++ tail.written)
  | draft => draft.bytes

theorem bracket_append_kept (draft : Draft) : draft.bracket ++ draft.kept = draft.bytes := by
  cases draft <;> simp [bracket, kept, bytes, opener]

theorem kept_stage {draft : Draft} {b : UInt8} {next : State} (h : Leads draft.state b next)
    (hbracket : (draft.stage b next).bracket = draft.bracket) :
    (draft.stage b next).kept = draft.kept ++ [b] := by
  have hbytes := stage_bytes h
  rw [← bracket_append_kept, ← bracket_append_kept, hbracket, List.append_assoc] at hbytes
  exact List.append_cancel_left hbytes

def nameStop (base : Nat) (letters : Bytes) : Nat :=
  base + (namespaceBytes ++ letters).length

/-- The offsets that the scanner remembers of the draft, if the kept bytes start at
`base`. -/
def cursors (base : Nat) : Draft → Cursors
  | .text => {}
  | .opened | .inNamespace .. | .inName .. => { mark := some base }
  | .afterName letters _ =>
    { mark := some (nameStop base letters)
      name := some ⟨base, (namespaceBytes ++ letters).length⟩ }
  | .inTag letters pieces tail =>
    let reach := nameStop base letters + (piecesBytes pieces).length
    { mark := match tail with
        | .beforeValue key _ | .inValue key .. | .escaped key .. => some (reach + key.length)
        | _ => some (nameStop base letters + (marked pieces).1.length)
      name := some ⟨base, (namespaceBytes ++ letters).length⟩
      key := match tail with
        | .beforeValue key _ | .inValue key .. | .escaped key .. => some ⟨reach, key.length⟩
        | _ => none
      value := match tail with
        | .inValue key .. | .escaped key .. => some ⟨reach + key.length, 0⟩
        | _ => none }

theorem le_of_mem_offsets {draft : Draft} {base offset : Nat}
    (h : offset ∈ (draft.cursors base).offsets) : base ≤ offset := by
  cases draft with
  | inTag letters pieces tail =>
    cases tail <;> simp [Draft.cursors, Cursors.offsets, Draft.nameStop] at h <;> omega
  | _ => simp [Draft.cursors, Cursors.offsets, Draft.nameStop] at h <;> omega

theorem lowest?_cursors {draft : Draft} (h : draft ≠ .text) (base : Nat) :
    (draft.cursors base).lowest? = some base := by
  rw [Cursors.lowest?, List.min?_eq_some_iff]
  refine ⟨?_, fun offset => le_of_mem_offsets⟩
  cases draft with
  | text => exact absurd rfl h
  | _ => simp [Draft.cursors, Cursors.offsets]

theorem rebase?_cursors (draft : Draft) (base : Nat) :
    (draft.cursors base).rebase? base = some (draft.cursors 0) := by
  have hle : ((draft.cursors base).offsets.all fun offset => base ≤ offset) = true := by
    rw [List.all_eq_true]
    exact fun offset h => decide_eq_true (le_of_mem_offsets h)
  rw [Cursors.rebase?, if_pos hle]
  cases draft with
  | inTag letters pieces tail =>
    cases tail <;> simp [Draft.cursors, Draft.nameStop, Cursors.shifted, Nat.add_assoc]
  | _ => simp [Draft.cursors, Draft.nameStop, Cursors.shifted]

end Draft

/-- The scanner has the draft in hand, and the kept bytes start at `base` of its buffer. -/
structure Scanner.Holds (scanner : Scanner) (draft : Draft) (base : Nat) : Prop where
  state : scanner.state = draft.state
  staging : scanner.staging.bytes.toList = draft.bytes
  cursors : scanner.cursors = draft.cursors base
  attributes : scanner.attributes = draft.attributes

end Scan
end EdgeIncludes
