/-
Reading the parts of a tag off its bytes.

The scanner keeps a part of a tag by its place, together with the delimiters before it,
and trims the delimiters when the part is read.  The statements here say that what is left
is the part as the grammar has it: a name and a key are left as they are written, because
no byte of theirs is a delimiter, and a value spells what its content spells, because
everything from the `=` to the opening quote is trimmed.
-/
import EdgeIncludes.Proofs.Markup.Lexeme

namespace EdgeIncludes
namespace Ascii

/-! ## Byte classes -/

theorem isKeyByte_of_isLower {b : UInt8} (h : isLower b) : isKeyByte b := by
  simp only [isKeyByte, isKeyStart, h, Bool.true_or]

theorem isKeyByte_of_isKeyStart {b : UInt8} (h : isKeyStart b) : isKeyByte b := by
  simp only [isKeyByte, h, Bool.true_or]

theorem isDelimiter_of_isKeyByte {b : UInt8} (h : isKeyByte b) :
    isLeftDelimiter b = false ∧ isRightDelimiter b = false := by
  have hne : ∀ c, isKeyByte c = false → (b == c) = false := by
    intro c hc
    rw [beq_eq_false_iff_ne]
    rintro rfl
    exact absurd h (by rw [hc]; decide)
  have hspace : isSpace b = false := by
    simp only [isSpace, hne 0x20 (by decide), hne 0x09 (by decide), hne 0x0A (by decide),
      hne 0x0C (by decide), hne 0x0D (by decide), Bool.or_self]
  have hquote : isQuote b = false := by
    simp only [isQuote, hne doubleQuote (by decide), hne singleQuote (by decide), Bool.or_self]
  constructor
  · simp only [isLeftDelimiter, hspace, hquote, hne equals (by decide), hne lessThan (by decide),
      Bool.or_self]
  · simp only [isRightDelimiter, hspace, hquote, hne equals (by decide),
      hne greaterThan (by decide), Bool.or_self]

theorem isSpace_eq_false_of_isKeyByte {b : UInt8} (h : isKeyByte b) : isSpace b = false := by
  have := (isDelimiter_of_isKeyByte h).1
  grind [isLeftDelimiter]

theorem lt_of_isKeyByte {b : UInt8} (h : isKeyByte b) : b.toNat < 0x80 := by
  simp only [isKeyByte, isKeyStart, isLower, isUpper, isDigit, Bool.or_eq_true, Bool.and_eq_true,
    decide_eq_true_eq, beq_iff_eq, UInt8.le_iff_toNat_le] at h
  rcases h with (((h | h) | h) | h) | h
  · exact Nat.lt_of_le_of_lt h.2 (by decide)
  · exact Nat.lt_of_le_of_lt h.2 (by decide)
  · rw [h]; decide
  · rw [h]; decide
  · exact Nat.lt_of_le_of_lt h.2 (by decide)

theorem isLeftDelimiter_of_isSpace {b : UInt8} (h : isSpace b) : isLeftDelimiter b := by
  simp only [isLeftDelimiter, h, Bool.true_or]

theorem isLeftDelimiter_of_isQuote {b : UInt8} (h : isQuote b) : isLeftDelimiter b := by
  simp only [isLeftDelimiter, h, Bool.or_true, Bool.true_or]

end Ascii

namespace Markup

open Ascii

/-! ## Names and keys -/

theorem trimLeft_append {front : Bytes} (h : ∀ b ∈ front, isLeftDelimiter b) (rest : Bytes) :
    trimLeft (front ++ rest) = trimLeft rest :=
  List.dropWhile_append_of_pos h

/-- No byte is a delimiter, so that there is nothing to trim. -/
def IsBare (bytes : Bytes) : Prop :=
  ∀ b ∈ bytes, isLeftDelimiter b = false ∧ isRightDelimiter b = false

theorem IsBare.trimLeft {bytes : Bytes} (h : IsBare bytes) : trimLeft bytes = bytes := by
  cases bytes with
  | nil => rfl
  | cons b rest =>
    have hb := (h b List.mem_cons_self).1
    rw [Markup.trimLeft, List.dropWhile_cons_of_neg (by rw [hb]; decide)]

theorem IsBare.trimRight {bytes : Bytes} (h : IsBare bytes) : trimRight bytes = bytes := by
  rw [Markup.trimRight]
  cases hrev : bytes.reverse with
  | nil => rw [List.dropWhile_nil, ← hrev, List.reverse_reverse]
  | cons b rest =>
    have hmem : b ∈ bytes := by
      rw [← List.mem_reverse, hrev]
      exact List.mem_cons_self
    have hb := (h b hmem).2
    rw [List.dropWhile_cons_of_neg (by rw [hb]; decide), ← hrev, List.reverse_reverse]

theorem IsKey.forall_isKeyByte {key : Bytes} (h : IsKey key) : ∀ b ∈ key, isKeyByte b := by
  cases key with
  | nil => exact absurd h id
  | cons b rest =>
    intro c hc
    rcases List.mem_cons.mp hc with rfl | hc
    · exact isKeyByte_of_isKeyStart h.1
    · exact h.2 c hc

theorem IsKey.isBare {key : Bytes} (h : IsKey key) : IsBare key :=
  fun b hb => isDelimiter_of_isKeyByte (h.forall_isKeyByte b hb)

theorem IsName.isBare {letters : Bytes} (h : IsName letters) :
    IsBare (namespaceBytes ++ letters) := by
  have hnamespace : (namespaceBytes.all fun b => !isLeftDelimiter b && !isRightDelimiter b) := by
    decide
  refine List.forall_mem_append.mpr ⟨fun b hb => ?_, fun b hb => ?_⟩
  · have hb := List.all_eq_true.mp hnamespace b hb
    rwa [Bool.and_eq_true_iff, Bool.not_eq_true', Bool.not_eq_true'] at hb
  · exact isDelimiter_of_isKeyByte (isKeyByte_of_isLower (h.2 b hb))

/-! ## Values -/

/-- What stands between the `=` and the content of a value is trimmed. -/
theorem trimValue_content {gap : Bytes} {quote : UInt8} (hgap : IsGap gap)
    (hquote : isQuote quote) (content : Bytes) :
    trimValue (equals :: (gap ++ quote :: content)) = trimValue content := by
  have hfront : ∀ b ∈ equals :: (gap ++ [quote]), isLeftDelimiter b := by
    intro b hb
    rcases List.mem_cons.mp hb with rfl | hb
    · decide
    · rcases List.mem_append.mp hb with hb | hb
      · exact isLeftDelimiter_of_isSpace (hgap b hb)
      · rw [List.mem_singleton.mp hb]
        exact isLeftDelimiter_of_isQuote hquote
  have hsplit : equals :: (gap ++ quote :: content) = (equals :: (gap ++ [quote])) ++ content := by
    simp only [List.cons_append, List.append_assoc, List.nil_append]
  rw [trimValue, hsplit, trimLeft_append hfront]
  rfl

/-- What stands between the `=` and the content of a value does not change what the value
spells. -/
theorem valueBytes_content {gap : Bytes} {quote : UInt8} (hgap : IsGap gap)
    (hquote : isQuote quote) (content : Bytes) :
    valueBytes (equals :: (gap ++ quote :: content)) = valueBytes content :=
  congrArg unescape (trimValue_content hgap hquote content)

/-! ## Parts that grow -/

theorem IsName.snoc {letters : Bytes} {b : UInt8} (h : IsName letters) (hb : isLower b) :
    IsName (letters ++ [b]) :=
  ⟨List.append_ne_nil_of_left_ne_nil h.1 [b],
    List.forall_mem_append.mpr ⟨h.2, List.forall_mem_singleton.mpr hb⟩⟩

theorem IsGap.snoc {gap : Bytes} {b : UInt8} (h : IsGap gap) (hb : isSpace b) :
    IsGap (gap ++ [b]) :=
  List.forall_mem_append.mpr ⟨h, List.forall_mem_singleton.mpr hb⟩

theorem IsKey.snoc {key : Bytes} {b : UInt8} (h : IsKey key) (hb : isKeyByte b) :
    IsKey (key ++ [b]) := by
  cases key with
  | nil => exact absurd h id
  | cons c rest =>
    exact ⟨h.1, List.forall_mem_append.mpr ⟨h.2, List.forall_mem_singleton.mpr hb⟩⟩

theorem PiecesValid.snoc {pieces : List Piece} {piece : Piece} (h : PiecesValid pieces)
    (hfirst : pieces = [] → piece.IsSpace) (hpiece : piece.Valid) :
    PiecesValid (pieces ++ [piece]) := by
  refine ⟨?_, List.forall_mem_append.mpr ⟨h.2, List.forall_mem_singleton.mpr hpiece⟩⟩
  cases pieces with
  | nil =>
    intro first hmem
    cases hmem
    exact hfirst rfl
  | cons first rest => exact h.1

/-! ## Text -/

theorem encode_character {b : UInt8} (h : b.toNat < 0x80) :
    String.utf8EncodeChar (character b) = [b] := by
  have hvalid : b.toNat.isValidChar := Or.inl (by omega)
  have hval : (character b).val.toNat = b.toNat := by
    rw [character, Char.ofNat, dif_pos hvalid]
    rfl
  rw [String.utf8EncodeChar]
  simp only [hval]
  rw [if_pos (by omega), UInt8.ofNat_toNat]

/-- An ASCII byte is read as a character, whatever comes after it. -/
theorem pieces_cons_of_lt {b : UInt8} (h : b.toNat < 0x80) (rest : Bytes) :
    Utf8.pieces (b :: rest) = .char (character b) :: Utf8.pieces rest := by
  have hread := Utf8.pieces_encodeChar_append (character b) rest
  rwa [encode_character h] at hread

theorem lenient_eq_empty_iff {bytes : Bytes} : Utf8.lenient bytes = "" ↔ bytes = [] := by
  rw [Utf8.lenient, String.ofList_eq_empty_iff, List.map_eq_nil_iff]
  cases bytes with
  | nil => simp
  | cons b rest => rw [Utf8.pieces]; simp

/-- A key is read as the text that it is. -/
theorem lenient_key {key : Bytes} (h : ∀ b ∈ key, isKeyByte b) :
    Utf8.lenient key = String.ofList (key.map character) := by
  have hencode : Utf8.encode (key.map character) = key := by
    induction key with
    | nil => rfl
    | cons b rest ih =>
      rw [Utf8.encode, List.map_cons, List.flatMap_cons,
        encode_character (lt_of_isKeyByte (h b List.mem_cons_self)), List.singleton_append]
      exact congrArg (b :: ·) (ih fun c hc => h c (List.mem_cons_of_mem b hc))
  rw [← Utf8.lenient_encode, hencode]

end Markup
end EdgeIncludes
