/-
Trimming by offsets.

A span is trimmed without its bytes being taken out of the buffer: its two ends are moved
towards each other, and on the way single bytes of the buffer and the bytes between two
offsets are looked at.  Here these loops are written so that they have no answer where they
would look outside the buffer or where a difference of offsets would be negative.  What is
proved is that on a span inside the buffer they always have one, and that it is the one
that trimming the span's bytes gives.
-/
import EdgeIncludes.Proofs.Scan.Places

namespace EdgeIncludes
namespace Scan

open Ascii Markup

/-! ## Ranges -/

/-- The bytes from one offset up to another, which must be in order and inside the
buffer. -/
def range? (buffer : Bytes) (start stop : Nat) : Option Bytes :=
  if start ≤ stop ∧ stop ≤ buffer.length then some ((buffer.take stop).drop start) else none

theorem range?_of_le {front : Bytes} {start : Nat} (h : start ≤ front.length) (back : Bytes) :
    range? (front ++ back) start front.length = some (front.drop start) := by
  have hin : start ≤ front.length ∧ front.length ≤ (front ++ back).length :=
    ⟨h, by simp only [List.length_append, Nat.le_add_right]⟩
  rw [range?, if_pos hin, List.take_left]

theorem range?_middle (front part back : Bytes) :
    range? (front ++ part ++ back) front.length (front ++ part).length = some part := by
  have hle : front.length ≤ (front ++ part).length := by
    simp only [List.length_append, Nat.le_add_right]
  rw [range?_of_le hle, List.drop_left]

/-- The bytes of a span are those between its offsets. -/
theorem Span.slice?_eq_range? (span : Span) (buffer : Bytes) :
    span.slice? buffer = range? buffer span.start span.stop := by
  have hlength : span.stop - span.start = span.length := by
    simp only [stop, Nat.add_sub_cancel_left]
  have hle : span.start ≤ span.stop := Nat.le_add_right span.start span.length
  simp only [slice?, range?, List.drop_take, hlength, hle, true_and]

/-- The span from one offset up to another, which must be in order. -/
def Span.ordered? (start stop : Nat) : Option Span :=
  if start ≤ stop then some (.between start stop) else none

theorem Span.stop_between {start stop : Nat} (h : start ≤ stop) :
    (between start stop).stop = stop :=
  Nat.add_sub_cancel' h

theorem Span.ordered?_of_le {start stop : Nat} (h : start ≤ stop) :
    ordered? start stop = some (between start stop) :=
  if_pos h

/-! ## Moving the ends -/

/-- The start moved over the left delimiters behind it, at most up to the stop. -/
def leftEdge? (buffer : Bytes) (stop start : Nat) : Option Nat :=
  if start < stop then do
    let b ← buffer[start]?
    if isLeftDelimiter b then leftEdge? buffer stop (start + 1) else some start
  else some start
termination_by stop - start

/-- The stop moved over the bytes before it that fall off, at most down to the start.
Whether the byte at an offset falls off is looked up. -/
def rightEdge? (falls? : Nat → Option Bool) (start : Nat) : Nat → Option Nat
  | 0 => some 0
  | last + 1 =>
    if start ≤ last then do
      let falls ← falls? last
      if falls then rightEdge? falls? start last else some (last + 1)
    else some (last + 1)

theorem leftEdge?_middle (front part back : Bytes) :
    leftEdge? (front ++ part ++ back) (front ++ part).length front.length =
      some (front ++ part.takeWhile isLeftDelimiter).length := by
  induction part generalizing front with
  | nil =>
    rw [leftEdge?, if_neg (by simp), List.takeWhile_nil, List.append_nil]
  | cons b part ih =>
    have hlt : front.length < (front ++ b :: part).length := by simp
    have hget : (front ++ b :: part ++ back)[front.length]? = some b := by simp
    rw [leftEdge?, if_pos hlt, hget]
    simp only [Option.bind_eq_bind, Option.bind_some]
    by_cases hb : isLeftDelimiter b
    · have hnext := ih (front ++ [b])
      have hstart : (front ++ [b]).length = front.length + 1 := List.length_append
      rw [hstart] at hnext
      simp only [List.append_assoc, List.singleton_append] at hnext
      rw [if_pos hb, List.takeWhile_cons_of_pos hb, List.append_assoc, hnext]
    · rw [if_neg hb, List.takeWhile_cons_of_neg hb, List.append_nil]

theorem rightEdge?_self (falls? : Nat → Option Bool) (start : Nat) :
    rightEdge? falls? start start = some start := by
  cases start with
  | zero => rfl
  | succ last => exact if_neg (Nat.not_succ_le_self last)

/-- The bytes in reverse are cut by `cut` as the loop cuts them, if what is looked up of a
byte depends on it and on the bytes before it only. -/
theorem rightEdge?_reverse {falls? : Nat → Option Bool} {falls : UInt8 → Bytes → Bool}
    {cut : Bytes → Bytes} (hnil : cut [] = [])
    (hcons : ∀ b before, cut (b :: before) = if falls b before then cut before else b :: before)
    (front : Bytes) {bytes : Bytes}
    (hfalls : ∀ b before, b :: before <:+ bytes →
      falls? (front ++ before.reverse).length = some (falls b before)) :
    rightEdge? falls? front.length (front ++ bytes.reverse).length =
      some (front ++ (cut bytes).reverse).length := by
  induction bytes with
  | nil =>
    rw [hnil, List.reverse_nil, List.append_nil]
    exact rightEdge?_self falls? front.length
  | cons b before ih =>
    have hlength : (front ++ (b :: before).reverse).length =
        (front ++ before.reverse).length + 1 := by
      simp only [List.reverse_cons, List.length_append, List.length_singleton, Nat.add_assoc]
    have hle : front.length ≤ (front ++ before.reverse).length := by simp
    rw [hlength, rightEdge?, if_pos hle, hfalls b before (List.suffix_refl _), hcons]
    simp only [Option.bind_eq_bind, Option.bind_some]
    cases hb : falls b before with
    | true => exact ih fun c rest h => hfalls c rest (h.trans (List.suffix_cons b before))
    | false => rw [if_neg Bool.false_ne_true, if_neg Bool.false_ne_true, hlength]

/-! ## Trimming -/

/-- Whether the byte at the offset is a right delimiter. -/
def isDelimiterAt? (buffer : Bytes) (offset : Nat) : Option Bool :=
  buffer[offset]?.map isRightDelimiter

/-- Whether the byte at the offset is a right delimiter that is not escaped, as far as the
bytes from the floor on tell. -/
def isBareDelimiterAt? (buffer : Bytes) (floor offset : Nat) : Option Bool := do
  let b ← buffer[offset]?
  if isRightDelimiter b then
    let before ← range? buffer floor offset
    some !isEscaped before.reverse
  else some false

namespace Span

/-- The span without the delimiters at its ends, where `falls?` looks up for a start which
bytes fall off behind it. -/
def narrowed? (buffer : Bytes) (falls? : Nat → Nat → Option Bool) (span : Span) :
    Option Span := do
  let start ← leftEdge? buffer span.stop span.start
  let stop ← rightEdge? (falls? start) start span.stop
  ordered? start stop

def trimmed? (buffer : Bytes) (span : Span) : Option Span :=
  span.narrowed? buffer fun _ => isDelimiterAt? buffer

def trimmedValue? (buffer : Bytes) (span : Span) : Option Span :=
  span.narrowed? buffer (isBareDelimiterAt? buffer)

theorem takeWhile_append_trimLeft (part : Bytes) :
    part.takeWhile isLeftDelimiter ++ trimLeft part = part :=
  List.takeWhile_append_dropWhile

/-- Where the bytes of a span inside the buffer are once both ends are cut. -/
theorem narrowed?_middle {falls? : Nat → Nat → Option Bool} {falls : UInt8 → Bytes → Bool}
    {cut : Bytes → Bytes} (hnil : cut [] = [])
    (hcons : ∀ b before, cut (b :: before) = if falls b before then cut before else b :: before)
    (front part back : Bytes)
    (hfalls : ∀ b before, b :: before <:+ (trimLeft part).reverse →
      falls? (front ++ part.takeWhile isLeftDelimiter).length
        (front ++ part.takeWhile isLeftDelimiter ++ before.reverse).length =
          some (falls b before)) :
    narrowed? (front ++ part ++ back) falls? ⟨front.length, part.length⟩ =
      some ⟨(front ++ part.takeWhile isLeftDelimiter).length,
        (cut (trimLeft part).reverse).length⟩ := by
  have hpart : front ++ part =
      front ++ part.takeWhile isLeftDelimiter ++ (trimLeft part).reverse.reverse := by
    rw [List.reverse_reverse, List.append_assoc, takeWhile_append_trimLeft]
  have hstop : (⟨front.length, part.length⟩ : Span).stop = (front ++ part).length := by
    rw [stop, List.length_append]
  have hright := rightEdge?_reverse hnil hcons (front ++ part.takeWhile isLeftDelimiter) hfalls
  rw [← hpart] at hright
  rw [narrowed?, hstop]
  simp only [leftEdge?_middle, Option.bind_eq_bind, Option.bind_some, hright]
  rw [ordered?_of_le (by simp), between_length, List.length_reverse]

/-- Behind the left delimiters a byte of the part stands as far in the buffer as the bytes of
the part before it reach. -/
theorem split_of_suffix (front back : Bytes) {part before : Bytes} {b : UInt8}
    (h : b :: before <:+ (trimLeft part).reverse) :
    ∃ rest, front ++ part ++ back =
      front ++ part.takeWhile isLeftDelimiter ++ before.reverse ++ b :: rest := by
  obtain ⟨behind, hbehind⟩ := h
  have hkept : trimLeft part = before.reverse ++ b :: behind.reverse := by
    rw [← List.reverse_inj, ← hbehind]
    simp
  refine ⟨behind.reverse ++ back, ?_⟩
  calc front ++ part ++ back
      = front ++ (part.takeWhile isLeftDelimiter ++ trimLeft part) ++ back := by
        rw [takeWhile_append_trimLeft]
    _ = _ := by
        rw [hkept]
        simp

theorem isDelimiterAt?_middle (front : Bytes) (b : UInt8) (rest : Bytes) :
    isDelimiterAt? (front ++ b :: rest) front.length = some (isRightDelimiter b) := by
  rw [isDelimiterAt?, List.getElem?_append_right (Nat.le_refl _), Nat.sub_self]
  rfl

theorem isBareDelimiterAt?_middle (front before : Bytes) (b : UInt8) (rest : Bytes) :
    isBareDelimiterAt? (front ++ before.reverse ++ b :: rest) front.length
      (front ++ before.reverse).length = some (isRightDelimiter b && !isEscaped before) := by
  rw [isBareDelimiterAt?, List.getElem?_append_right (Nat.le_refl _), Nat.sub_self]
  simp only [List.getElem?_cons_zero, range?_middle, Option.bind_eq_bind, Option.bind_some,
    List.reverse_reverse]
  cases isRightDelimiter b <;> rfl

theorem exists_slice? {span : Span} {buffer : Bytes} (h : span.stop ≤ buffer.length) :
    ∃ part, span.slice? buffer = some part :=
  ⟨_, if_pos h⟩

/-- The buffer around the bytes of a span. -/
theorem exists_split {span : Span} {buffer part : Bytes} (h : span.slice? buffer = some part) :
    ∃ front back, buffer = front ++ part ++ back ∧ span = ⟨front.length, part.length⟩ := by
  rw [slice?] at h
  split at h
  · rename_i hin
    cases h
    rw [stop] at hin
    refine ⟨buffer.take span.start, (buffer.drop span.start).drop span.length, ?_, ?_⟩
    · rw [List.append_assoc, List.take_append_drop, List.take_append_drop]
    · rw [List.length_take, List.length_take, List.length_drop, Nat.min_eq_left (by omega),
        Nat.min_eq_left (by omega)]
  · cases h

/-- Trimming a span by its offsets is trimming its bytes. -/
theorem trimmed?_eq_trim? {span : Span} {buffer : Bytes} (h : span.stop ≤ buffer.length) :
    span.trimmed? buffer = span.trim? buffer := by
  obtain ⟨part, hslice⟩ := exists_slice? h
  obtain ⟨front, back, rfl, rfl⟩ := exists_split hslice
  have hcut := @narrowed?_middle (fun _ => isDelimiterAt? (front ++ part ++ back))
    (fun b _ => isRightDelimiter b) (List.dropWhile isRightDelimiter) rfl
    (fun b before => List.dropWhile_cons) front part back (by
      intro b before h
      obtain ⟨rest, hrest⟩ := split_of_suffix front back h
      rw [hrest]
      exact isDelimiterAt?_middle _ b rest)
  have hlead : (part.takeWhile isLeftDelimiter).length =
      part.length - (trimLeft part).length := by
    have hlength := congrArg List.length (takeWhile_append_trimLeft part)
    rw [List.length_append] at hlength
    omega
  rw [trimmed?, hcut, trim?, slice?_middle]
  simp only [Option.bind_eq_bind, Option.bind_some, trimRight, List.length_reverse,
    List.length_append, hlead]

theorem exists_trim? {span : Span} {buffer : Bytes} (h : span.stop ≤ buffer.length) :
    ∃ trimmed, span.trim? buffer = some trimmed := by
  rw [trim?, slice?, if_pos h]
  exact ⟨_, rfl⟩

theorem dropUnescaped_suffix (bytes : Bytes) : dropUnescaped bytes <:+ bytes := by
  induction bytes with
  | nil => exact List.suffix_refl []
  | cons b before ih =>
    rw [dropUnescaped]
    split
    · exact ih.trans (List.suffix_cons b before)
    · exact List.suffix_refl _

/-- Trimming the span of a value by its offsets gives the span of its trimmed bytes. -/
theorem exists_trimmedValue? {span : Span} {buffer part : Bytes}
    (h : span.slice? buffer = some part) :
    ∃ trimmed, span.trimmedValue? buffer = some trimmed ∧
      trimmed.slice? buffer = some (trimValue part) := by
  obtain ⟨front, back, rfl, rfl⟩ := exists_split h
  have hcut := @narrowed?_middle (isBareDelimiterAt? (front ++ part ++ back))
    (fun b before => isRightDelimiter b && !isEscaped before) dropUnescaped rfl
    (fun b before => rfl) front part back (by
      intro b before h
      obtain ⟨rest, hrest⟩ := split_of_suffix front back h
      rw [hrest]
      exact isBareDelimiterAt?_middle _ before b rest)
  obtain ⟨behind, hbehind⟩ := dropUnescaped_suffix (trimLeft part).reverse
  have hkept : trimLeft part = trimValue part ++ behind.reverse := by
    rw [← List.reverse_inj, ← hbehind, trimValue]
    simp
  have hbuffer : front ++ part ++ back =
      front ++ part.takeWhile isLeftDelimiter ++ trimValue part ++ (behind.reverse ++ back) := by
    calc front ++ part ++ back
        = front ++ (part.takeWhile isLeftDelimiter ++ trimLeft part) ++ back := by
          rw [takeWhile_append_trimLeft]
      _ = _ := by
          rw [hkept]
          simp
  have hlength : (dropUnescaped (trimLeft part).reverse).length = (trimValue part).length := by
    rw [trimValue, List.length_reverse]
  refine ⟨_, hcut, ?_⟩
  rw [hlength, hbuffer]
  exact slice?_middle _ (trimValue part) _

end Span
end Scan
end EdgeIncludes
