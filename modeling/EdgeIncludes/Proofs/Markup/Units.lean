/-
Values by their escape units.

A value is trimmed from both ends before its escapes are resolved, and the trimmers look
at bytes: whether a trailing byte is escaped they tell by the run of backslashes before it.
A value is written in escape units, and of units it is plain which bytes are escaped.  The
statements here carry the trimmers and the resolution of escapes over to units.  What makes
them agree is `isEscaped_contentBytes`: a run of backslashes in front of a unit is even,
because the backslashes that end whole units come in pairs.  So what is trimmed is whole
units, and only such as stand by themselves.
-/
import EdgeIncludes.Proofs.Markup.Lexeme
import Mathlib.Data.List.DropRight
import Mathlib.Data.List.Induction

namespace EdgeIncludes
namespace Markup

open Ascii

namespace EscapeUnit

/-- The byte that the unit stands for. -/
def byte : EscapeUnit → UInt8
  | plain b => b
  | escaped b => b

/-- An escaped byte is no delimiter, whatever it is. -/
def isLeftDelimiter : EscapeUnit → Bool
  | plain b => Ascii.isLeftDelimiter b
  | escaped _ => false

def isRightDelimiter : EscapeUnit → Bool
  | plain b => Ascii.isRightDelimiter b
  | escaped _ => false

end EscapeUnit

/-- The content without the units that are trimmed from its left end. -/
def trimUnitsLeft (content : List EscapeUnit) : List EscapeUnit :=
  content.dropWhile EscapeUnit.isLeftDelimiter

def trimUnitsRight (content : List EscapeUnit) : List EscapeUnit :=
  (content.reverse.dropWhile EscapeUnit.isRightDelimiter).reverse

def trimUnits (content : List EscapeUnit) : List EscapeUnit :=
  trimUnitsRight (trimUnitsLeft content)

/-- No backslash stands by itself, as is the case in a value between its quotes. -/
def IsWhole (content : List EscapeUnit) : Prop :=
  EscapeUnit.plain backslash ∉ content

theorem isWhole_of_fitsIn {quote : UInt8} {content : List EscapeUnit}
    (h : ∀ unit ∈ content, unit.FitsIn quote) : IsWhole content :=
  fun hmem => (h _ hmem).1 rfl

theorem IsWhole.of_cons {unit : EscapeUnit} {content : List EscapeUnit}
    (h : IsWhole (unit :: content)) : IsWhole content :=
  fun hmem => h (List.mem_cons_of_mem unit hmem)

theorem IsWhole.of_append_left {front back : List EscapeUnit} (h : IsWhole (front ++ back)) :
    IsWhole front :=
  fun hmem => h (List.mem_append_left back hmem)

theorem IsWhole.ne_backslash {b : UInt8} {content : List EscapeUnit}
    (h : IsWhole (.plain b :: content)) : b ≠ backslash := by
  rintro rfl
  exact h List.mem_cons_self

/-! ## Resolving escapes -/

theorem unescape_cons_of_ne {b : UInt8} (hb : b ≠ backslash) (rest : Bytes) :
    unescape (b :: rest) = b :: unescape rest := by
  cases rest with
  | nil => rfl
  | cons c rest => rw [unescape, if_neg hb]

theorem unescape_backslash (b : UInt8) (rest : Bytes) :
    unescape (backslash :: b :: rest) = b :: unescape rest := by
  rw [unescape, if_pos rfl]

/-- Every unit is resolved to the byte that it stands for. -/
theorem unescape_contentBytes {content : List EscapeUnit} (h : IsWhole content) :
    unescape (contentBytes content) = content.map EscapeUnit.byte := by
  induction content with
  | nil => rfl
  | cons unit content ih =>
    cases unit with
    | plain b =>
      show unescape (b :: contentBytes content) = _
      rw [unescape_cons_of_ne h.ne_backslash, ih h.of_cons]
      rfl
    | escaped b =>
      show unescape (backslash :: b :: contentBytes content) = _
      rw [unescape_backslash, ih h.of_cons]
      rfl

/-! ## Trimming -/

theorem trimLeft_contentBytes (content : List EscapeUnit) :
    trimLeft (contentBytes content) = contentBytes (trimUnitsLeft content) := by
  induction content with
  | nil => rfl
  | cons unit content ih =>
    cases unit with
    | plain b =>
      show (b :: contentBytes content).dropWhile isLeftDelimiter =
        contentBytes ((EscapeUnit.plain b :: content).dropWhile EscapeUnit.isLeftDelimiter)
      by_cases hb : isLeftDelimiter b
      · have hunit : (EscapeUnit.plain b).isLeftDelimiter := hb
        rw [List.dropWhile_cons_of_pos hb, List.dropWhile_cons_of_pos hunit]
        exact ih
      · have hunit : ¬ (EscapeUnit.plain b).isLeftDelimiter := hb
        rw [List.dropWhile_cons_of_neg hb, List.dropWhile_cons_of_neg hunit]
        rfl
    | escaped b => rfl

theorem isEscaped_cons_of_ne {b : UInt8} (hb : b ≠ backslash) (before : Bytes) :
    isEscaped (b :: before) = false := by
  rw [isEscaped, List.takeWhile_cons_of_neg (by simpa using hb)]
  rfl

theorem isEscaped_backslash (before : Bytes) :
    isEscaped (backslash :: before) = !isEscaped before := by
  rw [isEscaped, isEscaped, List.takeWhile_cons_of_pos (by rfl), List.length_cons]
  generalize (before.takeWhile fun b => b == backslash).length = run
  by_cases hodd : run % 2 = 1
  · have hnext : (run + 1) % 2 = 0 := by omega
    rw [hodd, hnext]
    rfl
  · have heven : run % 2 = 0 := by omega
    have hnext : (run + 1) % 2 = 1 := by omega
    rw [heven, hnext]
    rfl

/-- What stands behind whole units is not escaped. -/
theorem isEscaped_contentBytes {content : List EscapeUnit} (h : IsWhole content) :
    isEscaped (contentBytes content).reverse = false := by
  induction content using List.reverseRecOn with
  | nil => rfl
  | append_singleton content unit ih =>
    rw [contentBytes_append, List.reverse_append]
    cases unit with
    | plain b =>
      have hb : b ≠ backslash := by
        rintro rfl
        exact h (List.mem_append_right content List.mem_cons_self)
      exact isEscaped_cons_of_ne hb _
    | escaped b =>
      show isEscaped (b :: backslash :: (contentBytes content).reverse) = false
      by_cases hb : b = backslash
      · rw [hb, isEscaped_backslash, isEscaped_backslash, Bool.not_not, ih h.of_append_left]
      · exact isEscaped_cons_of_ne hb _

theorem trimUnitsRight_append_of_pos {unit : EscapeUnit} (h : unit.isRightDelimiter)
    (content : List EscapeUnit) : trimUnitsRight (content ++ [unit]) = trimUnitsRight content := by
  rw [trimUnitsRight, List.reverse_append, List.reverse_singleton, List.singleton_append,
    List.dropWhile_cons_of_pos h, trimUnitsRight]

theorem trimUnitsRight_append_of_neg {unit : EscapeUnit} (h : ¬ unit.isRightDelimiter)
    (content : List EscapeUnit) : trimUnitsRight (content ++ [unit]) = content ++ [unit] := by
  rw [trimUnitsRight, List.reverse_append, List.reverse_singleton, List.singleton_append,
    List.dropWhile_cons_of_neg h, List.reverse_cons, List.reverse_reverse]

theorem trimUnitsRight_isPrefix (content : List EscapeUnit) :
    trimUnitsRight content <+: content :=
  List.rdropWhile_prefix _ content

/-- What is left of a value does not begin with a delimiter that stands by itself. -/
theorem isLeftDelimiter_head?_trimUnits {content : List EscapeUnit} {unit : EscapeUnit}
    (h : (trimUnits content).head? = some unit) : unit.isLeftDelimiter = false := by
  obtain ⟨rest, hrest⟩ := trimUnitsRight_isPrefix (trimUnitsLeft content)
  have hfirst : (trimUnitsLeft content).head? = some unit := by
    rw [← hrest, List.head?_append]
    show (trimUnits content).head?.or _ = _
    rw [h, Option.some_or]
  have hnot := List.head?_dropWhile_not EscapeUnit.isLeftDelimiter content
  rw [← trimUnitsLeft, hfirst] at hnot
  exact hnot

theorem dropUnescaped_contentBytes {content : List EscapeUnit} (h : IsWhole content) :
    (dropUnescaped (contentBytes content).reverse).reverse =
      contentBytes (trimUnitsRight content) := by
  induction content using List.reverseRecOn with
  | nil => rfl
  | append_singleton content unit ih =>
    have hfront := h.of_append_left
    rw [contentBytes_append, List.reverse_append]
    cases unit with
    | plain b =>
      show (dropUnescaped (b :: (contentBytes content).reverse)).reverse = _
      rw [dropUnescaped, isEscaped_contentBytes hfront, Bool.not_false, Bool.and_true]
      by_cases hb : isRightDelimiter b
      · have hunit : (EscapeUnit.plain b).isRightDelimiter := hb
        rw [if_pos hb, trimUnitsRight_append_of_pos hunit, ih hfront]
      · have hunit : ¬ (EscapeUnit.plain b).isRightDelimiter := hb
        rw [if_neg hb, trimUnitsRight_append_of_neg hunit, List.reverse_cons,
          List.reverse_reverse, contentBytes_append, contentBytes_plain]
    | escaped b =>
      -- the run of backslashes before the byte is the unit's own and an even one before it
      have hescaped : isEscaped (backslash :: (contentBytes content).reverse) = true := by
        rw [isEscaped_backslash, isEscaped_contentBytes hfront, Bool.not_false]
      show (dropUnescaped (b :: backslash :: (contentBytes content).reverse)).reverse = _
      rw [dropUnescaped, hescaped, Bool.not_true, Bool.and_false, if_neg Bool.false_ne_true,
        trimUnitsRight_append_of_neg (by exact Bool.false_ne_true), List.reverse_cons,
        List.reverse_cons, List.reverse_reverse, List.append_assoc, contentBytes_append,
        contentBytes_escaped]
      rfl

theorem IsWhole.trimUnitsLeft {content : List EscapeUnit} (h : IsWhole content) :
    IsWhole (trimUnitsLeft content) :=
  fun hmem => h ((List.dropWhile_sublist _).subset hmem)

theorem IsWhole.trimUnits {content : List EscapeUnit} (h : IsWhole content) :
    IsWhole (trimUnits content) :=
  fun hmem => h.trimUnitsLeft ((trimUnitsRight_isPrefix _).subset hmem)

/-- What is trimmed of a value are whole units. -/
theorem trimValue_contentBytes {content : List EscapeUnit} (h : IsWhole content) :
    trimValue (contentBytes content) = contentBytes (trimUnits content) := by
  rw [trimValue, trimLeft_contentBytes, dropUnescaped_contentBytes h.trimUnitsLeft, trimUnits]

/-- What a value spells: whole units are trimmed, and each that is left gives its byte. -/
theorem valueBytes_contentBytes {content : List EscapeUnit} (h : IsWhole content) :
    valueBytes (contentBytes content) = (trimUnits content).map EscapeUnit.byte := by
  rw [valueBytes, trimValue_contentBytes h]
  exact unescape_contentBytes h.trimUnits

end Markup
end EdgeIncludes
