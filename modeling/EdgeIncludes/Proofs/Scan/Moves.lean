/-
What a byte can do, as a table.

`State.move` is a chain of tests.  Here it is turned inside out: `Leads` lists the bytes
that a tag in hand can go on with, and `Completes` those that complete it, each with the
state it is read in.  The tests that fail on the way to an entry say nothing that the
entry does not say already, since the byte classes exclude one another, and so both tables
are exact.  Proofs about the automaton go through the tables and leave the tests alone.
-/
import EdgeIncludes.Proofs.Markup.Parts
import EdgeIncludes.Scan.State

namespace EdgeIncludes
namespace Scan

open Ascii

/-- The byte takes the tag in hand from one state to another. -/
inductive Leads : State → UInt8 → State → Prop where
  | slash : Leads .opened slash (.inNamespace true 0)
  | namespaceStart : Leads .opened 0x65 (.inNamespace false 1)
  | namespaceByte {closing : Bool} {matched : Nat} {b : UInt8}
      (h : namespaceBytes[matched]? = some b) :
      Leads (.inNamespace closing matched) b (.inNamespace closing (matched + 1))
  | nameStart {closing : Bool} {matched : Nat} {b : UInt8}
      (hend : namespaceBytes[matched]? = none) (h : isLower b) :
      Leads (.inNamespace closing matched) b (.inName closing)
  | nameByte {closing : Bool} {b : UInt8} (h : isLower b) :
      Leads (.inName closing) b (.inName closing)
  | nameSlash : Leads (.inName false) slash .selfClosing
  | startSpace {b : UInt8} (h : isSpace b) : Leads (.inName false) b .betweenAttributes
  | stopSpace {b : UInt8} (h : isSpace b) : Leads (.inName true) b .afterName
  | afterSpace {b : UInt8} (h : isSpace b) : Leads .afterName b .afterName
  | tagSlash : Leads .betweenAttributes slash .selfClosing
  | tagSpace {b : UInt8} (h : isSpace b) : Leads .betweenAttributes b .betweenAttributes
  | keyStart {b : UInt8} (h : isKeyStart b) : Leads .betweenAttributes b .inKey
  | keyByte {b : UInt8} (h : isKeyByte b) : Leads .inKey b .inKey
  | keyEnd : Leads .inKey equals .beforeValue
  | valueSpace {b : UInt8} (h : isSpace b) : Leads .beforeValue b .beforeValue
  | valueStart {b : UInt8} (h : isQuote b) : Leads .beforeValue b (.inValue b)
  | backslash {quote : UInt8} : Leads (.inValue quote) backslash (.escaped quote)
  | valueEnd {quote : UInt8} (h : quote ≠ backslash) :
      Leads (.inValue quote) quote .betweenAttributes
  | valueByte {quote b : UInt8} (hb : b ≠ backslash) (hq : b ≠ quote) :
      Leads (.inValue quote) b (.inValue quote)
  | escapedByte {quote b : UInt8} : Leads (.escaped quote) b (.inValue quote)

/-- The byte completes the tag in hand. -/
inductive Completes : State → UInt8 → Shape → Prop where
  | startName : Completes (.inName false) greaterThan .start
  | stopName : Completes (.inName true) greaterThan .stop
  | afterName : Completes .afterName greaterThan .stop
  | tag : Completes .betweenAttributes greaterThan .start
  | selfClosing : Completes .selfClosing greaterThan .selfClosing

namespace State

attribute [local grind =] move moveUnquoted isSpace isLower isUpper isDigit isKeyStart isKeyByte
  isQuote

/-! ## What the tests let through -/

theorem leads_of_move {state next : State} {b : UInt8} (h : state.move b = .staged next) :
    Leads state b next := by
  cases state with
  | text => grind
  | opened => grind [Leads, namespaceBytes]
  | inNamespace closing matched => grind [Leads]
  | inName closing => grind [Leads]
  | afterName => grind [Leads]
  | betweenAttributes => grind [Leads]
  | inKey => grind [Leads]
  | beforeValue => grind [Leads]
  | selfClosing => grind
  | escaped quote =>
    cases h
    exact .escapedByte
  | inValue quote =>
    simp only [move] at h
    by_cases hb : b = Ascii.backslash
    · rw [if_pos hb] at h
      cases h
      exact hb ▸ .backslash
    · rw [if_neg hb] at h
      by_cases hq : b = quote
      · rw [if_pos hq] at h
        cases h
        exact hq ▸ .valueEnd (hq ▸ hb)
      · rw [if_neg hq] at h
        cases h
        exact .valueByte hb hq

theorem completes_of_move {state : State} {b : UInt8} {shape : Shape}
    (h : state.move b = .completed shape) : Completes state b shape := by
  cases state with
  | inNamespace closing matched => grind
  | inName closing => cases closing <;> grind [Completes]
  | afterName => grind [Completes]
  | betweenAttributes => grind [Completes]
  | selfClosing => grind [Completes]
  | _ => grind

theorem eq_text_of_move {state : State} {b : UInt8} (h : state.move b = .text) :
    state = .text ∧ b ≠ lessThan := by
  cases state <;> grind

theorem eq_lessThan_of_move {state : State} {b : UInt8} (h : state.move b = .begun) :
    b = lessThan := by
  cases state <;> grind

theorem ne_of_move_rejected {state : State} {b : UInt8} (h : state.move b = .rejected) :
    state ≠ .text ∧ b ≠ lessThan := by
  cases state <;> grind

/-! ## What is let through -/

theorem move_of_leads {state next : State} {b : UInt8} (h : Leads state b next) :
    state.move b = .staged next := by
  cases h with
  | slash | namespaceStart | nameSlash | tagSlash | keyEnd => decide
  | namespaceByte h =>
    have hne : b ≠ lessThan := by
      rintro rfl
      exact absurd (List.mem_of_getElem? h) (by decide)
    simp only [move, moveUnquoted, if_neg hne, h, if_true]
  | keyStart h =>
    have hspace := isSpace_eq_false_of_isKeyByte (isKeyByte_of_isKeyStart h)
    grind
  | _ => grind

theorem move_of_completes {state : State} {b : UInt8} {shape : Shape}
    (h : Completes state b shape) : state.move b = .completed shape := by
  cases h <;> rfl

end State
end Scan
end EdgeIncludes
