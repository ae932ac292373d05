/-
Text in the fields of headers, settings and attributes.

Blanks at the ends of a field do not count.  They are a matter of characters, and there
are more of them than there is whitespace in the markup, which is a matter of bytes.
Names that are compared without regard to case, such as URL schemes and content types,
are ASCII in their standards, and so only the letters `A` to `Z` are folded; any other
character is equal to itself alone.  A number is a run of ASCII digits with an optional
`+` in front of it, and it must be less than a bound that the place it stands in sets.
Leading zeros do no harm.
-/

namespace EdgeIncludes
namespace Text

/-! ## Blanks

The table is that of the Unicode property White_Space: twenty-five code points, which
include the line and paragraph separators and the no-break space but no zero-width
character. -/

def isBlank (c : Char) : Bool :=
  let n := c.toNat
  (0x09 ≤ n && n ≤ 0x0D) || n == 0x20 || n == 0x85 || n == 0xA0 || n == 0x1680 ||
    (0x2000 ≤ n && n ≤ 0x200A) || n == 0x2028 || n == 0x2029 || n == 0x202F ||
    n == 0x205F || n == 0x3000

def trimStart (text : List Char) : List Char :=
  text.dropWhile isBlank

def trimEnd (text : List Char) : List Char :=
  (text.reverse.dropWhile isBlank).reverse

def trim (text : List Char) : List Char :=
  trimEnd (trimStart text)

/-! ## Letters -/

/-- The text with every ASCII letter in lower case. -/
def fold (text : List Char) : List Char :=
  text.map Char.toLower

/-- The texts are equal but for the case of ASCII letters. -/
def sameLetters (a b : List Char) : Bool :=
  fold a == fold b

/-- The text starts with the given one, but for the case of ASCII letters. -/
def startsWithLetters (start text : List Char) : Bool :=
  (fold start).isPrefixOf (fold text)

/-! ## Numbers -/

/-- The value that the digits spell, after digits of the given value. -/
def digitsValue (value : Nat) (digits : List Char) : Nat :=
  digits.foldl (fun value c => 10 * value + (c.toNat - '0'.toNat)) value

/-- The number that the text spells, if it spells one less than the bound. -/
def number? (bound : Nat) (text : List Char) : Option Nat :=
  let digits := if text.head? = some '+' then text.drop 1 else text
  if !digits.isEmpty && digits.all Char.isDigit then
    let value := digitsValue 0 digits
    if value < bound then some value else none
  else none

end Text
end EdgeIncludes
