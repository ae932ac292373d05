/-
Byte strings, their sizes, and the byte classes of the markup.

A response body is a list of bytes, and it stays one: markup is recognised byte by
byte, and only attribute names and values are ever read as text.  The classes here are
therefore predicates on single bytes, and every one of them is a set of ASCII bytes, so
that a byte of a multi-byte character belongs to none of them.
-/

namespace EdgeIncludes

abbrev Bytes := List UInt8

/-! ## Sizes -/

/-- A size that comes from outside, such as the length that a header states, must fit in a
machine word.  How wide one is depends on the machine, and is said here only. -/
abbrev Size := UInt64

/-- The least number that is too large for a size. -/
abbrev Size.bound : Nat := UInt64.size

namespace Ascii

/-! ## The bytes that markup is made of -/

/-- The byte `<`, which starts a tag. -/
abbrev lessThan : UInt8 := 0x3C

/-- The byte `>`, which completes a tag. -/
abbrev greaterThan : UInt8 := 0x3E

abbrev slash : UInt8 := 0x2F

/-- The byte `=`, which ends an attribute's key. -/
abbrev equals : UInt8 := 0x3D

abbrev doubleQuote : UInt8 := 0x22

abbrev singleQuote : UInt8 := 0x27

/-- The byte `\`, which takes the next byte of a quoted value with it. -/
abbrev backslash : UInt8 := 0x5C

/-- The four bytes `esi:` that every tag name starts with. -/
def namespaceBytes : Bytes := [0x65, 0x73, 0x69, 0x3A]

/-! ## Classes -/

/-- Whitespace is space, tab, line feed, form feed and carriage return. -/
def isSpace (b : UInt8) : Bool :=
  b == 0x20 || b == 0x09 || b == 0x0A || b == 0x0C || b == 0x0D

/-- The letters `a` to `z`, of which the rest of a tag name consists. -/
def isLower (b : UInt8) : Bool :=
  0x61 ≤ b && b ≤ 0x7A

def isUpper (b : UInt8) : Bool :=
  0x41 ≤ b && b ≤ 0x5A

def isDigit (b : UInt8) : Bool :=
  0x30 ≤ b && b ≤ 0x39

def isQuote (b : UInt8) : Bool :=
  b == doubleQuote || b == singleQuote

/-- The bytes that an attribute's key can start with: letters, `-` and `_`. -/
def isKeyStart (b : UInt8) : Bool :=
  isLower b || isUpper b || b == 0x2D || b == 0x5F

def isKeyByte (b : UInt8) : Bool :=
  isKeyStart b || isDigit b

/-- The bytes dropped from the left of a name, a key or a value. -/
def isLeftDelimiter (b : UInt8) : Bool :=
  isSpace b || b == equals || isQuote b || b == lessThan

/-- The bytes dropped from the right of a name, a key or a value. -/
def isRightDelimiter (b : UInt8) : Bool :=
  isSpace b || b == equals || isQuote b || b == greaterThan

end Ascii
end EdgeIncludes
