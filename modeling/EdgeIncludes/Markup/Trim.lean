/-
What is left of a name, a key or a value once its delimiters are gone.

The scanner remembers where a lexeme is in its buffer by the delimiters on both sides,
and the delimiters are dropped when the lexeme is read.  In a value a backslash takes
the next byte with it, and so a trailing delimiter stays if it is escaped, which is to
say if an odd run of backslashes stands right before it.  The run is counted only as far
back as the left trimming reached.
-/
import EdgeIncludes.Bytes

namespace EdgeIncludes
namespace Markup

open Ascii

/-! ## Names and keys -/

def trimLeft (bytes : Bytes) : Bytes :=
  bytes.dropWhile isLeftDelimiter

def trimRight (bytes : Bytes) : Bytes :=
  (bytes.reverse.dropWhile isRightDelimiter).reverse

/-! ## Values

The bytes of a value are looked at from their end, so these definitions take them in
reverse. -/

/-- A byte is escaped if the bytes before it, nearest first, begin with an odd run of
backslashes. -/
def isEscaped (before : Bytes) : Bool :=
  (before.takeWhile fun b => b == backslash).length % 2 == 1

/-- The reversed bytes without the leading delimiters that are not escaped. -/
def dropUnescaped : Bytes → Bytes
  | [] => []
  | b :: before =>
    if isRightDelimiter b && !isEscaped before then dropUnescaped before else b :: before

def trimValue (bytes : Bytes) : Bytes :=
  (dropUnescaped (trimLeft bytes).reverse).reverse

/-- The bytes with every escape resolved to the byte it escapes.  A backslash with
nothing after it stands for itself. -/
def unescape : Bytes → Bytes
  | [] => []
  | [b] => [b]
  | b :: c :: rest => if b = backslash then c :: unescape rest else b :: unescape (c :: rest)

/-- The bytes that a value spells, given everything between its `=` and its closing
quote. -/
def valueBytes (raw : Bytes) : Bytes :=
  unescape (trimValue raw)

end Markup
end EdgeIncludes
