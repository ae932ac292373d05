/-
The tokens of a JSON text.

A text is read character by character, with one mode for each kind of token that has more
than one character.  The grammar is the strict one: no leading zeros, no bare fraction,
no control characters inside strings, whitespace of four kinds only.

Two kinds of token are read further than a reader of settings may need.  A number is a
count only if it is written as one, without sign, fraction or exponent, and any other
number is well-formed and says nothing.  A string may hold escapes that name half a
character; it is well-formed all the same, and has no text.
-/

namespace EdgeIncludes
namespace Json

inductive Token where
  | beginObject
  | endObject
  | beginArray
  | endArray
  | colon
  | comma
  | null
  | bool (value : Bool)
  | number (count : Option Nat)
  | text (value : Option (List Char))
deriving Repr, DecidableEq

/-! ## Strings -/

/-- A piece of a string: a character, or a code unit that an escape names. -/
inductive StringPiece where
  | char (c : Char)
  | code (n : Nat)
deriving Repr, DecidableEq

def isHighHalf (n : Nat) : Bool := 0xD800 ≤ n && n ≤ 0xDBFF

def isLowHalf (n : Nat) : Bool := 0xDC00 ≤ n && n ≤ 0xDFFF

def joinHalves (high low : Nat) : Char :=
  Char.ofNat (0x10000 + (high - 0xD800) * 0x400 + (low - 0xDC00))

/-- The text of a string's pieces, which is there if every half has its other half right
beside it. -/
def assemble? : List StringPiece → Option (List Char)
  | [] => some []
  | .char c :: rest => (assemble? rest).map (c :: ·)
  | .code n :: rest =>
    if isLowHalf n then none
    else if isHighHalf n then
      match rest with
      | .code low :: rest =>
        if isLowHalf low then (assemble? rest).map (joinHalves n low :: ·) else none
      | _ => none
    else (assemble? rest).map (Char.ofNat n :: ·)

def unescape? (c : Char) : Option Char :=
  if c == '"' || c == '\\' || c == '/' then some c
  else if c == 'b' then some '\x08'
  else if c == 'f' then some '\x0c'
  else if c == 'n' then some '\n'
  else if c == 'r' then some '\r'
  else if c == 't' then some '\t'
  else none

def hexDigit? (c : Char) : Option Nat :=
  if c.isDigit then some (c.toNat - '0'.toNat)
  else if 'a' ≤ c && c ≤ 'f' then some (c.toNat - 'a'.toNat + 10)
  else if 'A' ≤ c && c ≤ 'F' then some (c.toNat - 'A'.toNat + 10)
  else none

/-! ## Numbers -/

inductive NumberPart where
  | minus
  | zero
  | whole
  | point
  | fraction
  | exponentMark
  | exponentSign
  | exponent
deriving Repr, DecidableEq

def NumberPart.isFinal : NumberPart → Bool
  | .zero | .whole | .fraction | .exponent => true
  | _ => false

def isExponentMark (c : Char) : Bool := c == 'e' || c == 'E'

/-- How far the number has been read after one more character, if it goes on. -/
def NumberPart.next? (part : NumberPart) (c : Char) : Option NumberPart :=
  match part with
  | .minus => if c == '0' then some .zero else if c.isDigit then some .whole else none
  | .zero =>
    if c == '.' then some .point else if isExponentMark c then some .exponentMark else none
  | .whole =>
    if c.isDigit then some .whole
    else if c == '.' then some .point
    else if isExponentMark c then some .exponentMark
    else none
  | .point => if c.isDigit then some .fraction else none
  | .fraction =>
    if c.isDigit then some .fraction
    else if isExponentMark c then some .exponentMark
    else none
  | .exponentMark =>
    if c == '+' || c == '-' then some .exponentSign
    else if c.isDigit then some .exponent
    else none
  | .exponentSign | .exponent => if c.isDigit then some .exponent else none

/-- The count spelled so far, while the number is still written as one. -/
def countAfter (count : Option Nat) (part : NumberPart) (c : Char) : Option Nat :=
  if part = .whole then count.map fun n => 10 * n + (c.toNat - '0'.toNat) else none

/-! ## The lexer -/

inductive Mode where
  | between
  /-- A string, with its pieces so far, last one first. -/
  | text (pieces : List StringPiece)
  | escape (pieces : List StringPiece)
  | code (pieces : List StringPiece) (digits value : Nat)
  | number (part : NumberPart) (count : Option Nat)
  /-- A word, of which these characters are to come. -/
  | word (rest : List Char) (token : Token)
deriving Repr, DecidableEq

structure Lexer where
  mode : Mode := .between
  tokens : Array Token := #[]

namespace Lexer

def emit (lexer : Lexer) (token : Token) : Lexer :=
  ⟨.between, lexer.tokens.push token⟩

def goOn (lexer : Lexer) (mode : Mode) : Lexer :=
  { lexer with mode }

/-- The whitespace between tokens: space, tab, line feed and carriage return. -/
def isSpace (c : Char) : Bool :=
  c == ' ' || c == '\t' || c == '\n' || c == '\r'

def start? (lexer : Lexer) (c : Char) : Option Lexer :=
  if isSpace c then some lexer
  else if c == '\x7b' then some (lexer.emit .beginObject)
  else if c == '\x7d' then some (lexer.emit .endObject)
  else if c == '[' then some (lexer.emit .beginArray)
  else if c == ']' then some (lexer.emit .endArray)
  else if c == ':' then some (lexer.emit .colon)
  else if c == ',' then some (lexer.emit .comma)
  else if c == '"' then some (lexer.goOn (.text []))
  else if c == '-' then some (lexer.goOn (.number .minus none))
  else if c == '0' then some (lexer.goOn (.number .zero (some 0)))
  else if c.isDigit then some (lexer.goOn (.number .whole (some (c.toNat - '0'.toNat))))
  else if c == 't' then some (lexer.goOn (.word ['r', 'u', 'e'] (.bool true)))
  else if c == 'f' then some (lexer.goOn (.word ['a', 'l', 's', 'e'] (.bool false)))
  else if c == 'n' then some (lexer.goOn (.word ['u', 'l', 'l'] .null))
  else none

def textStep? (lexer : Lexer) (pieces : List StringPiece) (c : Char) : Option Lexer :=
  if c == '"' then some (lexer.emit (.text (assemble? pieces.reverse)))
  else if c == '\\' then some (lexer.goOn (.escape pieces))
  else if c.toNat < 0x20 then none
  else some (lexer.goOn (.text (.char c :: pieces)))

def step? (lexer : Lexer) (c : Char) : Option Lexer :=
  match lexer.mode with
  | .between => lexer.start? c
  | .text pieces => lexer.textStep? pieces c
  | .escape pieces =>
    if c == 'u' then some (lexer.goOn (.code pieces 0 0))
    else (unescape? c).map fun c => lexer.goOn (.text (.char c :: pieces))
  | .code pieces digits value =>
    (hexDigit? c).map fun digit =>
      let value := 16 * value + digit
      if digits = 3 then lexer.goOn (.text (.code value :: pieces))
      else lexer.goOn (.code pieces (digits + 1) value)
  | .number part count =>
    match part.next? c with
    | some next => some (lexer.goOn (.number next (countAfter count next c)))
    | none => if part.isFinal then (lexer.emit (.number count)).start? c else none
  | .word [] _ => none
  | .word (expected :: rest) token =>
    if c != expected then none
    else if rest.isEmpty then some (lexer.emit token)
    else some (lexer.goOn (.word rest token))

def tokens? (lexer : Lexer) : Option (List Token) :=
  match lexer.mode with
  | .between => some lexer.tokens.toList
  | .number part count =>
    if part.isFinal then some (lexer.emit (.number count)).tokens.toList else none
  | _ => none

end Lexer

def tokens? (text : List Char) : Option (List Token) :=
  (text.foldlM Lexer.step? {}).bind Lexer.tokens?

end Json
end EdgeIncludes
