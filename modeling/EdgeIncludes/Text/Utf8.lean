/-
Reading bytes as text.

A byte string is read from the left in pieces.  A piece is either one character or a
malformed run, and a malformed run is maximal: it is the longest stretch at that place
which begins some well-formed character and then goes wrong, or the single byte that no
character begins with.  Both readings of this project are folds over the pieces.  The
lenient one puts one replacement character for every malformed run, whatever its length,
and the strict one reports the first of them with its offset and its length.

Whether the front of a byte string is a well-formed character is decided by the core
library's decoder, so that decoding an encoded character is a law of that library; only
the length of a malformed run is worked out here.  The main statement is
`pieces_encode_append`: encoded text in front of anything is read back character by
character, and what follows it is read as if it stood alone.
-/
import EdgeIncludes.Bytes

namespace EdgeIncludes
namespace Utf8

/-! ## The length of a malformed run -/

/-- The range that the second byte of a character must lie in, and how many bytes follow
the first one altogether.  The narrower ranges keep out overlong forms, surrogates and
numbers past the last code point. -/
structure Lead where
  following : Nat
  low : UInt8 := 0x80
  high : UInt8 := 0xBF
deriving Repr, DecidableEq

/-- What a byte of a multi-byte character asks of the bytes after it, and nothing for a
byte that starts no such character. -/
def Lead.of? (b : UInt8) : Option Lead :=
  if 0xC2 ≤ b && b ≤ 0xDF then some { following := 1 }
  else if b == 0xE0 then some { following := 2, low := 0xA0 }
  else if b == 0xED then some { following := 2, high := 0x9F }
  else if 0xE1 ≤ b && b ≤ 0xEF then some { following := 2 }
  else if b == 0xF0 then some { following := 3, low := 0x90 }
  else if b == 0xF4 then some { following := 3, high := 0x8F }
  else if 0xF1 ≤ b && b ≤ 0xF3 then some { following := 3 }
  else none

/-- The bytes after the first that belong to the character it starts, as far as they are
there: the second must lie in the lead's range and the others in 80 to BF. -/
def Lead.accepted (lead : Lead) : Bytes → Bytes
  | [] => []
  | second :: rest =>
    if lead.low ≤ second && second ≤ lead.high then
      second :: (rest.take (lead.following - 1)).takeWhile fun b => 0x80 ≤ b && b ≤ 0xBF
    else []

/-- A malformed run: its length, and whether it is only the end of the input that cuts
it short. -/
structure Malformed where
  length : Nat
  truncated : Bool
deriving Repr, DecidableEq

/-- The malformed run at the front of `b :: rest`, where no character starts. -/
def malformed (b : UInt8) (rest : Bytes) : Malformed :=
  match Lead.of? b with
  | none => ⟨1, false⟩
  | some lead =>
    let kept := lead.accepted rest
    ⟨1 + kept.length, kept.length = rest.length⟩

/-! ## Pieces -/

inductive Piece where
  | char (c : Char)
  | broken (run : Malformed)
deriving Repr, DecidableEq

def Piece.length : Piece → Nat
  | .char c => c.utf8Size
  | .broken run => run.length

def piece (b : UInt8) (rest : Bytes) : Piece :=
  match (b :: rest.take 3).toByteArray.utf8DecodeChar? 0 with
  | some c => .char c
  | none => .broken (malformed b rest)

def pieces : Bytes → List Piece
  | [] => []
  | b :: rest =>
    let next := piece b rest
    next :: pieces (rest.drop (next.length - 1))
termination_by bytes => bytes.length
decreasing_by
  simp only [List.length_drop, List.length_cons]
  omega

/-! ## Encoded text -/

def encode (text : List Char) : Bytes :=
  text.flatMap String.utf8EncodeChar

@[simp] theorem pieces_nil : pieces [] = [] := by
  rw [pieces]

theorem piece_of_encoded {c : Char} {b : UInt8} {tail : Bytes}
    (h : String.utf8EncodeChar c = b :: tail) (rest : Bytes) :
    piece b (tail ++ rest) = .char c := by
  have hlen : tail.length + 1 = c.utf8Size := by
    rw [← String.length_utf8EncodeChar c, h, List.length_cons]
  have hfront : b :: (tail ++ rest).take 3 =
      String.utf8EncodeChar c ++ rest.take (3 - tail.length) := by
    rw [List.take_append, List.take_of_length_le, h, List.cons_append]
    have := c.utf8Size_le_four
    omega
  rw [piece, hfront, List.toByteArray_append, ByteArray.utf8DecodeChar?_utf8EncodeChar_append]

theorem pieces_encodeChar_append (c : Char) (rest : Bytes) :
    pieces (String.utf8EncodeChar c ++ rest) = .char c :: pieces rest := by
  have hlen := String.length_utf8EncodeChar c
  cases h : String.utf8EncodeChar c with
  | nil =>
    rw [h, List.length_nil] at hlen
    exact absurd c.utf8Size_pos (by omega)
  | cons b tail =>
    rw [h, List.length_cons] at hlen
    rw [List.cons_append, pieces, piece_of_encoded h]
    simp only [Piece.length, ← hlen, Nat.add_sub_cancel, List.drop_left]

/-- Encoded text is read back, and what follows it is read as if it stood alone. -/
theorem pieces_encode_append (text : List Char) (rest : Bytes) :
    pieces (encode text ++ rest) = text.map Piece.char ++ pieces rest := by
  induction text with
  | nil => rfl
  | cons c text ih =>
    rw [encode, List.flatMap_cons, List.append_assoc, pieces_encodeChar_append]
    exact congrArg (Piece.char c :: ·) ih

/-! ## The two readings -/

def replacement : Char := '\uFFFD'

def Piece.lenient : Piece → Char
  | .char c => c
  | .broken _ => replacement

/-- The text of a byte string, with one replacement character for every malformed run. -/
def lenient (bytes : Bytes) : String :=
  String.ofList ((pieces bytes).map Piece.lenient)

theorem lenient_encode (text : List Char) : lenient (encode text) = String.ofList text := by
  have h := pieces_encode_append text []
  rw [List.append_nil, pieces_nil, List.append_nil] at h
  simp only [lenient, h, List.map_map]
  exact congrArg String.ofList (List.map_id text)

/-- Why a byte string is no text: the first malformed run and its offset. -/
structure Fault where
  offset : Nat
  run : Malformed
deriving Repr, DecidableEq

/-- The wording of a fault.  A run cut short by the end of the input has no length to
report, since what is missing is not known. -/
def Fault.message (fault : Fault) : String :=
  let offset := toString fault.offset
  if fault.run.truncated then
    s!"incomplete utf-8 byte sequence from index {offset}"
  else
    let length := toString fault.run.length
    s!"invalid utf-8 sequence of {length} bytes from index {offset}"

/-- The characters of the pieces, if all of them are characters; `offset` is where the
first of them starts. -/
def strictPieces (offset : Nat) : List Piece → Except Fault (List Char)
  | [] => .ok []
  | .broken run :: _ => .error ⟨offset, run⟩
  | .char c :: rest => (strictPieces (offset + c.utf8Size) rest).map (c :: ·)

def strict (bytes : Bytes) : Except Fault (List Char) :=
  strictPieces 0 (pieces bytes)

end Utf8
end EdgeIncludes
