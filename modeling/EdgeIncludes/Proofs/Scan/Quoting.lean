/-
Writing attributes so that they come back.

A value can be any text, and so its bytes can be ones that would end the value, begin an
escape in it, or be trimmed from one of its ends.  `escape` puts a backslash before every
such byte.  Written in that way no unit of the value is one that is trimmed, whichever quote
encloses it, and what the scanner tells of a tag with such values is the attributes that it
was written from (`observed?_selfClosingTag`).
-/
import EdgeIncludes.Proofs.Markup.Units
import EdgeIncludes.Proofs.Scan.Chunking

namespace EdgeIncludes
namespace Markup

open Ascii

/-! ## Values -/

/-- The bytes that are written behind a backslash: the backslash itself, quotes of either
kind, `=`, `<`, `>` and whitespace. -/
def isSpecial (b : UInt8) : Bool :=
  b == backslash || isQuote b || b == equals || b == lessThan || b == greaterThan || isSpace b

def escape (bytes : Bytes) : Bytes :=
  bytes.flatMap fun b => if isSpecial b then [backslash, b] else [b]

/-- The unit that `escape` writes for a byte. -/
def EscapeUnit.ofByte (b : UInt8) : EscapeUnit :=
  if isSpecial b then .escaped b else .plain b

theorem EscapeUnit.byte_ofByte (b : UInt8) : (ofByte b).byte = b := by
  unfold ofByte
  split <;> rfl

/-- A unit that stands by itself is no quote and no backslash. -/
theorem EscapeUnit.fitsIn_ofByte {quote : UInt8} (hquote : isQuote quote) (b : UInt8) :
    (ofByte b).FitsIn quote := by
  unfold ofByte
  by_cases hb : isSpecial b
  · rw [if_pos hb]
    trivial
  · rw [if_neg hb]
    constructor
    · rintro rfl
      exact hb (by decide)
    · rintro rfl
      apply hb
      simp only [isSpecial, hquote, Bool.or_true, Bool.true_or]

theorem EscapeUnit.isDelimiter_ofByte (b : UInt8) :
    (ofByte b).isLeftDelimiter = false ∧ (ofByte b).isRightDelimiter = false := by
  unfold ofByte
  by_cases hb : isSpecial b
  · rw [if_pos hb]
    exact ⟨rfl, rfl⟩
  · rw [if_neg hb]
    simp only [isSpecial, Bool.or_eq_true, not_or, Bool.not_eq_true] at hb
    obtain ⟨⟨⟨⟨⟨-, hquote⟩, hequals⟩, hless⟩, hgreater⟩, hspace⟩ := hb
    constructor
    · show Ascii.isLeftDelimiter b = false
      simp only [Ascii.isLeftDelimiter, hquote, hequals, hless, hspace, Bool.or_false]
    · show Ascii.isRightDelimiter b = false
      simp only [Ascii.isRightDelimiter, hquote, hequals, hgreater, hspace, Bool.or_false]

theorem contentBytes_ofByte (bytes : Bytes) :
    contentBytes (bytes.map EscapeUnit.ofByte) = escape bytes := by
  rw [contentBytes, List.flatMap_map, escape]
  congr 1
  funext b
  unfold EscapeUnit.ofByte
  split <;> rfl

/-- No unit is trimmed of a value that is made of the units for its bytes. -/
theorem trimUnits_ofByte (bytes : Bytes) :
    trimUnits (bytes.map EscapeUnit.ofByte) = bytes.map EscapeUnit.ofByte := by
  have hleft : trimUnitsLeft (bytes.map EscapeUnit.ofByte) = bytes.map EscapeUnit.ofByte := by
    cases bytes with
    | nil => rfl
    | cons b rest =>
      have hb := (EscapeUnit.isDelimiter_ofByte b).1
      rw [trimUnitsLeft, List.map_cons, List.dropWhile_cons_of_neg (by rw [hb]; decide)]
  rw [trimUnits, hleft]
  induction bytes using List.reverseRecOn with
  | nil => rfl
  | append_singleton front b _ =>
    have hb := (EscapeUnit.isDelimiter_ofByte b).2
    rw [List.map_append]
    exact trimUnitsRight_append_of_neg (by rw [hb]; decide) _

/-- What is written by `escape` spells the bytes it was written for. -/
theorem valueBytes_escape (bytes : Bytes) : valueBytes (escape bytes) = bytes := by
  have hwhole : IsWhole (bytes.map EscapeUnit.ofByte) := by
    refine @isWhole_of_fitsIn doubleQuote _ fun unit hunit => ?_
    obtain ⟨b, -, rfl⟩ := List.mem_map.mp hunit
    exact EscapeUnit.fitsIn_ofByte rfl b
  rw [← contentBytes_ofByte, valueBytes_contentBytes hwhole, trimUnits_ofByte, List.map_map]
  calc bytes.map (EscapeUnit.byte ∘ EscapeUnit.ofByte)
      = bytes.map id := List.map_congr_left fun b _ => EscapeUnit.byte_ofByte b
    _ = bytes := List.map_id bytes

/-! ## Tags -/

/-- An attribute with the quote to enclose its value in.  The value can be any text. -/
structure QuotedAttribute extends Attribute where
  quote : UInt8
  isKey : IsKey (Utf8.encode name.toList)
  isQuote : Ascii.isQuote quote

namespace QuotedAttribute

def keyBytes (quoted : QuotedAttribute) : Bytes :=
  Utf8.encode quoted.name.toList

def textBytes (quoted : QuotedAttribute) : Bytes :=
  Utf8.encode quoted.value.toList

/-- A space, the key, `=`, and the escaped value in its quotes. -/
def written (quoted : QuotedAttribute) : Bytes :=
  0x20 :: (quoted.keyBytes ++ equals :: quoted.quote :: (escape quoted.textBytes ++ [quoted.quote]))

/-- The pieces of a start tag that the attribute is written as. -/
def pieces (quoted : QuotedAttribute) : List Piece :=
  [.space 0x20, .pair quoted.keyBytes [] quoted.quote (quoted.textBytes.map EscapeUnit.ofByte)]

theorem piecesBytes_pieces (quoted : QuotedAttribute) :
    piecesBytes quoted.pieces = quoted.written := by
  show 0x20 :: (Piece.pair _ _ _ _).written ++ [] = _
  rw [Piece.written, contentBytes_ofByte, List.append_nil]
  rfl

theorem valid_of_mem_pieces {quoted : QuotedAttribute} {piece : Piece}
    (h : piece ∈ quoted.pieces) : piece.Valid := by
  rcases List.mem_cons.mp h with rfl | h
  · rfl
  · obtain rfl := List.mem_singleton.mp h
    refine ⟨quoted.isKey, List.forall_mem_nil _, quoted.isQuote, fun unit hunit => ?_⟩
    obtain ⟨b, -, rfl⟩ := List.mem_map.mp hunit
    exact EscapeUnit.fitsIn_ofByte quoted.isQuote b

/-- What the pieces say is the attribute. -/
theorem piecesAttributes_pieces (quoted : QuotedAttribute) :
    piecesAttributes quoted.pieces = [quoted.toAttribute] := by
  have hname : String.ofList (quoted.keyBytes.map character) = quoted.name := by
    have hkey : Utf8.lenient quoted.keyBytes = quoted.name := by
      rw [keyBytes, Utf8.lenient_encode, String.ofList_toList]
    rw [← hkey]
    exact (lenient_key quoted.isKey.forall_isKeyByte).symm
  have hvalue : Utf8.lenient quoted.textBytes = quoted.value := by
    rw [textBytes, Utf8.lenient_encode, String.ofList_toList]
  show [Attribute.mk _ _] = _
  rw [contentBytes_ofByte, valueBytes_escape, hname, hvalue]

end QuotedAttribute

/-- A tag that is its own end, with the attributes written so that they come back. -/
def selfClosingTag (letters : Bytes) (attributes : List QuotedAttribute) : Bytes :=
  lessThan :: (namespaceBytes ++ letters ++ attributes.flatMap QuotedAttribute.written ++
    [slash, greaterThan])

/-- The tag, by the parts it is written from. -/
def selfClosingLexeme (letters : Bytes) (attributes : List QuotedAttribute) : Lexeme :=
  .start letters (attributes.flatMap QuotedAttribute.pieces) true

theorem written_selfClosingLexeme (letters : Bytes) (attributes : List QuotedAttribute) :
    (selfClosingLexeme letters attributes).written = selfClosingTag letters attributes := by
  have hpieces : piecesBytes (attributes.flatMap QuotedAttribute.pieces) =
      attributes.flatMap QuotedAttribute.written := by
    rw [piecesBytes, List.flatMap_assoc]
    congr 1
    funext quoted
    exact quoted.piecesBytes_pieces
  rw [selfClosingLexeme, Lexeme.written, hpieces]
  rfl

theorem events_selfClosingLexeme (letters : Bytes) (attributes : List QuotedAttribute) :
    (selfClosingLexeme letters attributes).events =
      [.startTag (namespaceBytes ++ letters) (attributes.map QuotedAttribute.toAttribute),
        .endTag (namespaceBytes ++ letters)] := by
  have hattributes : piecesAttributes (attributes.flatMap QuotedAttribute.pieces) =
      attributes.map QuotedAttribute.toAttribute := by
    rw [piecesAttributes, List.flatMap_assoc, List.map_eq_flatMap]
    congr 1
    funext quoted
    exact quoted.piecesAttributes_pieces
  rw [selfClosingLexeme, Lexeme.events, hattributes]
  rfl

theorem valid_selfClosingLexeme {letters : Bytes} (hname : IsName letters)
    (attributes : List QuotedAttribute) : (selfClosingLexeme letters attributes).Valid := by
  refine ⟨hname, ?_, fun piece hpiece => ?_⟩
  · cases attributes with
    | nil => intro piece hpiece; cases hpiece
    | cons quoted rest => intro piece hpiece; cases hpiece; trivial
  · obtain ⟨quoted, -, hmem⟩ := List.mem_flatMap.mp hpiece
    exact quoted.valid_of_mem_pieces hmem

/-- Text as it is told: not at all if there is none. -/
def textEvents (bytes : Bytes) : List Event :=
  if bytes = [] then [] else [.output bytes]

theorem coalesce_between_texts (before after name : Bytes) (attributes : List Attribute) :
    Event.coalesce [.output before, .startTag name attributes, .endTag name, .output after] =
      textEvents before ++ [.startTag name attributes, .endTag name] ++ textEvents after := by
  cases before <;> cases after <;> rfl

end Markup

namespace Scan
namespace Scanner

open Ascii Markup

/-- Attributes with any values come back from the tag they are written in.  Between two texts
in which no tag can begin, and however the whole is cut, the scanner tells the first text,
the tag's start with the attributes, its end, and the second text; a text that is empty is
not told. -/
theorem observed?_selfClosingTag {letters : Bytes} (hname : IsName letters)
    (attributes : List QuotedAttribute) {before after : Bytes} (hbefore : lessThan ∉ before)
    (hafter : lessThan ∉ after) {chunks : List Bytes}
    (hchunks : chunks.flatten = before ++ selfClosingTag letters attributes ++ after)
    {ending : List Call} (hending : ending = [] ∨ ending = [.finish]) :
    observed? (chunks.map .feed ++ ending) = some (.text,
      textEvents before ++
        [.startTag (namespaceBytes ++ letters) (attributes.map QuotedAttribute.toAttribute),
          .endTag (namespaceBytes ++ letters)] ++
        textEvents after) := by
  have hclear : ∀ token ∈ [Token.text before, .tag (selfClosingLexeme letters attributes),
      .text after], token.IsClear := by
    refine List.forall_mem_cons.mpr ⟨hbefore, List.forall_mem_cons.mpr ⟨?_, ?_⟩⟩
    · exact valid_selfClosingLexeme hname attributes
    · exact List.forall_mem_singleton.mpr hafter
  have hbytes : chunks.flatten = tokensBytes [Token.text before,
      .tag (selfClosingLexeme letters attributes), .text after] := by
    rw [hchunks, ← written_selfClosingLexeme, List.append_assoc]
    simp only [tokensBytes_cons, tokensBytes_nil, Token.written, List.append_nil]
  rw [observed?_tokens hclear hbytes hending]
  simp only [tokensEvents_cons, tokensEvents_nil, Token.events, events_selfClosingLexeme,
    List.cons_append, List.nil_append, coalesce_between_texts]

/-- An empty value, and one with every special byte but tab, line feed, form feed and carriage
return in it.  The first cut is inside a character and the second behind the first backslash
of an escape. -/
theorem observed?_selfClosingTag_of_two_cuts :
    observed? ([[0x61, 0x3C, 0x65, 0x73, 0x69, 0x3A, 0x61, 0x20, 0x73, 0x72, 0x63, 0x3D, 0x22, 0x22,
          0x20, 0x2D, 0x78, 0x39, 0x3D, 0x27, 0xC3],
        [0xA9, 0x5C],
        [0x5C, 0x5C, 0x22, 0x5C, 0x20, 0x5C, 0x27, 0x5C, 0x3C, 0x5C, 0x3D, 0x5C, 0x3E, 0x5C, 0x5C,
          0x27, 0x2F, 0x3E]].map .feed ++ [.finish]) =
      some (.text, [.output [0x61],
        .startTag [0x65, 0x73, 0x69, 0x3A, 0x61] [⟨"src", ""⟩, ⟨"-x9", "é\\\" '<=>\\"⟩],
        .endTag [0x65, 0x73, 0x69, 0x3A, 0x61]]) :=
  @observed?_selfClosingTag [0x61] ⟨by decide, List.forall_mem_singleton.mpr (by decide)⟩
    [{ name := "src", value := "", quote := doubleQuote,
       isKey := ⟨by decide +kernel, by decide +kernel⟩, isQuote := rfl },
     { name := "-x9", value := "é\\\" '<=>\\", quote := singleQuote,
       isKey := ⟨by decide +kernel, by decide +kernel⟩, isQuote := rfl }]
    [0x61] [] (by decide) (by decide) _ (by decide +kernel) [.finish] (.inr rfl)

end Scanner
end Scan
end EdgeIncludes
