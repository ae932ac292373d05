/-
Values are trimmed by whole escape units.

The trimmers and the resolution of escapes look at bytes.  Here the bytes between the quotes are
split into escape units as a reader from the left does it (`units`), and what is kept of a value is
said about units alone: some are dropped at both ends, and those are delimiters that stand by
themselves; each of the others gives its byte.  No byte that is escaped is lost, and no escape is
cut in half (`Value.Valid.keepsUnits`).

That the bytes between the quotes fit this description is for the scanner to see to, and it does:
what it has stored after any calls are the attributes of such values, and every such value that
comes where an attribute may come is stored as its attribute.
-/
import EdgeIncludes.Proofs.Markup.Parts
import EdgeIncludes.Proofs.Markup.Units
import EdgeIncludes.Proofs.Scan.Accounting

namespace EdgeIncludes
namespace Markup

open Ascii

/-! ## Bytes as units -/

/-- The bytes in escape units, read from the left.  A backslash takes the next byte with it, if
there is one. -/
def units : Bytes → List EscapeUnit
  | [] => []
  | [b] => [.plain b]
  | b :: c :: rest =>
    if b = backslash then .escaped c :: units rest else .plain b :: units (c :: rest)

theorem units_cons_of_ne {b : UInt8} (hb : b ≠ backslash) (rest : Bytes) :
    units (b :: rest) = .plain b :: units rest := by
  cases rest with
  | nil => rfl
  | cons c rest => rw [units, if_neg hb]

theorem units_backslash (b : UInt8) (rest : Bytes) :
    units (backslash :: b :: rest) = .escaped b :: units rest := by
  rw [units, if_pos rfl]

/-- To read bytes in units is to read all of them. -/
theorem contentBytes_units (bytes : Bytes) : contentBytes (units bytes) = bytes := by
  fun_induction units bytes with
  | case1 => rfl
  | case2 b => rfl
  | case3 c rest ih => exact congrArg (fun more => backslash :: c :: more) ih
  | case4 b c rest hb ih => exact congrArg (b :: ·) ih

/-- Whole units are read back as they were written. -/
theorem units_contentBytes {content : List EscapeUnit} (h : IsWhole content) :
    units (contentBytes content) = content := by
  induction content with
  | nil => rfl
  | cons unit content ih =>
    cases unit with
    | plain b =>
      show units (b :: contentBytes content) = _
      rw [units_cons_of_ne h.ne_backslash, ih h.of_cons]
    | escaped b =>
      show units (backslash :: b :: contentBytes content) = _
      rw [units_backslash, ih h.of_cons]

/-! ## Escapes that are whole -/

/-- Resolve the escapes, with no answer for a backslash that nothing comes after. -/
def unescape? : Bytes → Option Bytes
  | [] => some []
  | [b] => if b = backslash then none else some [b]
  | b :: c :: rest =>
    if b = backslash then (unescape? rest).map (c :: ·)
    else (unescape? (c :: rest)).map (b :: ·)

theorem isWhole_cons_iff {unit : EscapeUnit} {content : List EscapeUnit} :
    IsWhole (unit :: content) ↔ unit ≠ .plain backslash ∧ IsWhole content := by
  rw [IsWhole, IsWhole, List.mem_cons, not_or, ne_comm]

/-- The two ways to resolve escapes are the same where the units are whole. -/
theorem unescape?_eq_some_iff {bytes resolved : Bytes} :
    unescape? bytes = some resolved ↔ IsWhole (units bytes) ∧ unescape bytes = resolved := by
  fun_induction unescape? bytes generalizing resolved with
  | case1 => simp [units, unescape, IsWhole]
  | case2 => simp [units, IsWhole]
  | case3 b hb => simp [units, unescape, IsWhole, Ne.symm hb]
  | case4 c rest ih =>
    rw [Option.map_eq_some_iff, units_backslash, unescape_backslash, isWhole_cons_iff]
    grind
  | case5 b c rest hb ih =>
    rw [Option.map_eq_some_iff, units_cons_of_ne hb, unescape_cons_of_ne hb, isWhole_cons_iff]
    grind

/-! ## What is dropped -/

def EscapeUnit.isEscaped : EscapeUnit → Bool
  | plain _ => false
  | escaped _ => true

/-- What is trimmed of a value are delimiters that stand by themselves, at both ends. -/
theorem exists_trimmed (content : List EscapeUnit) :
    ∃ front back, content = front ++ trimUnits content ++ back ∧
      (∀ unit ∈ front, unit.isLeftDelimiter) ∧ ∀ unit ∈ back, unit.isRightDelimiter := by
  have hleft : content.takeWhile EscapeUnit.isLeftDelimiter ++ trimUnitsLeft content = content :=
    List.takeWhile_append_dropWhile
  have hright : trimUnits content ++
      (trimUnitsLeft content).rtakeWhile EscapeUnit.isRightDelimiter = trimUnitsLeft content :=
    List.rdropWhile_append_rtakeWhile
  refine ⟨content.takeWhile EscapeUnit.isLeftDelimiter,
    (trimUnitsLeft content).rtakeWhile EscapeUnit.isRightDelimiter, ?_,
    fun unit => List.mem_takeWhile_imp, fun unit => List.mem_rtakeWhile_imp⟩
  rw [List.append_assoc, hright, hleft]

/-- No escaped byte is trimmed. -/
theorem filter_isEscaped_trimUnits (content : List EscapeUnit) :
    (trimUnits content).filter EscapeUnit.isEscaped = content.filter EscapeUnit.isEscaped := by
  obtain ⟨front, back, hcontent, hfront, hback⟩ := exists_trimmed content
  have hnone : ∀ dropped : List EscapeUnit,
      (∀ unit ∈ dropped, unit.isLeftDelimiter ∨ unit.isRightDelimiter) →
        dropped.filter EscapeUnit.isEscaped = [] := by
    intro dropped hdropped
    rw [List.filter_eq_nil_iff]
    intro unit hmem
    cases unit with
    | plain b => exact Bool.false_ne_true
    | escaped b => rcases hdropped _ hmem with h | h <;> cases h
  have hfirst := hnone front fun unit hmem => .inl (hfront unit hmem)
  have hlast := hnone back fun unit hmem => .inr (hback unit hmem)
  conv_rhs => rw [hcontent]
  rw [List.filter_append, List.filter_append, hfirst, hlast, List.nil_append, List.append_nil]

/-! ## Values -/

/-- A value with its key, as the bytes that they are written in. -/
structure Value where
  key : Bytes
  /-- What comes between the `=` and the quote. -/
  gap : Bytes
  quote : UInt8
  /-- What comes between the quotes. -/
  content : Bytes
deriving Repr, DecidableEq

namespace Value

/-- From the `=` on, without the closing quote. -/
def raw (value : Value) : Bytes :=
  equals :: (value.gap ++ value.quote :: value.content)

def written (value : Value) : Bytes :=
  value.key ++ value.raw ++ [value.quote]

/-- The closing quote is the first that no backslash takes with it. -/
structure Valid (value : Value) : Prop where
  key : IsKey value.key
  gap : IsGap value.gap
  quote : isQuote value.quote
  content : ∀ unit ∈ units value.content, unit.FitsIn value.quote

/-- The units of the content that are not trimmed. -/
def kept (value : Value) : List EscapeUnit :=
  trimUnits (units value.content)

/-- The key, and the bytes that the kept units give, as text. -/
def stored (value : Value) : Attribute :=
  .ofBytes value.key (value.kept.map EscapeUnit.byte)

/-- What is stored of a value is said by its units. -/
structure KeepsUnits (value : Value) : Prop where
  /-- The units that are dropped stand at the ends, and they are delimiters by themselves. -/
  dropped : ∃ front back, units value.content = front ++ value.kept ++ back ∧
    (∀ unit ∈ front, unit.isLeftDelimiter) ∧ ∀ unit ∈ back, unit.isRightDelimiter
  /-- No escaped byte is dropped. -/
  escapes : value.kept.filter EscapeUnit.isEscaped =
    (units value.content).filter EscapeUnit.isEscaped
  /-- What the trimmers leave are the kept units, all of them whole. -/
  trimmed : trimValue value.raw = contentBytes value.kept
  /-- No backslash is met that nothing comes after. -/
  whole : unescape? (trimValue value.raw) = some (valueBytes value.raw)
  bytes : valueBytes value.raw = value.kept.map EscapeUnit.byte

theorem Valid.keepsUnits {value : Value} (h : value.Valid) : value.KeepsUnits := by
  have hwhole : IsWhole (units value.content) := isWhole_of_fitsIn h.content
  have htrimmed : trimValue value.raw = contentBytes value.kept := by
    rw [raw, trimValue_content h.gap h.quote, kept, ← trimValue_contentBytes hwhole,
      contentBytes_units]
  refine ⟨exists_trimmed _, filter_isEscaped_trimUnits _, htrimmed, ?_, ?_⟩
  · rw [unescape?_eq_some_iff, htrimmed, kept, units_contentBytes hwhole.trimUnits]
    refine ⟨hwhole.trimUnits, ?_⟩
    rw [valueBytes, htrimmed, kept]
  · rw [valueBytes, htrimmed, kept, unescape_contentBytes hwhole.trimUnits]

/-- The value as a piece of a tag. -/
def piece (value : Value) : Piece :=
  .pair value.key value.gap value.quote (units value.content)

theorem written_piece (value : Value) : value.piece.written = value.written := by
  rw [piece, Piece.written, contentBytes_units]
  simp only [written, raw, List.append_assoc, List.cons_append]

theorem Valid.piece {value : Value} (h : value.Valid) : value.piece.Valid :=
  ⟨h.key, h.gap, h.quote, h.content⟩

theorem Valid.attributes_piece {value : Value} (h : value.Valid) :
    value.piece.attributes = [value.stored] := by
  rw [Value.piece, Piece.attributes, ← lenient_key h.key.forall_isKeyByte,
    valueBytes_contentBytes (isWhole_of_fitsIn h.content)]
  rfl

end Value

/-- Every piece that is no whitespace is a value. -/
theorem exists_value {key gap : Bytes} {quote : UInt8} {content : List EscapeUnit}
    (h : (Piece.pair key gap quote content).Valid) :
    ∃ value : Value, value.Valid ∧ value.piece = .pair key gap quote content := by
  obtain ⟨hkey, hgap, hquote, hcontent⟩ := h
  have hunits := units_contentBytes (isWhole_of_fitsIn hcontent)
  refine ⟨⟨key, gap, quote, contentBytes content⟩, ⟨hkey, hgap, hquote, ?_⟩, ?_⟩
  · rw [hunits]
    exact hcontent
  · rw [Value.piece, hunits]

/-! ## Values of a tag -/

/-- The attributes are those of values that stand in the bytes. -/
def Spells (bytes : Bytes) (attributes : List Attribute) : Prop :=
  ∃ values : List Value, attributes = values.map Value.stored ∧
    ∀ value ∈ values, value.Valid ∧ value.written <:+: bytes

theorem spells_nil (bytes : Bytes) : Spells bytes [] :=
  ⟨[], rfl, by simp⟩

theorem Spells.of_infix {bytes more : Bytes} {attributes : List Attribute}
    (h : Spells bytes attributes) (hbytes : bytes <:+: more) : Spells more attributes := by
  obtain ⟨values, hattributes, hvalues⟩ := h
  exact ⟨values, hattributes, fun value hmem =>
    ⟨(hvalues value hmem).1, (hvalues value hmem).2.trans hbytes⟩⟩

theorem Spells.append {front back : Bytes} {attributes more : List Attribute}
    (hfront : Spells front attributes) (hback : Spells back more) :
    Spells (front ++ back) (attributes ++ more) := by
  obtain ⟨values, rfl, hvalues⟩ := hfront.of_infix (List.prefix_append front back).isInfix
  obtain ⟨others, rfl, hothers⟩ := hback.of_infix (List.suffix_append front back).isInfix
  exact ⟨values ++ others, List.map_append.symm, List.forall_mem_append.mpr ⟨hvalues, hothers⟩⟩

theorem spells_flatMap {α : Type} {written : α → Bytes} {attributes : α → List Attribute}
    {parts : List α} (h : ∀ part ∈ parts, Spells (written part) (attributes part)) :
    Spells (parts.flatMap written) (parts.flatMap attributes) := by
  induction parts with
  | nil => exact spells_nil []
  | cons part parts ih =>
    obtain ⟨hpart, hparts⟩ := List.forall_mem_cons.mp h
    exact hpart.append (ih hparts)

theorem Piece.spells {piece : Piece} (h : piece.Valid) : Spells piece.written piece.attributes := by
  cases piece with
  | space b => exact spells_nil [b]
  | pair key gap quote content =>
    obtain ⟨value, hvalue, hpiece⟩ := exists_value h
    rw [← hpiece, hvalue.attributes_piece, value.written_piece]
    exact ⟨[value], rfl, List.forall_mem_singleton.mpr ⟨hvalue, List.infix_rfl⟩⟩

/-- The attributes that an event tells. -/
def Event.attributes : Event → List Attribute
  | .startTag _ attributes => attributes
  | .endTag _ | .output _ => []

theorem Token.spells {token : Token} (h : token.Valid) :
    Spells token.written (token.events.flatMap Event.attributes) := by
  match token with
  | .text bytes => exact spells_nil bytes
  | .tag (.stop letters gap) => exact spells_nil _
  | .tag (.start letters pieces selfClosing) =>
    have hpieces : Spells (piecesBytes pieces) (piecesAttributes pieces) :=
      spells_flatMap fun piece hmem => Piece.spells (h.2.2 piece hmem)
    have hevents : (Lexeme.start letters pieces selfClosing).events.flatMap Event.attributes =
        piecesAttributes pieces := by
      cases selfClosing <;> exact List.append_nil _
    show Spells (Lexeme.start letters pieces selfClosing).written _
    rw [Token.events, hevents, Lexeme.written]
    exact hpieces.of_infix ⟨_, _, rfl⟩

theorem spells_tokens {tokens : List Token} (h : ∀ token ∈ tokens, token.Valid) :
    Spells (tokensBytes tokens) ((tokensEvents tokens).flatMap Event.attributes) := by
  rw [tokensEvents, List.flatMap_assoc]
  exact spells_flatMap fun token hmem => Token.spells (h token hmem)

end Markup

namespace Scan

open Markup Event

theorem Draft.spells {draft : Draft} (h : draft.Valid) : Spells draft.bytes draft.attributes := by
  cases draft with
  | inTag letters pieces tail =>
    have hpieces : Spells (piecesBytes pieces) (piecesAttributes pieces) :=
      spells_flatMap fun piece hmem => Piece.spells (h.2.1.2 piece hmem)
    exact hpieces.of_infix ⟨_, _, rfl⟩
  | _ => exact spells_nil _

theorem Draft.eq_inTag_of_state {draft : Draft} (h : draft.state = .betweenAttributes) :
    ∃ letters pieces, draft = .inTag letters pieces .betweenAttributes := by
  cases draft with
  | inTag letters pieces tail =>
    cases tail with
    | betweenAttributes => exact ⟨letters, pieces, rfl⟩
    | _ => cases h
  | _ => cases h

namespace Session

/-- The attributes of the tags that the scanner gave, and those of the tag in hand. -/
def attributes (session : Session) : List Attribute :=
  session.emitted.flatMap Event.attributes ++ session.scanner.attributes

theorem Kept.spells {session : Session} (kept : session.Kept) :
    Spells session.received session.attributes := by
  obtain ⟨tokens, hvalid, hemitted, hreceived⟩ := kept.told
  have hspells := (spells_tokens hvalid).append (Draft.spells kept.ready.valid)
  rw [← hreceived, ← hemitted, ← kept.ready.holds.attributes] at hspells
  exact hspells

/-- After any calls, what a new scanner has stored are the attributes of values that stand in the
bytes.  Where an attribute may come, every value is stored as its attribute, however it is cut into
chunks.  What is stored of a value are its units, in order and without those that are dropped at
both ends, and each gives its byte: no escaped byte is dropped, no escape is cut in half, and no
backslash is met that nothing comes after. -/
theorem stores_kept_units (calls : List Scanner.Call) :
    ∃ session, calls.foldlM call? ({} : Session) = some session ∧
      Spells session.received session.attributes ∧
      (session.scanner.state = .betweenAttributes →
        ∀ value : Value, value.Valid →
          ∀ chunks : List Bytes, chunks.flatten = value.written →
            ∃ after events, session.scanner.run? (chunks.map .feed) = some (after, events) ∧
              coalesce events = [] ∧ after.state = .betweenAttributes ∧
              after.attributes = session.scanner.attributes ++ [value.stored]) ∧
      ∀ value : Value, value.Valid → value.KeepsUnits := by
  obtain ⟨session, hcalls, hkept⟩ := exists_kept kept_new calls
  refine ⟨session, hcalls, hkept.spells, ?_, fun value hvalue => hvalue.keepsUnits⟩
  intro hstate value hvalue chunks hchunks
  have hready := hkept.ready
  obtain ⟨letters, pieces, hdraft⟩ :=
    Draft.eq_inTag_of_state (hready.holds.state.symm.trans hstate)
  rw [hdraft] at hready
  obtain ⟨after, events, hrun, hevents, hafter⟩ := Scanner.run?_ready hready (chunks.map .feed)
  rw [Draft.calls_feed, hchunks, ← value.written_piece, Draft.run_piece letters pieces hvalue.piece]
    at hevents hafter
  refine ⟨after, events, hrun, hevents, hafter.holds.state, ?_⟩
  rw [hafter.holds.attributes, hready.holds.attributes, ← hvalue.attributes_piece]
  show piecesAttributes (pieces ++ [value.piece]) = _
  rw [piecesAttributes_append, piecesAttributes_singleton]
  rfl

/-- In `<esi:a `, a value that begins and ends with delimiters, with an escaped space, an escaped
backslash and an escaped quote between them.  It is cut inside of two of the escapes. -/
theorem stores_kept_units_of_cut_escapes :
    let opening : Scanner.Call := .feed [0x3C, 0x65, 0x73, 0x69, 0x3A, 0x61, 0x20]
    let value : Value := ⟨[0x61], [0x20], 0x27,
      [0x3D, 0x20, 0x5C, 0x20, 0x5C, 0x5C, 0x5C, 0x27, 0x20, 0x3E]⟩
    let chunks : List Bytes := [[0x61, 0x3D, 0x20, 0x27, 0x3D, 0x20, 0x5C],
      [0x20, 0x5C, 0x5C, 0x5C], [0x27, 0x20, 0x3E, 0x27]]
    value.stored = ⟨"a", " \\'"⟩ ∧ value.KeepsUnits ∧
      ∃ session, [opening].foldlM call? ({} : Session) = some session ∧
        ∃ after events, session.scanner.run? (chunks.map .feed) = some (after, events) ∧
          coalesce events = [] ∧
          after.attributes = session.scanner.attributes ++ [value.stored] := by
  intro opening value chunks
  have hvalid : value.Valid := by
    refine ⟨⟨by decide, List.forall_mem_nil _⟩, List.forall_mem_singleton.mpr (by decide),
      by decide, ?_⟩
    simp [value, units, EscapeUnit.FitsIn, Ascii.backslash]
  obtain ⟨session, hcalls, -, hstored, hkept⟩ := stores_kept_units [opening]
  have hstate : session.scanner.state = .betweenAttributes := by
    have hread : ([opening].foldlM call? ({} : Session)).map (fun session =>
        session.scanner.state) = some .betweenAttributes := by decide +kernel
    rw [hcalls] at hread
    exact Option.some.inj hread
  obtain ⟨after, events, hrun, hevents, -, hattributes⟩ := hstored hstate value hvalid chunks rfl
  exact ⟨by decide +kernel, hkept value hvalid, session, hcalls, after, events, hrun, hevents,
    hattributes⟩

end Session
end Scan
end EdgeIncludes
