/-
What the scanner notes of a byte.

A byte that ends a part of a tag is the moment to remember where the part is.  The part lies
between the mark and the byte, with delimiters in front of it, and so the offsets that are
noted are those that the draft with one more byte has (`exists_notes`), whatever stands
before and behind the draft in the buffer.
-/
import EdgeIncludes.Proofs.Scan.Places

namespace EdgeIncludes
namespace Scan

open Ascii Markup

namespace Scanner

/-! ## One byte -/

/-- What is remembered when the byte is read, before it is acted on. -/
def noted? (buffer : Bytes) (offset : Nat) (b : UInt8) (scanner : Scanner) : Option Scanner :=
  match scanner.state.delimits? b with
  | none => some scanner
  | some part => scanner.note? buffer offset part

theorem noted?_of_part {scanner : Scanner} {state : State} {b : UInt8} {part : Part}
    (hstate : scanner.state = state) (hpart : state.delimits? b = some part) (buffer : Bytes)
    (offset : Nat) : scanner.noted? buffer offset b = scanner.note? buffer offset part := by
  subst hstate
  rw [noted?, hpart]

def bracketBytes (closing : Bool) : Bytes :=
  if closing then [lessThan, slash] else [lessThan]

theorem append_opener (before : Bytes) (closing : Bool) (letters : Bytes) :
    before ++ (opener closing ++ letters) =
      before ++ bracketBytes closing ++ (namespaceBytes ++ letters) := by
  cases closing <;> simp [opener, bracketBytes]

theorem note?_nameEnd {scanner : Scanner} {before letters : Bytes} (closing : Bool)
    (hcursors : scanner.cursors = { mark := some before.length }) (hname : IsName letters)
    (rest : Bytes) :
    scanner.note? (before ++ (opener closing ++ letters) ++ rest)
        (before ++ (opener closing ++ letters)).length (.nameEnd closing) =
      some { scanner with cursors := {
        mark := some (Draft.nameStop (before ++ bracketBytes closing).length letters)
        name := some
          ⟨(before ++ bracketBytes closing).length, (namespaceBytes ++ letters).length⟩ } } := by
  have hstart : before.length + bracketLength closing =
      (before ++ bracketBytes closing).length := by
    cases closing <;> simp [bracketLength, bracketBytes]
  have htrim := Span.trim?_middle (List.forall_mem_nil _) hname.isBare
    (before ++ bracketBytes closing) rest
  rw [List.nil_append, List.append_nil] at htrim
  rw [append_opener, note?, hcursors]
  simp only [Option.bind_eq_bind, Option.bind_some, hstart, Span.between_length, htrim]
  rw [Draft.nameStop, ← List.length_append]

/-- Noting the byte finds what it looks for, and leaves the offsets of the draft that the
byte leads to. -/
structure Notes (scanner : Scanner) (draft next : Draft) (before rest : Bytes) (b : UInt8)
    (noted : Scanner) (front : Bytes) : Prop where
  run : scanner.noted? (before ++ draft.kept ++ b :: rest) (before ++ draft.kept).length b =
    some noted
  staging : noted.staging = scanner.staging
  cursors : noted.cursors = next.cursors front.length
  attributes : noted.attributes = next.attributes
  buffer : before ++ draft.kept ++ [b] = front ++ next.kept

theorem notes_of_inner {scanner : Scanner} {draft : Draft} {next : State} {before : Bytes}
    {b : UInt8} (held : scanner.Holds draft before.length) (h : Leads draft.state b next)
    (hnone : draft.state.delimits? b = none)
    (hbracket : (draft.stage b next).bracket = draft.bracket)
    (hcursors : (draft.stage b next).cursors before.length = draft.cursors before.length)
    (hattributes : (draft.stage b next).attributes = draft.attributes) (rest : Bytes) :
    Notes scanner draft (draft.stage b next) before rest b scanner before where
  run := by rw [noted?, held.state, hnone]
  staging := rfl
  cursors := held.cursors.trans hcursors.symm
  attributes := held.attributes.trans hattributes.symm
  buffer := by rw [Draft.kept_stage h hbracket, List.append_assoc]

/-- A byte that ends the name leaves the mark behind it and needs nothing before it. -/
theorem notes_of_nameEnd {scanner : Scanner} {closing : Bool} {letters before : Bytes}
    {next : State} {b : UInt8} (held : scanner.Holds (.inName closing letters) before.length)
    (hname : IsName letters) (h : Leads (.inName closing) b next)
    (hpart : (State.inName closing).delimits? b = some (.nameEnd closing))
    (hbracket : (Draft.stage b (.inName closing letters) next).bracket = bracketBytes closing)
    (hcursors : ∀ base, (Draft.stage b (.inName closing letters) next).cursors base =
      { mark := some (Draft.nameStop base letters)
        name := some ⟨base, (namespaceBytes ++ letters).length⟩ })
    (hattributes : (Draft.stage b (.inName closing letters) next).attributes = [])
    (rest : Bytes) :
    ∃ noted, Notes scanner (.inName closing letters) (Draft.stage b (.inName closing letters) next)
      before rest b noted (before ++ bracketBytes closing) := by
  refine ⟨{ scanner with cursors := {
    mark := some (Draft.nameStop (before ++ bracketBytes closing).length letters)
    name := some ⟨(before ++ bracketBytes closing).length, (namespaceBytes ++ letters).length⟩ } },
    ?_, rfl, (hcursors _).symm, held.attributes.trans hattributes.symm, ?_⟩
  · rw [noted?_of_part held.state hpart]
    exact note?_nameEnd closing held.cursors hname (b :: rest)
  · have hbytes : (Draft.stage b (.inName closing letters) next).bytes = _ :=
      @Draft.stage_bytes (.inName closing letters) _ _ h
    rw [List.append_assoc, ← hbracket, List.append_assoc, Draft.bracket_append_kept, hbytes]
    rfl

theorem note?_keyEnd {scanner : Scanner} {front delimiters key : Bytes}
    (hcursors : scanner.cursors.mark = some front.length)
    (hdelimiters : ∀ b ∈ delimiters, isLeftDelimiter b) (hkey : IsKey key) (rest : Bytes) :
    scanner.note? (front ++ (delimiters ++ key) ++ rest) (front ++ (delimiters ++ key)).length
        .keyEnd =
      some { scanner with cursors := { scanner.cursors with
        mark := some (front ++ (delimiters ++ key)).length
        key := some ⟨(front ++ delimiters).length, key.length⟩ } } := by
  rw [note?, hcursors]
  simp only [Option.bind_eq_bind, Option.bind_some, Span.between_length,
    Span.trim?_middle hdelimiters hkey.isBare]

/-- The quote that closes a value finds the key and everything from the `=` on. -/
theorem note?_valueEnd {scanner : Scanner} {front key gap : Bytes} {quote : UInt8}
    (hcursors : scanner.cursors.key = some ⟨front.length, key.length⟩ ∧
      scanner.cursors.value = some ⟨(front ++ key).length, 0⟩)
    (hkey : IsKey key) (hgap : IsGap gap) (hquote : isQuote quote) (content : List EscapeUnit)
    (rest : Bytes) :
    scanner.note? (front ++ key ++ (equals :: (gap ++ quote :: contentBytes content)) ++ rest)
        (front ++ key ++ (equals :: (gap ++ quote :: contentBytes content))).length .valueEnd =
      some { scanner with
        cursors := { scanner.cursors with
          key := none
          value := none
          mark := some (front ++ key ++ (equals :: (gap ++ quote :: contentBytes content))).length }
        attributes := scanner.attributes ++ (Piece.pair key gap quote content).attributes } := by
  have hname : Span.slice? ⟨front.length, key.length⟩
      (front ++ key ++ (equals :: (gap ++ quote :: contentBytes content)) ++ rest) = some key := by
    rw [List.append_assoc (front ++ key)]
    exact Span.slice?_middle front key _
  rw [note?, hcursors.1, hcursors.2]
  simp only [Option.bind_eq_bind, Option.bind_some, hname, Span.between_length, Span.slice?_middle,
    Attribute.ofBytes, valueBytes_content hgap hquote, lenient_key hkey.forall_isKeyByte,
    Piece.attributes]

theorem notes_of_keyEnd {scanner : Scanner} {letters key before : Bytes} {pieces : List Piece}
    (held : scanner.Holds (.inTag letters pieces (.inKey key)) before.length)
    (hpieces : PiecesValid pieces) (hkey : IsKey key) (rest : Bytes) :
    ∃ noted, Notes scanner (.inTag letters pieces (.inKey key))
      (.inTag letters pieces (.beforeValue key [])) before rest equals noted before := by
  have hsplit : before ++ (namespaceBytes ++ letters ++ (piecesBytes pieces ++ key)) =
      before ++ (namespaceBytes ++ letters) ++ (marked pieces).1 ++ ((marked pieces).2 ++ key) := by
    simp only [← marked_bytes pieces, List.append_assoc]
  have hmark : scanner.cursors.mark =
      some (before ++ (namespaceBytes ++ letters) ++ (marked pieces).1).length := by
    rw [held.cursors]
    simp only [Draft.cursors, Draft.nameStop, List.length_append]
  have hnote := note?_keyEnd hmark (marked_delimiters hpieces) hkey (equals :: rest)
  rw [← hsplit] at hnote
  have hreach : (before ++ (namespaceBytes ++ letters) ++ (marked pieces).1 ++
      (marked pieces).2).length =
      Draft.nameStop before.length letters + (piecesBytes pieces).length := by
    rw [Draft.nameStop, List.append_assoc, marked_bytes]
    simp only [List.length_append]
  have hmoved : (before ++ (namespaceBytes ++ letters ++ (piecesBytes pieces ++ key))).length =
      Draft.nameStop before.length letters + (piecesBytes pieces).length + key.length := by
    simp only [Draft.nameStop, List.length_append, Nat.add_assoc]
  refine ⟨_, (noted?_of_part held.state rfl _ _).trans hnote, rfl, ?_, held.attributes, ?_⟩
  · simp only [held.cursors, hreach, hmoved, Draft.cursors]
  · simp [Draft.kept, Tail.written]

theorem notes_of_valueStart {scanner : Scanner} {letters key gap before : Bytes}
    {pieces : List Piece} {b : UInt8}
    (held : scanner.Holds (.inTag letters pieces (.beforeValue key gap)) before.length)
    (hb : isQuote b) (rest : Bytes) :
    ∃ noted, Notes scanner (.inTag letters pieces (.beforeValue key gap))
      (.inTag letters pieces (.inValue key gap b [])) before rest b noted before := by
  have hpart : State.beforeValue.delimits? b = some .valueStart := if_pos hb
  refine ⟨{ scanner with
    cursors := Draft.cursors before.length (.inTag letters pieces (.inValue key gap b [])) },
    (noted?_of_part held.state hpart _ _).trans ?_, rfl, rfl, held.attributes, ?_⟩
  · rw [note?, held.cursors]
    rfl
  · simp [Draft.kept, Tail.written]

theorem notes_of_valueEnd {scanner : Scanner} {letters key gap before : Bytes}
    {pieces : List Piece} {quote : UInt8} {content : List EscapeUnit}
    (held : scanner.Holds (.inTag letters pieces (.inValue key gap quote content)) before.length)
    (hkey : IsKey key) (hgap : IsGap gap) (hquote : isQuote quote) (rest : Bytes) :
    ∃ noted, Notes scanner (.inTag letters pieces (.inValue key gap quote content))
      (.inTag letters (pieces ++ [.pair key gap quote content]) .betweenAttributes) before rest
      quote noted before := by
  have hsplit : before ++ (namespaceBytes ++ letters ++ (piecesBytes pieces ++
        (key ++ equals :: (gap ++ quote :: contentBytes content)))) =
      before ++ (namespaceBytes ++ letters) ++ piecesBytes pieces ++ key ++
        equals :: (gap ++ quote :: contentBytes content) := by
    simp only [List.append_assoc]
  have hcursors : scanner.cursors.key =
        some ⟨(before ++ (namespaceBytes ++ letters) ++ piecesBytes pieces).length, key.length⟩ ∧
      scanner.cursors.value =
        some ⟨(before ++ (namespaceBytes ++ letters) ++ piecesBytes pieces ++ key).length, 0⟩ := by
    rw [held.cursors]
    simp only [Draft.cursors, Draft.nameStop, List.length_append, and_self]
  have hnote := note?_valueEnd hcursors hkey hgap hquote content (quote :: rest)
  rw [← hsplit] at hnote
  refine ⟨_, (noted?_of_part held.state (if_pos rfl) _ _).trans hnote, rfl, ?_, ?_, ?_⟩
  · have hlength : (marked pieces).1.length + (marked pieces).2.length =
        (piecesBytes pieces).length := by
      rw [← List.length_append, marked_bytes]
    simp only [held.cursors, Draft.cursors, Draft.nameStop, marked_snoc_pair, List.length_append]
    congr 2
    omega
  · simp only [held.attributes, Draft.attributes, piecesAttributes_append,
      piecesAttributes_singleton]
  · simp [Draft.kept, Tail.written, Piece.written]

theorem exists_notes {scanner : Scanner} {draft : Draft} {before : Bytes} {b : UInt8}
    {next : State} (held : scanner.Holds draft before.length) (hv : draft.Valid)
    (h : Leads draft.state b next) (rest : Bytes) :
    ∃ noted front, Notes scanner draft (draft.stage b next) before rest b noted front := by
  cases draft with
  | text => cases h
  | opened =>
    refine ⟨scanner, before, notes_of_inner held h rfl ?_ ?_ ?_ rest⟩ <;> cases h <;> rfl
  | inNamespace closing matched =>
    refine ⟨scanner, before, notes_of_inner held h rfl ?_ ?_ ?_ rest⟩ <;> cases h <;> rfl
  | inName closing letters =>
    cases id h with
    | nameByte hb =>
      have hnone : (State.inName closing).delimits? b = none := by
        grind [State.delimits?, isLower, isSpace]
      exact ⟨scanner, before, notes_of_inner held h hnone rfl rfl rfl rest⟩
    | nameSlash =>
      obtain ⟨noted, hnoted⟩ := notes_of_nameEnd held hv h rfl rfl (fun _ => rfl) rfl rest
      exact ⟨noted, _, hnoted⟩
    | startSpace hb =>
      have hpart : (State.inName false).delimits? b = some (.nameEnd false) := by
        simp only [State.delimits?, hb, Bool.or_true, Bool.true_or, if_true]
      obtain ⟨noted, hnoted⟩ := notes_of_nameEnd held hv h hpart rfl (fun _ => rfl) rfl rest
      exact ⟨noted, _, hnoted⟩
    | stopSpace hb =>
      have hpart : (State.inName true).delimits? b = some (.nameEnd true) := by
        simp only [State.delimits?, hb, Bool.or_true, Bool.true_or, if_true]
      obtain ⟨noted, hnoted⟩ := notes_of_nameEnd held hv h hpart rfl (fun _ => rfl) rfl rest
      exact ⟨noted, _, hnoted⟩
  | afterName letters gap =>
    cases id h with
    | afterSpace hb => exact ⟨scanner, before, notes_of_inner held h rfl rfl rfl rfl rest⟩
  | inTag letters pieces tail =>
    cases tail with
    | betweenAttributes =>
      cases id h with
      | tagSlash => exact ⟨scanner, before, notes_of_inner held h rfl rfl rfl rfl rest⟩
      | tagSpace hb =>
        refine ⟨scanner, before, notes_of_inner held h rfl rfl ?_ ?_ rest⟩
        · simp only [Draft.stage, Draft.cursors, marked_snoc_space]
        · simp only [Draft.stage, Draft.attributes, piecesAttributes_append,
            piecesAttributes_singleton, Piece.attributes, List.append_nil]
      | keyStart hb => exact ⟨scanner, before, notes_of_inner held h rfl rfl rfl rfl rest⟩
    | inKey key =>
      cases id h with
      | keyByte hb =>
        have hne : b ≠ equals := by
          rintro rfl
          exact absurd hb (by decide)
        have hnone : State.inKey.delimits? b = none := if_neg hne
        exact ⟨scanner, before, notes_of_inner held h hnone rfl rfl rfl rest⟩
      | keyEnd =>
        obtain ⟨noted, hnoted⟩ := notes_of_keyEnd held hv.2.1 hv.2.2.1 rest
        exact ⟨noted, before, hnoted⟩
    | beforeValue key gap =>
      cases id h with
      | valueSpace hb =>
        have hnone : State.beforeValue.delimits? b = none := by
          grind [State.delimits?, isQuote, isSpace]
        exact ⟨scanner, before, notes_of_inner held h hnone rfl rfl rfl rest⟩
      | valueStart hb =>
        obtain ⟨noted, hnoted⟩ := notes_of_valueStart held hb rest
        exact ⟨noted, before, hnoted⟩
    | inValue key gap quote content =>
      have hquote := hv.2.2.1.2.2.1
      cases id h with
      | backslash =>
        have hne : backslash ≠ quote := by
          rintro rfl
          exact absurd hquote (by decide)
        have hnone : (State.inValue quote).delimits? backslash = none := if_neg hne
        exact ⟨scanner, before, notes_of_inner held h hnone rfl rfl rfl rest⟩
      | valueEnd hne =>
        obtain ⟨hkey, hgap, -, -⟩ := hv.2.2.1
        obtain ⟨noted, hnoted⟩ := notes_of_valueEnd held hkey hgap hquote rest
        exact ⟨noted, before, hnoted⟩
      | valueByte hb hq =>
        exact ⟨scanner, before, notes_of_inner held h (if_neg hq) rfl rfl rfl rest⟩
    | escaped key gap quote content =>
      cases id h with
      | escapedByte => exact ⟨scanner, before, notes_of_inner held h rfl rfl rfl rfl rest⟩
    | selfClosing => cases h

/-- A byte that completes the tag has the name where it was found, or finds it itself. -/
theorem exists_noted_of_completes {scanner : Scanner} {draft : Draft} {before : Bytes} {b : UInt8}
    {shape : Shape} (held : scanner.Holds draft before.length) (hv : draft.Valid)
    (h : Completes draft.state b shape) (rest : Bytes) :
    ∃ noted span,
      scanner.noted? (before ++ draft.kept ++ b :: rest) (before ++ draft.kept).length b =
        some noted ∧
      noted.cursors.name = some span ∧
      span.slice? (before ++ draft.kept ++ b :: rest) = some (namespaceBytes ++ draft.letters) ∧
      noted.attributes = draft.attributes := by
  cases draft with
  | inName closing letters =>
    have hpart : (State.inName closing).delimits? b = some (.nameEnd closing) := by
      cases h <;> rfl
    refine ⟨_, _, (noted?_of_part held.state hpart _ _).trans
      (note?_nameEnd closing held.cursors hv (b :: rest)), rfl, ?_, held.attributes⟩
    show Span.slice? _ (before ++ (opener closing ++ letters) ++ b :: rest) = _
    rw [append_opener]
    exact Span.slice?_middle _ _ _
  | afterName letters gap =>
    have hnone : State.afterName.delimits? b = none := rfl
    refine ⟨scanner, ⟨before.length, (namespaceBytes ++ letters).length⟩, ?_, ?_, ?_,
      held.attributes⟩
    · rw [noted?, held.state]; rfl
    · rw [held.cursors]; rfl
    · show Span.slice? _ (before ++ (namespaceBytes ++ letters ++ gap) ++ b :: rest) = _
      rw [← List.append_assoc before, List.append_assoc _ gap]
      exact Span.slice?_middle _ _ _
  | inTag letters pieces tail =>
    refine ⟨scanner, ⟨before.length, (namespaceBytes ++ letters).length⟩, ?_, ?_, ?_,
      held.attributes⟩
    · rw [noted?, held.state]
      cases tail <;> cases h <;> rfl
    · rw [held.cursors]; rfl
    · show Span.slice? _ (before ++
        (namespaceBytes ++ letters ++ (piecesBytes pieces ++ tail.written)) ++ b :: rest) = _
      rw [← List.append_assoc before, List.append_assoc _ (piecesBytes pieces ++ tail.written)]
      exact Span.slice?_middle _ _ _
  | _ => cases h

end Scanner
end Scan
end EdgeIncludes
