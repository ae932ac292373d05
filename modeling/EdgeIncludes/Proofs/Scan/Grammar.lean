/-
The automaton takes what the grammar writes.

Outside every tag, a draft reads any tag of the grammar to its end and hands it out, parts
and all (`run_written`).  The other way round, every valid draft can be completed to a tag
of the grammar (`isOpening_bytes`), so the automaton never waits for a tag that cannot come.
-/
import EdgeIncludes.Proofs.Scan.Draft

namespace EdgeIncludes
namespace Scan

open Ascii Markup

namespace Draft

/-! ## One byte of a tag -/

theorem run_singleton (draft : Draft) (b : UInt8) : draft.run [b] = draft.step b := by
  rw [run_cons, run_nil, List.append_nil]

/-- Bytes that hand out nothing can be read ahead of the rest. -/
theorem run_append_of_eq {draft next : Draft} {front : Bytes} (h : draft.run front = (next, []))
    (rest : Bytes) : draft.run (front ++ rest) = next.run rest := by
  rw [run_append, h, List.nil_append]

theorem run_cons_of_leads (draft : Draft) {b : UInt8} {next : State}
    (h : Leads draft.state b next) (rest : Bytes) :
    draft.run (b :: rest) = (draft.stage b next).run rest := by
  rw [run_cons, step_of_leads draft h, List.nil_append]

/- Names, keys, gaps, values and the pieces of a tag are all sequences of things that are
read alike, and the draft keeps the ones read so far. -/
theorem run_flatMap {α : Type} (written : α → Bytes) {Fits : α → Prop} (draft : List α → Draft)
    (hread : ∀ seen item, Fits item →
      (draft seen).run (written item) = (draft (seen ++ [item]), []))
    (seen items : List α) (hitems : ∀ item ∈ items, Fits item) :
    (draft seen).run (items.flatMap written) = (draft (seen ++ items), []) := by
  induction items generalizing seen with
  | nil => rw [List.append_nil]; rfl
  | cons item items ih =>
    obtain ⟨hitem, hrest⟩ := List.forall_mem_cons.mp hitems
    rw [List.flatMap_cons, run_append_of_eq (hread seen item hitem), ih _ hrest, List.append_assoc]
    rfl

theorem run_bytes_alike {Fits : UInt8 → Prop} (draft : Bytes → Draft)
    (hstate : ∀ seen, (draft seen).state = (draft []).state)
    (hstage : ∀ seen b, (draft seen).stage b (draft []).state = draft (seen ++ [b]))
    (hleads : ∀ b, Fits b → Leads (draft []).state b (draft []).state) (seen bytes : Bytes)
    (hbytes : ∀ b ∈ bytes, Fits b) : (draft seen).run bytes = (draft (seen ++ bytes), []) := by
  have hread : ∀ seen b, Fits b → (draft seen).run [b] = (draft (seen ++ [b]), []) := by
    intro seen b hb
    have hnext := hleads b hb
    rw [← hstage seen b, ← step_of_leads (draft seen) (by rw [hstate]; exact hnext), run_singleton]
  have hall := run_flatMap (fun b => [b]) draft hread seen bytes hbytes
  rw [List.flatMap_singleton'] at hall
  exact hall

/-! ## The parts of a tag -/

theorem run_opener (closing : Bool) : text.run (opener closing) = (inNamespace closing 4, []) := by
  cases closing <;> rfl

theorem run_letters (closing : Bool) {letters : Bytes} (h : IsName letters) :
    (inNamespace closing 4).run letters = (inName closing letters, []) := by
  cases letters with
  | nil => exact absurd rfl h.1
  | cons b rest =>
    obtain ⟨hb, hrest⟩ := List.forall_mem_cons.mp h.2
    rw [run_cons_of_leads (inNamespace closing 4) (.nameStart rfl hb)]
    exact run_bytes_alike (inName closing) (fun _ => rfl) (fun _ _ => rfl)
      (fun _ => .nameByte) [b] rest hrest

theorem run_afterName (letters seen : Bytes) {gap : Bytes} (h : IsGap gap) :
    (afterName letters seen).run gap = (afterName letters (seen ++ gap), []) :=
  run_bytes_alike (afterName letters) (fun _ => rfl) (fun _ _ => rfl) (fun _ => .afterSpace) seen
    gap h

theorem run_key (letters : Bytes) (pieces : List Piece) {key : Bytes} (h : IsKey key) :
    (inTag letters pieces .betweenAttributes).run key =
      (inTag letters pieces (.inKey key), []) := by
  cases key with
  | nil => exact absurd h id
  | cons b rest =>
    rw [run_cons_of_leads (inTag letters pieces .betweenAttributes) (.keyStart h.1)]
    exact run_bytes_alike (fun seen => inTag letters pieces (.inKey seen))
      (fun _ => rfl) (fun _ _ => rfl) (fun _ => .keyByte) [b] rest h.2

theorem run_gap (letters : Bytes) (pieces : List Piece) (key : Bytes) {gap : Bytes}
    (h : IsGap gap) :
    (inTag letters pieces (.beforeValue key [])).run gap =
      (inTag letters pieces (.beforeValue key gap), []) :=
  run_bytes_alike (fun seen => inTag letters pieces (.beforeValue key seen))
    (fun _ => rfl) (fun _ _ => rfl) (fun _ => .valueSpace) [] gap h

theorem run_content (letters : Bytes) (pieces : List Piece) (key gap : Bytes) {quote : UInt8}
    {content : List EscapeUnit} (h : ∀ unit ∈ content, unit.FitsIn quote) :
    (inTag letters pieces (.inValue key gap quote [])).run (contentBytes content) =
      (inTag letters pieces (.inValue key gap quote content), []) := by
  refine run_flatMap EscapeUnit.written
    (fun seen => inTag letters pieces (.inValue key gap quote seen))
    (fun seen unit hunit => ?_) [] content h
  cases unit with
  | plain b =>
    obtain ⟨hb, hq⟩ := hunit
    rw [EscapeUnit.written, run_singleton]
    exact step_of_leads (inTag letters pieces (.inValue key gap quote seen))
      (.valueByte hb hq)
  | escaped b =>
    rw [EscapeUnit.written,
      run_cons_of_leads (inTag letters pieces (.inValue key gap quote seen)) .backslash,
      run_singleton]
    exact step_of_leads (inTag letters pieces (.escaped key gap quote seen)) .escapedByte

theorem run_piece (letters : Bytes) (pieces : List Piece) {piece : Piece} (h : piece.Valid) :
    (inTag letters pieces .betweenAttributes).run piece.written =
      (inTag letters (pieces ++ [piece]) .betweenAttributes, []) := by
  cases piece with
  | space b =>
    rw [Piece.written, run_singleton]
    exact step_of_leads (inTag letters pieces .betweenAttributes) (.tagSpace h)
  | pair key gap quote content =>
    obtain ⟨hkey, hgap, hquote, hcontent⟩ := h
    have hne : quote ≠ backslash := by
      rintro rfl
      exact absurd hquote (by decide)
    rw [Piece.written, run_append_of_eq (run_key letters pieces hkey),
      run_cons_of_leads (inTag letters pieces (.inKey key)) .keyEnd]
    show (inTag letters pieces (.beforeValue key [])).run _ = _
    rw [run_append_of_eq (run_gap letters pieces key hgap),
      run_cons_of_leads (inTag letters pieces (.beforeValue key gap)) (.valueStart hquote)]
    show (inTag letters pieces (.inValue key gap quote [])).run _ = _
    rw [run_append_of_eq (run_content letters pieces key gap hcontent), run_singleton]
    exact step_of_leads (inTag letters pieces (.inValue key gap quote content))
      (.valueEnd hne)

/-- A draft reads every tag of the grammar to its end and hands it out. -/
theorem run_written {lexeme : Lexeme} (h : lexeme.Valid) :
    text.run lexeme.written = (text, [.tag lexeme]) := by
  cases lexeme with
  | stop letters gap =>
    obtain ⟨hname, hgap⟩ := h
    rw [Lexeme.written, List.append_assoc, List.append_assoc, run_append_of_eq (run_opener true),
      run_append_of_eq (run_letters true hname)]
    cases gap with
    | nil => exact step_of_completes (inName true letters) .stopName
    | cons b gap =>
      obtain ⟨hb, hrest⟩ := List.forall_mem_cons.mp hgap
      rw [List.cons_append, run_cons_of_leads (inName true letters) (.stopSpace hb)]
      show (afterName letters [b]).run _ = _
      rw [run_append_of_eq (run_afterName letters [b] hrest), run_singleton]
      exact step_of_completes (afterName letters (b :: gap)) .afterName
  | start letters pieces selfClosing =>
    obtain ⟨hname, hfirst, hpieces⟩ := h
    rw [Lexeme.written, List.append_assoc, List.append_assoc, run_append_of_eq (run_opener false),
      run_append_of_eq (run_letters false hname)]
    cases pieces with
    | nil =>
      cases selfClosing with
      | false => exact step_of_completes (inName false letters) .startName
      | true =>
        show (inName false letters).run [slash, greaterThan] = _
        rw [run_cons_of_leads (inName false letters) .nameSlash, run_singleton]
        exact step_of_completes (inTag letters [] .selfClosing) .selfClosing
    | cons piece pieces =>
      obtain ⟨hpiece, hrest⟩ := List.forall_mem_cons.mp hpieces
      cases piece with
      | pair key gap quote content => exact absurd (hfirst _ rfl) id
      | space b =>
        have hread : (inTag letters [.space b] .betweenAttributes).run (piecesBytes pieces) =
            (inTag letters (.space b :: pieces) .betweenAttributes, []) :=
          run_flatMap Piece.written (fun seen => inTag letters seen .betweenAttributes)
            (fun seen piece hpiece => run_piece letters seen hpiece) [.space b] pieces hrest
        show (inName false letters).run (b :: (piecesBytes pieces ++ _)) = _
        rw [run_cons_of_leads (inName false letters) (.startSpace hpiece)]
        show (inTag letters [.space b] .betweenAttributes).run _ = _
        rw [run_append_of_eq hread]
        cases selfClosing with
        | false =>
          exact step_of_completes (inTag letters (.space b :: pieces) .betweenAttributes)
            .tag
        | true =>
          show (inTag letters (.space b :: pieces) .betweenAttributes).run [slash, greaterThan] = _
          rw [run_cons_of_leads (inTag letters (.space b :: pieces) .betweenAttributes) .tagSlash,
            run_singleton]
          exact step_of_completes (inTag letters (.space b :: pieces) .selfClosing)
            .selfClosing

theorem run_text {bytes : Bytes} (h : lessThan ∉ bytes) :
    text.run bytes = (text, bytes.map fun b => .text [b]) := by
  induction bytes with
  | nil => rfl
  | cons b rest ih =>
    obtain ⟨hb, hrest⟩ := not_or.mp (mt List.mem_cons.mpr h)
    rw [run_cons, step_text_of_ne (Ne.symm hb), ih hrest]
    rfl

/-! ## Completing a draft -/

theorem bytes_prefix_opener (closing : Bool) (matched : Nat) :
    (inNamespace closing matched).bytes <+: opener closing := by
  rw [bytes, opener, List.cons_prefix_cons]
  exact ⟨rfl, (List.prefix_append_right_inj _).mpr (List.take_prefix matched _)⟩

/- The shortest things that make a draft a tag: a letter for a name, a quote for a value. -/
theorem isName_singleton : IsName [0x61] :=
  ⟨List.cons_ne_nil _ _, List.forall_mem_singleton.mpr (by decide)⟩

theorem isOpening_opener (closing : Bool) : IsOpening (opener closing) := by
  cases closing with
  | false =>
    refine ⟨.start [0x61] [] false, ⟨isName_singleton, by simp, by simp⟩, ?_⟩
    rw [Lexeme.written, List.append_assoc, List.append_assoc]
    exact List.prefix_append _ _
  | true =>
    refine ⟨.stop [0x61] [], ⟨isName_singleton, by simp [IsGap]⟩, ?_⟩
    rw [Lexeme.written, List.append_assoc, List.append_assoc]
    exact List.prefix_append _ _

theorem isOpening_inTag {letters : Bytes} {pieces : List Piece} {tail : Tail}
    (h : (inTag letters pieces tail).Valid) : IsOpening (inTag letters pieces tail).bytes := by
  obtain ⟨hname, hpieces, htail, hne⟩ := h
  -- the tail is completed to an attribute, and then a `>` ends the tag
  have hpair : ∀ key gap quote content, (Piece.pair key gap quote content).Valid →
      tail ≠ .selfClosing → tail.written <+: (Piece.pair key gap quote content).written →
      IsOpening (inTag letters pieces tail).bytes := by
    intro key gap quote content hpiece htail hfront
    have hvalid := hpieces.snoc (fun he => absurd he (hne htail)) hpiece
    refine ⟨.start letters (pieces ++ [.pair key gap quote content]) false, ⟨hname, hvalid⟩, ?_⟩
    rw [bytes, Lexeme.written, piecesBytes_append, piecesBytes_singleton, ← List.append_assoc,
      List.append_assoc _ (Piece.pair key gap quote content).written]
    exact (List.prefix_append_right_inj _).mpr (hfront.trans (List.prefix_append _ _))
  cases tail with
  | betweenAttributes =>
    refine ⟨.start letters pieces false, ⟨hname, hpieces⟩, ?_⟩
    exact (List.prefix_append_right_inj _).mpr (List.nil_prefix)
  | selfClosing =>
    refine ⟨.start letters pieces true, ⟨hname, hpieces⟩, ?_⟩
    exact (List.prefix_append_right_inj _).mpr (List.prefix_append [slash] [greaterThan])
  | inKey key =>
    refine hpair key [] doubleQuote [] ⟨htail, by simp [IsGap], rfl, by simp⟩ (by simp) ?_
    exact List.prefix_append _ _
  | beforeValue key gap =>
    refine hpair key gap doubleQuote [] ⟨htail.1, htail.2, rfl, by simp⟩ (by simp) ?_
    simp [Tail.written, Piece.written]
  | inValue key gap quote content =>
    refine hpair key gap quote content htail (by simp) ?_
    simp [Tail.written, Piece.written]
  | escaped key gap quote content =>
    obtain ⟨hkey, hgap, hquote, hcontent⟩ := htail
    have hunit : (EscapeUnit.escaped 0x61).FitsIn quote := trivial
    have hunits := List.forall_mem_append.mpr ⟨hcontent, List.forall_mem_singleton.mpr hunit⟩
    refine hpair key gap quote (content ++ [.escaped 0x61]) ⟨hkey, hgap, hquote, hunits⟩
      (by simp) ?_
    simp [Tail.written, Piece.written]

/-- Every draft is the beginning of a tag. -/
theorem isOpening_bytes {draft : Draft} (h : draft.Valid) : IsOpening draft.bytes := by
  cases draft with
  | text => exact (isOpening_opener false).of_front List.nil_prefix
  | opened => exact (isOpening_opener false).of_front (List.prefix_append [lessThan] _)
  | inNamespace closing matched =>
    exact (isOpening_opener closing).of_front (bytes_prefix_opener closing matched)
  | inName closing letters =>
    cases closing with
    | false =>
      exact ⟨.start letters [] false, ⟨h, by simp, by simp⟩, by simp [bytes, Lexeme.written]⟩
    | true => exact ⟨.stop letters [], ⟨h, by simp [IsGap]⟩, by simp [bytes, Lexeme.written]⟩
  | afterName letters gap => exact ⟨.stop letters gap, h, List.prefix_append _ _⟩
  | inTag letters pieces tail => exact isOpening_inTag h

end Draft
end Scan
end EdgeIncludes
