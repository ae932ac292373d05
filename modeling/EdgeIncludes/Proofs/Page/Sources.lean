/-
Includes without a source.

Whether an include has a source is asked twice.  Where its tag opens it is asked of the value,
and an include with an empty value is refused there and then.  Where the fragment is fetched it is
asked of the URL without the blanks around it, and no branch can be chosen any more.

In between lies what is trimmed from a value when it is read, and that is not all that is blank.
An escaped byte is not trimmed, whatever it is, and neither is a vertical tab or a blank that is
no ASCII character.  The two questions have the same answer as long as what is left of a value
begins with none of these (`source_of_registered`).
-/
import EdgeIncludes.Proofs.Include.Target
import EdgeIncludes.Proofs.Markup.Parts
import EdgeIncludes.Proofs.Markup.Units
import EdgeIncludes.Proofs.Page.Exceptions
import EdgeIncludes.Proofs.Page.Meaning
import EdgeIncludes.Proofs.Page.Slots
import EdgeIncludes.Proofs.Scan.Tokenisation

namespace EdgeIncludes

open Markup (Attribute EscapeUnit Event Piece Token Tokenised piecesAttributes tokensEvents
  trimUnits)

/-! ## Blanks that are not trimmed -/

namespace Markup

/-- The unit is left standing at the front of a value, although a blank may begin with its
byte. -/
def EscapeUnit.hidesBlank (unit : EscapeUnit) : Bool :=
  !unit.isLeftDelimiter && (0x80 ≤ unit.byte.toNat || Text.isBlank (character unit.byte))

/-- What is left of a value begins with a unit that hides a blank, if nothing but blanks is
left. -/
theorem hidesBlank_of_blank {content : List EscapeUnit} {unit : EscapeUnit}
    (hunit : (trimUnits content).head? = some unit)
    (hblank : ∀ c ∈ (Utf8.lenient ((trimUnits content).map EscapeUnit.byte)).toList,
      Text.isBlank c) : unit.hidesBlank := by
  rw [EscapeUnit.hidesBlank, isLeftDelimiter_head?_trimUnits hunit, Bool.not_false,
    Bool.true_and, Bool.or_eq_true, decide_eq_true_eq]
  by_cases hbyte : 0x80 ≤ unit.byte.toNat
  · exact Or.inl hbyte
  · right
    -- an ASCII byte is a character by itself, whatever comes after it
    obtain ⟨rest, hrest⟩ := List.head?_eq_some_iff.mp hunit
    apply hblank
    rw [hrest, List.map_cons, Utf8.lenient, pieces_cons_of_lt (by omega), String.toList_ofList,
      List.map_cons]
    exact List.mem_cons_self

/-! ## Values by their keys -/

/-- The content of the piece's value, if the piece is an attribute of the name. -/
def Piece.contentOf? (name : String) : Piece → Option (List EscapeUnit)
  | space _ => none
  | pair key _ _ content => if String.ofList (key.map character) = name then some content else none

/-- The content of the value that counts for the name, which is the first one. -/
def contentOf? (name : String) (pieces : List Piece) : Option (List EscapeUnit) :=
  pieces.findSome? (Piece.contentOf? name)

theorem valueOf?_piecesAttributes {name : String} {pieces : List Piece}
    (h : ∀ piece ∈ pieces, piece.Valid) :
    Attribute.valueOf? name (piecesAttributes pieces) = (contentOf? name pieces).map fun content =>
      Utf8.lenient ((trimUnits content).map EscapeUnit.byte) := by
  induction pieces with
  | nil => rfl
  | cons piece rest ih =>
    obtain ⟨hpiece, hrest⟩ := List.forall_mem_cons.mp h
    cases piece with
    | space b => exact ih hrest
    | pair key gap quote content =>
      have hvalue := valueBytes_contentBytes (isWhole_of_fitsIn hpiece.2.2.2)
      show Attribute.valueOf? name (⟨String.ofList (key.map character),
        Utf8.lenient (valueBytes (contentBytes content))⟩ :: piecesAttributes rest) = _
      by_cases hname : String.ofList (key.map character) = name
      · rw [contentOf?, List.findSome?_cons, Piece.contentOf?, if_pos hname, Attribute.valueOf?,
          List.find?_cons_of_pos (by simpa using hname), hvalue]
        rfl
      · rw [contentOf?, List.findSome?_cons, Piece.contentOf?, if_neg hname, Attribute.valueOf?,
          List.find?_cons_of_neg (by simpa using hname)]
        exact ih hrest

end Markup

namespace Include

/-- What is left of the value that the pieces give the name, if something is. -/
def givenUnits? (name : String) (pieces : List Piece) : Option (List EscapeUnit) :=
  ((Markup.contentOf? name pieces).map trimUnits).filter fun units => !units.isEmpty

theorem givenValue?_piecesAttributes {name : String} {pieces : List Piece}
    (h : ∀ piece ∈ pieces, piece.Valid) :
    givenValue? name (piecesAttributes pieces) = (givenUnits? name pieces).map fun units =>
      Utf8.lenient (units.map EscapeUnit.byte) := by
  have hempty : ∀ units : List EscapeUnit,
      (Utf8.lenient (units.map EscapeUnit.byte)).isEmpty = units.isEmpty := by
    intro units
    rw [Bool.eq_iff_iff, String.isEmpty_iff, Markup.lenient_eq_empty_iff, List.map_eq_nil_iff,
      List.isEmpty_iff]
  rw [givenValue?, Markup.valueOf?_piecesAttributes h, givenUnits?]
  cases Markup.contentOf? name pieces with
  | none => rfl
  | some content =>
    rw [Option.map_some, Option.map_some, Option.filter_some, Option.filter_some, hempty]
    split <;> rfl

/-- What is left of a value is left of some content, and it is not nothing. -/
theorem exists_content_of_givenUnits? {name : String} {pieces : List Piece}
    {units : List EscapeUnit} (h : givenUnits? name pieces = some units) :
    units ≠ [] ∧ ∃ content, trimUnits content = units := by
  rw [givenUnits?, Option.filter_eq_some_iff, Option.map_eq_some_iff] at h
  obtain ⟨⟨content, -, hleft⟩, hne⟩ := h
  exact ⟨by simpa using hne, content, hleft⟩

/-- The source of a request is spelled by what is left of the value. -/
theorem exists_givenUnits? {pieces : List Piece} {request : Request}
    (h : ∀ piece ∈ pieces, piece.Valid)
    (hrequest : Request.ofAttributes (piecesAttributes pieces) = .ok request) :
    ∃ units, givenUnits? "src" pieces = some units ∧
      request.src = Utf8.lenient (units.map EscapeUnit.byte) := by
  rw [Request.ofAttributes, givenValue?_piecesAttributes h] at hrequest
  cases hunits : givenUnits? "src" pieces with
  | none =>
    rw [hunits] at hrequest
    cases hrequest
  | some units =>
    rw [hunits] at hrequest
    cases hrequest
    exact ⟨units, rfl, rfl⟩

end Include

/-! ## Registered requests -/

namespace Page

open Include (givenUnits?)
open Scan (Draft Scanner)

namespace Builder

variable {builder : Builder} {request : Include.Request}

theorem exists_startTag_of_asked? {event : Event} (h : builder.asked? event = some request) :
    ∃ name attributes, event = .startTag name attributes ∧ Tag.ofName? name = some .inclusion ∧
      Include.Request.ofAttributes attributes = .ok request := by
  match event with
  | .output bytes => cases h
  | .endTag name => cases h
  | .startTag name attributes =>
    rw [asked?] at h
    split at h
    · rename_i hheeded
      refine ⟨name, attributes, rfl, hheeded.1, ?_⟩
      cases hread : Include.Request.ofAttributes attributes with
      | ok other =>
        rw [hread] at h
        exact congrArg Except.ok (Option.some.inj h)
      | error refusal =>
        rw [hread] at h
        cases h
    · cases h

/-- What is heard registers no request that none of the tags asks for. -/
theorem mem_requests_hear {events : List Event} (h : request ∈ (builder.hear events).1.requests) :
    request ∈ builder.requests ∨ ∃ name attributes, .startTag name attributes ∈ events ∧
      Tag.ofName? name = some .inclusion ∧
      Include.Request.ofAttributes attributes = .ok request := by
  induction events generalizing builder with
  | nil => exact Or.inl h
  | cons event rest ih =>
    rw [hear_cons] at h
    rcases ih h with hhere | ⟨name, attributes, hmem, hasked⟩
    · rw [requests_receive, List.mem_append, Option.mem_toList] at hhere
      refine hhere.imp_right ?_
      intro hnew
      obtain ⟨name, attributes, rfl, hname, hrequest⟩ := exists_startTag_of_asked? hnew
      exact ⟨name, attributes, List.mem_cons_self, hname, hrequest⟩
    · exact Or.inr ⟨name, attributes, List.mem_cons_of_mem _ hmem, hasked⟩

end Builder

/-- The body has an include with the pieces. -/
def HasInclusion (body : Bytes) (pieces : List Piece) : Prop :=
  ∃ tokens selfClosing, Tokenised body tokens ∧
    .tag (.start Tag.inclusion.letters pieces selfClosing) ∈ tokens

theorem HasInclusion.valid {body : Bytes} {pieces : List Piece} (h : HasInclusion body pieces) :
    ∀ piece ∈ pieces, piece.Valid := by
  obtain ⟨tokens, selfClosing, htokens, hmem⟩ := h
  exact (htokens.valid _ hmem).2.2

/-- A start tag that is heard of is a tag of the body. -/
theorem exists_tag_of_startTag {tokens : List Token} {name : Bytes} {attributes : List Attribute}
    (h : .startTag name attributes ∈ tokensEvents tokens) :
    ∃ letters pieces selfClosing, .tag (.start letters pieces selfClosing) ∈ tokens ∧
      name = Ascii.namespaceBytes ++ letters ∧ attributes = piecesAttributes pieces := by
  obtain ⟨token, htoken, hevent⟩ := List.mem_flatMap.mp h
  match token with
  | .text bytes => cases List.mem_singleton.mp hevent
  | .tag (.stop letters gap) => cases List.mem_singleton.mp hevent
  | .tag (.start letters pieces selfClosing) =>
    rcases List.mem_cons.mp hevent with heq | hend
    · cases heq
      exact ⟨letters, pieces, selfClosing, htoken, rfl, rfl⟩
    · cases selfClosing with
      | false => exact absurd hend List.not_mem_nil
      | true => cases List.mem_singleton.mp hend

/-- A request that a body makes was asked for by one of its includes. -/
theorem exists_hasInclusion {silentErrors logTags : Bool} {chunks : List Bytes}
    {request : Include.Request}
    (h : request ∈ ((Builder.fresh silentErrors logTags).hear
      (Scanner.events chunks)).1.document.requests) :
    ∃ pieces, HasInclusion chunks.flatten pieces ∧
      Include.Request.ofAttributes (piecesAttributes pieces) = .ok request := by
  rw [Builder.requests_document, Scanner.events_eq, Builder.hear_coalesce] at h
  rcases Builder.mem_requests_hear h with hnone | ⟨name, attributes, hmem, hname, hrequest⟩
  · exact absurd hnone List.not_mem_nil
  · obtain ⟨letters, pieces, selfClosing, htag, rfl, rfl⟩ := exists_tag_of_startTag hmem
    have hletters : letters = Tag.inclusion.letters :=
      List.append_cancel_left (Tag.eq_name_of_ofName? hname)
    rw [hletters] at htag
    exact ⟨pieces, ⟨_, selfClosing, Draft.tokenised_iff.mpr rfl, htag⟩, hrequest⟩

/-! ## The two refusals -/

/-- A body in any number of chunks.  Of the source of every request that it makes there is
something left after trimming, and so it is not empty.  Where the fragment is fetched, it counts as
no source just if it is nothing but blanks, and that it can be only if what is left begins with a
blank that is not trimmed.  An include of the body with nothing left of its source is refused where
it opens, unless it is ignored, and that raises an exception unless errors are silent. -/
theorem source_of_registered (silentErrors logTags : Bool) (chunks : List Bytes) :
    (∀ request ∈ ((Builder.fresh silentErrors logTags).hear
        (Scanner.events chunks)).1.document.requests,
      ∃ pieces unit rest, HasInclusion chunks.flatten pieces ∧
        givenUnits? "src" pieces = some (unit :: rest) ∧
        request.src = Utf8.lenient ((unit :: rest).map EscapeUnit.byte) ∧
        ∀ authority page,
          (request.target authority page = .error .missingSource ↔
            ∀ c ∈ request.src.toList, Text.isBlank c) ∧
          (request.target authority page = .error .missingSource → unit.hidesBlank)) ∧
    ∀ pieces, HasInclusion chunks.flatten pieces → givenUnits? "src" pieces = none →
      ∀ builder : Builder, builder.ignoring = false →
        let call := .event (.startTag Tag.inclusion.name (piecesAttributes pieces))
        (builder.after call).requests = builder.requests ∧
          builder.raises call = !builder.silentErrors := by
  constructor
  · intro request hmem
    obtain ⟨pieces, hpieces, hrequest⟩ := exists_hasInclusion hmem
    obtain ⟨units, hunits, hsource⟩ := Include.exists_givenUnits? hpieces.valid hrequest
    obtain ⟨hne, content, hleft⟩ := Include.exists_content_of_givenUnits? hunits
    obtain ⟨unit, rest, rfl⟩ := List.exists_cons_of_ne_nil hne
    refine ⟨pieces, unit, rest, hpieces, hunits, hsource, ?_⟩
    intro authority page
    have hblank : request.target authority page = .error .missingSource ↔
        ∀ c ∈ request.src.toList, Text.isBlank c := Include.Target.resolve_eq_missingSource_iff
    refine ⟨hblank, ?_⟩
    intro hrefused
    -- the lemma is about a content, and of a content this is what is left
    have hall := hblank.mp hrefused
    rw [hsource, ← hleft] at hall
    exact Markup.hidesBlank_of_blank (by rw [hleft, List.head?_cons]) hall
  · intro pieces hpieces hnone builder hignoring call
    have hgiven : Include.givenValue? "src" (piecesAttributes pieces) = none := by
      rw [Include.givenValue?_piecesAttributes hpieces.valid, hnone, Option.map_none]
    constructor
    · show (builder.receive _).requests = _
      rw [Builder.requests_receive, Builder.asked?, Tag.ofName?_name, if_pos ⟨rfl, hignoring⟩,
        Include.Request.ofAttributes, hgiven]
      exact List.append_nil _
    · rw [Builder.raises, Tag.ofName?_name, Option.any_some, Builder.misses, hgiven, hignoring]
      rfl

/-- An escaped space for a source, in an attempt.  It is registered and does not raise an
exception, and so the attempt stands, though there is nothing that can be fetched. -/
theorem source_of_escaped_space :
    let source := Piece.pair [0x73, 0x72, 0x63] [] 0x27 [.escaped 0x20]
    let attempt := Forest.text [0x41]
      (.element .inclusion [.space 0x20, source] none .nothing .nothing)
    let branch := Forest.text [0x45] .nothing
    let forest := Forest.element .tryBlock [] (some [])
      (.element .attempt [] (some []) attempt (.element .except [] (some []) branch .nothing))
      .nothing
    let heard := (Builder.fresh false false).hear (Scanner.events [forest.written])
    heard.1.document.requests = [{ src := " " }] ∧ heard.2 = [] ∧
      heard.1.document.contents = [some (.byte 0x41), some (.fragment { src := " " })] ∧
      ∀ authority page,
        Include.Request.target { src := " " } authority page = .error .missingSource := by
  intro source attempt branch forest heard
  refine ⟨by decide +kernel, by decide +kernel, by decide +kernel, ?_⟩
  intro authority page
  apply Include.Target.resolve_eq_missingSource_iff.mpr
  intro c hc
  rw [List.mem_singleton.mp hc]
  decide

end Page
end EdgeIncludes
