/-
The grammar of a whole body.

A body is split from the left.  Up to the next `<` it is text.  At a `<` the longest
beginning of a tag is taken: if it is a tag, it is that tag, and if it is not, it is text.
`Tokenised` says so without the automaton, and the automaton splits every body in that one
way (`tokenised_iff`).  What carries the proof is that a draft stops being a draft at the
first byte that no tag can have there, and not a byte earlier or later (`told_of_stuck`).
-/
import EdgeIncludes.Proofs.Scan.Chunking
import Mathlib.Data.Nat.Find

namespace EdgeIncludes
namespace Markup

open Ascii

/-! ## The grammar -/

/-- The longest beginning of a tag that the body starts with. -/
structure IsLongestOpening (bytes body : Bytes) : Prop where
  opening : IsOpening bytes
  isFront : bytes <+: body
  longest : ∀ other, IsOpening other → other <+: body → other.length ≤ bytes.length

/-- The body is split into the tokens. -/
inductive Tokenised : Bytes → List Token → Prop where
  | nil : Tokenised [] []
  /-- A byte that starts no tag is text. -/
  | text {b : UInt8} {rest : Bytes} {tokens : List Token} (hb : b ≠ lessThan)
      (h : Tokenised rest tokens) : Tokenised (b :: rest) (.text [b] :: tokens)
  /-- The longest beginning of a tag is a tag. -/
  | tag {lexeme : Lexeme} {rest : Bytes} {tokens : List Token} (hvalid : lexeme.Valid)
      (hlongest : IsLongestOpening lexeme.written (lexeme.written ++ rest))
      (h : Tokenised rest tokens) : Tokenised (lexeme.written ++ rest) (.tag lexeme :: tokens)
  /-- The longest beginning of a tag is no tag, and so it is text. -/
  | stray {bytes rest : Bytes} {tokens : List Token} (hstart : bytes.head? = some lessThan)
      (hlongest : IsLongestOpening bytes (bytes ++ rest))
      (hpartial : ∀ lexeme : Lexeme, lexeme.Valid → lexeme.written ≠ bytes)
      (h : Tokenised rest tokens) : Tokenised (bytes ++ rest) (.text bytes :: tokens)

/-- No byte is lost. -/
theorem Tokenised.tokensBytes_eq {body : Bytes} {tokens : List Token} (h : Tokenised body tokens) :
    tokensBytes tokens = body := by
  induction h with
  | nil => rfl
  | text hb h ih => rw [tokensBytes_cons, ih]; rfl
  | tag hvalid hlongest h ih => rw [tokensBytes_cons, ih]; rfl
  | stray hstart hlongest hpartial h ih => rw [tokensBytes_cons, ih]; rfl

theorem Tokenised.valid {body : Bytes} {tokens : List Token} (h : Tokenised body tokens) :
    ∀ token ∈ tokens, token.Valid := by
  induction h with
  | nil => exact List.forall_mem_nil _
  | text hb h ih => exact List.forall_mem_cons.mpr ⟨trivial, ih⟩
  | tag hvalid hlongest h ih => exact List.forall_mem_cons.mpr ⟨hvalid, ih⟩
  | stray hstart hlongest hpartial h ih => exact List.forall_mem_cons.mpr ⟨trivial, ih⟩

theorem exists_isLongestOpening (body : Bytes) : ∃ bytes, IsLongestOpening bytes body := by
  classical
  have hempty : Scan.Draft.text.Valid := trivial
  have hnil : IsOpening (body.take 0) := Scan.Draft.isOpening_bytes hempty
  have hspec := Nat.findGreatest_spec (P := fun n => IsOpening (body.take n))
    (Nat.zero_le body.length) hnil
  refine ⟨body.take _, hspec, List.take_prefix _ _, fun other hopening hfront => ?_⟩
  have htake : body.take other.length = other := (List.prefix_iff_eq_take.mp hfront).symm
  have hle := Nat.le_findGreatest (P := fun n => IsOpening (body.take n)) hfront.length_le
    (htake.symm ▸ hopening)
  rw [List.length_take]
  exact Nat.le_min.mpr ⟨hle, hfront.length_le⟩

/-- Every body can be split. -/
theorem exists_tokenised (body : Bytes) : ∃ tokens, Tokenised body tokens := by
  induction hlength : body.length using Nat.strong_induction_on generalizing body with
  | _ n ih =>
    subst hlength
    cases body with
    | nil => exact ⟨[], .nil⟩
    | cons b rest =>
      by_cases hb : b = lessThan
      · subst hb
        obtain ⟨bytes, hlongest⟩ := exists_isLongestOpening (lessThan :: rest)
        have hopened : Scan.Draft.opened.Valid := trivial
        have hpos := hlongest.longest [lessThan] (Scan.Draft.isOpening_bytes hopened)
          (List.prefix_append [lessThan] rest)
        obtain ⟨back, hback⟩ := hlongest.isFront
        have hstart : bytes.head? = some lessThan := by
          cases bytes with
          | nil => exact absurd hpos (by simp)
          | cons c bytes => exact congrArg List.head? hback
        have hshort : back.length < (lessThan :: rest).length := by
          rw [← hback, List.length_append]
          simp only [List.length_singleton] at hpos
          omega
        obtain ⟨tokens, htokens⟩ := ih back.length hshort back rfl
        rw [← hback] at hlongest ⊢
        by_cases htag : ∃ lexeme : Lexeme, lexeme.Valid ∧ lexeme.written = bytes
        · obtain ⟨lexeme, hvalid, rfl⟩ := htag
          exact ⟨_, .tag hvalid hlongest htokens⟩
        · refine ⟨_, .stray hstart hlongest (fun lexeme hvalid hwritten => ?_) htokens⟩
          exact htag ⟨lexeme, hvalid, hwritten⟩
      · obtain ⟨tokens, htokens⟩ := ih rest.length (Nat.lt_succ_self _) rest rfl
        exact ⟨_, .text hb htokens⟩

end Markup

namespace Scan

open Ascii Markup Event

namespace Draft

/-- What is told of a body that ends after the bytes. -/
def told (draft : Draft) (rest : Bytes) : List Token :=
  (draft.run rest).2 ++ (draft.run rest).1.release

theorem told_append (draft : Draft) (front rest : Bytes) :
    draft.told (front ++ rest) = (draft.run front).2 ++ (draft.run front).1.told rest := by
  rw [told, run_append, told, List.append_assoc]

theorem told_cons (draft : Draft) (b : UInt8) (rest : Bytes) :
    draft.told (b :: rest) = (draft.step b).2 ++ (draft.step b).1.told rest := by
  rw [told, run_cons, told, List.append_assoc]

/-- A draft that the next byte cannot go on with is text. -/
theorem told_of_stuck {draft : Draft} {rest : Bytes} (hv : draft.Valid) (hne : draft ≠ .text)
    (hstuck : ∀ b back, rest = b :: back → ¬ IsOpening (draft.bytes ++ [b])) :
    draft.told rest = .text draft.bytes :: text.told rest := by
  cases rest with
  | nil =>
    rw [told, told, run_nil, run_nil, release_eq hne]
    rfl
  | cons b rest =>
    have hno := hstuck b rest rfl
    rw [told_cons, told_cons text]
    cases hmove : draft.state.move b with
    | text =>
      obtain ⟨htext, -⟩ := State.eq_text_of_move hmove
      exact absurd (state_eq_text_iff.mp htext) hne
    | begun =>
      obtain rfl := State.eq_lessThan_of_move hmove
      rw [step_of_begun hmove, release_eq hne]
      rfl
    | staged next =>
      have hleads := State.leads_of_move hmove
      have hopening := isOpening_bytes (stage_valid hv hleads)
      rw [stage_bytes hleads] at hopening
      exact absurd hopening hno
    | rejected =>
      obtain ⟨-, hb⟩ := State.ne_of_move_rejected hmove
      rw [step_of_rejected hmove, step_text_of_ne hb, release_eq hne]
      rfl
    | completed shape =>
      have hcompletes := State.completes_of_move hmove
      have hopening : IsOpening (draft.bytes ++ [b]) :=
        ⟨_, complete_valid hv hcompletes, complete_written hcompletes ▸ List.prefix_refl _⟩
      exact absurd hopening hno

/-- The beginning of a tag that is no tag is kept as it is. -/
theorem run_opening {bytes : Bytes} (hopening : IsOpening bytes)
    (hpartial : ∀ lexeme : Lexeme, lexeme.Valid → lexeme.written ≠ bytes) :
    (text.run bytes).2 = [] ∧ (text.run bytes).1.bytes = bytes := by
  obtain ⟨lexeme, hvalid, back, hback⟩ := hopening
  have hall := run_written hvalid
  rw [← hback, run_append] at hall
  have htokens := congrArg Prod.snd hall
  have hbytes : tokensBytes (text.run bytes).2 ++ (text.run bytes).1.bytes = bytes :=
    run_bytes text bytes
  rcases List.append_eq_singleton_iff.mp htokens with ⟨hnone, -⟩ | ⟨hone, -⟩
  · rw [hnone] at hbytes
    exact ⟨hnone, hbytes⟩
  · -- the tag is complete already, so the bytes are all of it
    rw [hone, tokensBytes_cons, tokensBytes_nil, List.append_nil] at hbytes
    have hlength := congrArg List.length hbytes
    have hlength' := congrArg List.length hback
    simp only [List.length_append] at hlength hlength'
    have hnone : (text.run bytes).1.bytes = [] := List.eq_nil_of_length_eq_zero (by
      show List.length (text.run bytes).1.bytes = 0
      simp only [Token.written] at hlength
      omega)
    rw [hnone, List.append_nil] at hbytes
    exact absurd hbytes (hpartial lexeme hvalid)

/-- The automaton splits a body as the grammar does. -/
theorem told_of_tokenised {body : Bytes} {tokens : List Token} (h : Tokenised body tokens) :
    text.told body = tokens := by
  induction h with
  | nil => rfl
  | text hb h ih =>
    rw [told_cons, step_text_of_ne hb, ih]
    rfl
  | tag hvalid hlongest h ih =>
    rw [told_append, run_written hvalid, ih]
    rfl
  | @stray bytes rest tokens hstart hlongest hpartial h ih =>
    obtain ⟨hnone, hbytes⟩ := run_opening hlongest.opening hpartial
    obtain ⟨hv, -⟩ := run_valid (show text.Valid from trivial) bytes
    have hne : (text.run bytes).1 ≠ .text := by
      intro htext
      rw [htext] at hbytes
      rw [← hbytes] at hstart
      exact absurd hstart (by decide)
    have hstuck : ∀ b back, rest = b :: back → ¬ IsOpening ((text.run bytes).1.bytes ++ [b]) := by
      rintro b back rfl hopening
      rw [hbytes] at hopening
      have hle := hlongest.longest _ hopening ⟨back, by rw [List.append_assoc]; rfl⟩
      rw [List.length_append, List.length_singleton] at hle
      omega
    rw [told_append, hnone, List.nil_append, told_of_stuck hv hne hstuck, hbytes, ih]

theorem tokenised_iff {body : Bytes} {tokens : List Token} :
    Tokenised body tokens ↔ text.told body = tokens := by
  refine ⟨told_of_tokenised, ?_⟩
  rintro rfl
  obtain ⟨tokens, h⟩ := exists_tokenised body
  exact told_of_tokenised h ▸ h

end Draft

namespace Scanner

/-- The scanner tells a body that comes in one piece as the grammar splits it: it has an
answer, and the answer is what the tokens say. -/
theorem observed?_body_iff (body : Bytes) :
    (observed? [.feed body, .finish]).isSome ∧
      ∀ state events, observed? [.feed body, .finish] = some (state, events) ↔
        state = .text ∧
          ∃ tokens, Tokenised body tokens ∧ coalesce (tokensEvents tokens) = events := by
  have hcalls : Draft.text.calls [.feed body, .finish] = (.text, Draft.text.told body) := by
    rw [Draft.calls_cons, Draft.calls_cons, Draft.told]
    simp only [Draft.call, Draft.calls, List.append_nil]
  rw [observed?_eq, hcalls]
  refine ⟨rfl, fun state events => ⟨?_, ?_⟩⟩
  · intro h
    cases h
    exact ⟨rfl, _, Draft.tokenised_iff.mpr rfl, rfl⟩
  · rintro ⟨rfl, tokens, htokens, rfl⟩
    rw [Draft.tokenised_iff.mp htokens]
    rfl

end Scanner
end Scan
end EdgeIncludes
