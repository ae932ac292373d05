/-
The search for a place where a tag could start.

A chunk that starts outside every tag is not read from its beginning: what comes before the
first place where a tag could start is let out unread.  That is exact.  Reading those
bytes can begin a draft here and there, but a draft that did not begin at such a place is
given up before its namespace is complete, and so what is read is text as well.
-/
import EdgeIncludes.Proofs.Markup.Coalescing
import EdgeIncludes.Proofs.Scan.Grammar
import EdgeIncludes.Scan.State

namespace EdgeIncludes
namespace Markup

open Ascii Event

/-! ## Text among tokens -/

/-- Tokens that are text say what their bytes say as one text. -/
theorem coalesce_texts {tokens : List Token} (h : ∀ token ∈ tokens, ∃ bytes, token = .text bytes)
    (rest : List Event) :
    coalesce (tokensEvents tokens ++ rest) = coalesce (.output (tokensBytes tokens) :: rest) := by
  induction tokens with
  | nil => exact (prepend_output_nil _).symm
  | cons token tokens ih =>
    obtain ⟨⟨bytes, rfl⟩, htokens⟩ := List.forall_mem_cons.mp h
    have hrest := coalesce_append_left [.output bytes] (ih htokens)
    rw [List.singleton_append, List.singleton_append, coalesce_output_output] at hrest
    exact hrest

/-- Bytes that are told one by one say what they say as one text. -/
theorem coalesce_bytes (bytes : Bytes) (rest : List Event) :
    coalesce (tokensEvents (bytes.map fun b => .text [b]) ++ rest) =
      coalesce (.output bytes :: rest) := by
  have htexts : ∀ token ∈ bytes.map fun b => Token.text [b], ∃ bytes, token = .text bytes := by
    intro token hmem
    obtain ⟨b, -, rfl⟩ := List.mem_map.mp hmem
    exact ⟨[b], rfl⟩
  have hbytes : tokensBytes (bytes.map fun b => Token.text [b]) = bytes := by
    rw [tokensBytes, List.flatMap_map]
    exact List.flatMap_singleton' bytes
  rw [coalesce_texts htexts, hbytes]

/-! ## Where a tag could start -/

theorem mayOpen_iff {bytes : Bytes} :
    mayOpen bytes ↔ ∃ closing, opener closing <+: bytes ∨ bytes <+: opener closing := by
  have hstart : startOpener = opener false := rfl
  have hend : endOpener = opener true := rfl
  rw [mayOpen, comparable, comparable, hstart, hend]
  simp only [Bool.or_eq_true, List.isPrefixOf_iff_prefix, Bool.exists_bool]

theorem eq_lessThan_of_mayOpen {b : UInt8} {rest : Bytes} (h : mayOpen (b :: rest)) :
    b = lessThan := by
  obtain ⟨closing, h | h⟩ := mayOpen_iff.mp h
  · exact (List.cons_prefix_cons.mp h).1.symm
  · exact (List.cons_prefix_cons.mp h).1

theorem tagStartFrom?_eq (offset : Nat) (bytes : Bytes) :
    tagStartFrom? offset bytes = (tagStart? bytes).map (· + offset) := by
  rw [tagStart?]
  induction bytes generalizing offset with
  | nil => rfl
  | cons b rest ih =>
    rw [tagStartFrom?, tagStartFrom?]
    by_cases h : mayOpen (b :: rest)
    · simp only [h, if_true, Option.map_some, Nat.zero_add]
    · rw [if_neg h, if_neg h, ih (offset + 1), ih (0 + 1), Option.map_map]
      congr 1
      funext n
      show n + (offset + 1) = n + (0 + 1) + offset
      omega

/-- How many bytes come before the first place where a tag could start. -/
def skipped (bytes : Bytes) : Nat :=
  (tagStart? bytes).getD bytes.length

theorem skipped_cons_of_mayOpen {b : UInt8} {rest : Bytes} (h : mayOpen (b :: rest)) :
    skipped (b :: rest) = 0 := by
  rw [skipped, tagStart?, tagStartFrom?, if_pos h]
  rfl

theorem skipped_cons {b : UInt8} {rest : Bytes} (h : mayOpen (b :: rest) = false) :
    skipped (b :: rest) = skipped rest + 1 := by
  rw [skipped, tagStart?, tagStartFrom?, if_neg (by rw [h]; decide), tagStartFrom?_eq, skipped]
  cases tagStart? rest <;> rfl

theorem skipped_le (bytes : Bytes) : skipped bytes ≤ bytes.length := by
  induction bytes with
  | nil => exact Nat.le_refl 0
  | cons b rest ih =>
    by_cases h : mayOpen (b :: rest)
    · rw [skipped_cons_of_mayOpen h]
      exact Nat.zero_le _
    · rw [skipped_cons (Bool.eq_false_iff.mpr h)]
      exact Nat.succ_le_succ ih

end Markup

namespace Scan

open Ascii Markup Event

namespace Draft

/-- The draft and the bytes behind it are no tag, and the draft is too short to know. -/
def Doomed (rest : Bytes) : Draft → Prop
  | .text => True
  | .opened => mayOpen (lessThan :: rest) = false
  | .inNamespace closing matched =>
    (inNamespace closing matched).Valid ∧
      mayOpen ((inNamespace closing matched).bytes ++ rest) = false
  | _ => False

theorem eq_text_of_doomed_nil {draft : Draft} (h : draft.Doomed []) : draft = .text := by
  cases draft with
  | text => rfl
  | opened => exact absurd h (show mayOpen [lessThan] ≠ false by decide)
  | inNamespace closing matched =>
    have hopen := mayOpen_iff.mpr ⟨closing, Or.inr (bytes_prefix_opener closing matched)⟩
    exact absurd (List.append_nil _ ▸ h.2) (by rw [hopen]; decide)
  | _ => exact absurd h id

theorem step_lessThan_of_doomed {draft : Draft} {rest : Bytes} (h : draft.Doomed rest) :
    draft.step lessThan = (opened, draft.release) := by
  cases draft with
  | text | opened | inNamespace => rfl
  | _ => exact absurd h id

/-- What a doomed draft hands out at a byte where no tag could start is text, and the draft
after the byte is doomed. -/
theorem doomed_step {draft : Draft} {b : UInt8} {rest : Bytes} (h : draft.Doomed (b :: rest))
    (hb : mayOpen (b :: rest) = false) :
    (draft.step b).1.Doomed rest ∧ ∀ token ∈ (draft.step b).2, ∃ bytes, token = .text bytes := by
  have hrelease := release_texts draft
  rw [step]
  cases hmove : draft.state.move b with
  | text => exact ⟨trivial, List.forall_mem_singleton.mpr ⟨_, rfl⟩⟩
  | begun =>
    rw [State.eq_lessThan_of_move hmove] at hb
    exact ⟨hb, hrelease⟩
  | rejected =>
    exact ⟨trivial, List.forall_mem_append.mpr
      ⟨hrelease, List.forall_mem_singleton.mpr ⟨_, rfl⟩⟩⟩
  | completed shape =>
    have hcompletes := State.completes_of_move hmove
    cases draft with
    | text | opened | inNamespace => cases hcompletes
    | _ => exact absurd h id
  | staged next =>
    have hleads := State.leads_of_move hmove
    refine ⟨?_, by simp⟩
    cases draft with
    | text => cases hleads
    | opened => cases hleads <;> exact ⟨⟨by decide, by decide⟩, h⟩
    | inNamespace closing matched =>
      have hbytes := stage_bytes hleads
      have hvalid := stage_valid h.1 hleads
      cases id hleads with
      | namespaceByte hmatched =>
        refine ⟨hvalid, ?_⟩
        have hopen := h.2
        rw [← List.singleton_append, ← List.append_assoc, ← hbytes] at hopen
        exact hopen
      | nameStart hend hlower =>
        -- the namespace is complete, and so a tag could start here after all
        have hfull : (inNamespace closing matched).bytes = opener closing := by
          rw [bytes, take_namespaceBytes_end hend, opener]
        have hopen : mayOpen ((inNamespace closing matched).bytes ++ b :: rest) :=
          mayOpen_iff.mpr ⟨closing, Or.inl (hfull ▸ List.prefix_append _ _)⟩
        exact absurd h.2 (by rw [hopen]; decide)
    | _ => exact absurd h id

/-- Bytes before the first place where a tag could start are text, also for a draft that is
doomed already. -/
theorem run_of_doomed {draft : Draft} {rest : Bytes} (h : draft.Doomed rest) :
    (draft.run rest).1 = (text.run (rest.drop (skipped rest))).1 ∧
      coalesce (tokensEvents (draft.run rest).2) =
        coalesce (.output (draft.bytes ++ rest.take (skipped rest)) ::
          tokensEvents (text.run (rest.drop (skipped rest))).2) := by
  induction rest generalizing draft with
  | nil =>
    rw [eq_text_of_doomed_nil h]
    exact ⟨rfl, rfl⟩
  | cons b rest ih =>
    by_cases hb : mayOpen (b :: rest)
    · obtain rfl := eq_lessThan_of_mayOpen hb
      rw [skipped_cons_of_mayOpen hb, List.drop_zero, List.take_zero, List.append_nil, run_cons,
        run_cons, step_lessThan_of_doomed h]
      refine ⟨rfl, ?_⟩
      rw [tokensEvents_append, coalesce_texts (release_texts draft), tokensBytes_release]
      rfl
    · have hnone := Bool.eq_false_iff.mpr hb
      obtain ⟨hdoomed, htexts⟩ := doomed_step h hnone
      obtain ⟨hlast, hevents⟩ := ih hdoomed
      rw [skipped_cons hnone, List.drop_succ_cons, List.take_succ_cons, run_cons]
      refine ⟨hlast, ?_⟩
      rw [tokensEvents_append, coalesce_append_left _ hevents, coalesce_texts htexts,
        coalesce_output_output, ← List.append_assoc, step_bytes, List.append_assoc,
        List.singleton_append]

end Draft
end Scan
end EdgeIncludes
