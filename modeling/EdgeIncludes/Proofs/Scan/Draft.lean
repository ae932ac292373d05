/-
The automaton without its buffers.

A draft is a tag as far as it has been written, kept as its parts.  It moves from byte to
byte as the automaton does and hands out tokens, and nothing in it is an offset.  Two
things are proved about it: a draft reads as the beginning of a tag (`bytes` with `Valid`),
and nothing is lost on the way (`step_bytes`): the bytes read so far are those of the
tokens handed out followed by those of the draft.
-/
import EdgeIncludes.Proofs.Scan.Moves

namespace EdgeIncludes
namespace Scan

open Ascii Markup

/-! ## Drafts -/

/-- What a start tag is about, after its last complete piece. -/
inductive Tail where
  | betweenAttributes
  | inKey (key : Bytes)
  | beforeValue (key gap : Bytes)
  | inValue (key gap : Bytes) (quote : UInt8) (content : List EscapeUnit)
  /-- A value, and a backslash whose byte has not come. -/
  | escaped (key gap : Bytes) (quote : UInt8) (content : List EscapeUnit)
  | selfClosing
deriving Repr, DecidableEq

namespace Tail

def state : Tail → State
  | .betweenAttributes => .betweenAttributes
  | .inKey _ => .inKey
  | .beforeValue .. => .beforeValue
  | .inValue _ _ quote _ => .inValue quote
  | .escaped _ _ quote _ => .escaped quote
  | .selfClosing => .selfClosing

def written : Tail → Bytes
  | .betweenAttributes => []
  | .inKey key => key
  | .beforeValue key gap => key ++ equals :: gap
  | .inValue key gap quote content => key ++ equals :: (gap ++ quote :: contentBytes content)
  | .escaped key gap quote content =>
    key ++ equals :: (gap ++ quote :: (contentBytes content ++ [backslash]))
  | .selfClosing => [slash]

def Valid : Tail → Prop
  | .betweenAttributes | .selfClosing => True
  | .inKey key => IsKey key
  | .beforeValue key gap => IsKey key ∧ IsGap gap
  | .inValue key gap quote content | .escaped key gap quote content =>
    IsKey key ∧ IsGap gap ∧ isQuote quote ∧ ∀ unit ∈ content, unit.FitsIn quote

end Tail

/-- A tag as far as it has been written, or no tag. -/
inductive Draft where
  | text
  | opened
  | inNamespace (closing : Bool) (matched : Nat)
  | inName (closing : Bool) (letters : Bytes)
  | afterName (letters gap : Bytes)
  | inTag (letters : Bytes) (pieces : List Piece) (tail : Tail)
deriving Repr, DecidableEq

namespace Draft

/-- The automaton's state at the end of the draft. -/
def state : Draft → State
  | .text => .text
  | .opened => .opened
  | .inNamespace closing matched => .inNamespace closing matched
  | .inName closing _ => .inName closing
  | .afterName .. => .afterName
  | .inTag _ _ tail => tail.state

/-- The bytes of the draft, from its `<` on. -/
def bytes : Draft → Bytes
  | .text => []
  | .opened => [lessThan]
  | .inNamespace closing matched =>
    lessThan :: ((if closing then [slash] else []) ++ namespaceBytes.take matched)
  | .inName closing letters => opener closing ++ letters
  | .afterName letters gap => opener true ++ letters ++ gap
  | .inTag letters pieces tail => opener false ++ letters ++ piecesBytes pieces ++ tail.written

/-- The draft can be completed.  Before the first piece of a start tag there is nothing but
the slash that ends the tag, because a key needs whitespace in front of it. -/
def Valid : Draft → Prop
  | .text | .opened => True
  | .inNamespace closing matched => matched ≤ 4 ∧ (closing = false → 0 < matched)
  | .inName _ letters => IsName letters
  | .afterName letters gap => IsName letters ∧ IsGap gap
  | .inTag letters pieces tail =>
    IsName letters ∧ PiecesValid pieces ∧ tail.Valid ∧ (tail ≠ .selfClosing → pieces ≠ [])

def attributes : Draft → List Attribute
  | .inTag _ pieces _ => piecesAttributes pieces
  | _ => []

def letters : Draft → Bytes
  | .inName _ letters | .afterName letters _ | .inTag letters _ _ => letters
  | _ => []

/-- The draft with one more byte, which leads to the given state. -/
def stage (b : UInt8) : Draft → State → Draft
  | .opened, .inNamespace closing matched => inNamespace closing matched
  | .inNamespace _ _, .inNamespace closing matched => inNamespace closing matched
  | .inNamespace _ _, .inName closing => inName closing [b]
  | .inName closing letters, .inName _ => inName closing (letters ++ [b])
  | .inName _ letters, .afterName => afterName letters [b]
  | .inName _ letters, .betweenAttributes => inTag letters [.space b] .betweenAttributes
  | .inName _ letters, .selfClosing => inTag letters [] .selfClosing
  | .afterName letters gap, .afterName => afterName letters (gap ++ [b])
  | .inTag letters pieces .betweenAttributes, .betweenAttributes =>
    inTag letters (pieces ++ [.space b]) .betweenAttributes
  | .inTag letters pieces .betweenAttributes, .selfClosing => inTag letters pieces .selfClosing
  | .inTag letters pieces .betweenAttributes, .inKey => inTag letters pieces (.inKey [b])
  | .inTag letters pieces (.inKey key), .inKey => inTag letters pieces (.inKey (key ++ [b]))
  | .inTag letters pieces (.inKey key), .beforeValue => inTag letters pieces (.beforeValue key [])
  | .inTag letters pieces (.beforeValue key gap), .beforeValue =>
    inTag letters pieces (.beforeValue key (gap ++ [b]))
  | .inTag letters pieces (.beforeValue key gap), .inValue quote =>
    inTag letters pieces (.inValue key gap quote [])
  | .inTag letters pieces (.inValue key gap quote content), .inValue _ =>
    inTag letters pieces (.inValue key gap quote (content ++ [.plain b]))
  | .inTag letters pieces (.inValue key gap quote content), .escaped _ =>
    inTag letters pieces (.escaped key gap quote content)
  | .inTag letters pieces (.inValue key gap quote content), .betweenAttributes =>
    inTag letters (pieces ++ [.pair key gap quote content]) .betweenAttributes
  | .inTag letters pieces (.escaped key gap quote content), .inValue _ =>
    inTag letters pieces (.inValue key gap quote (content ++ [.escaped b]))
  | draft, _ => draft

/-- The tag that the draft is once a `>` has completed it. -/
def complete : Draft → Shape → Lexeme
  | .inName _ letters, .start => .start letters [] false
  | .inTag letters pieces _, .start => .start letters pieces false
  | .inTag letters pieces _, .selfClosing => .start letters pieces true
  | .inName _ letters, .stop => .stop letters []
  | .afterName letters gap, .stop => .stop letters gap
  | _, _ => .stop [] []

/-- The bytes of the draft as text, if it has any. -/
def release (draft : Draft) : List Token :=
  if draft.bytes = [] then [] else [.text draft.bytes]

/-- The draft after one more byte, and what can be told apart by then. -/
def step (draft : Draft) (b : UInt8) : Draft × List Token :=
  match draft.state.move b with
  | .text => (text, [.text [b]])
  | .begun => (opened, draft.release)
  | .staged next => (draft.stage b next, [])
  | .rejected => (text, draft.release ++ [.text [b]])
  | .completed shape => (text, [.tag (draft.complete shape)])

/-- The draft after more bytes, and what can be told apart by then. -/
def run (draft : Draft) : Bytes → Draft × List Token
  | [] => (draft, [])
  | b :: rest =>
    let (next, tokens) := draft.step b
    let (last, more) := next.run rest
    (last, tokens ++ more)

@[simp] theorem run_nil (draft : Draft) : draft.run [] = (draft, []) := rfl

theorem run_cons (draft : Draft) (b : UInt8) (rest : Bytes) :
    draft.run (b :: rest) =
      (((draft.step b).1.run rest).1, (draft.step b).2 ++ ((draft.step b).1.run rest).2) := rfl

theorem run_append (draft : Draft) (front rest : Bytes) :
    draft.run (front ++ rest) =
      (((draft.run front).1.run rest).1,
        (draft.run front).2 ++ ((draft.run front).1.run rest).2) := by
  induction front generalizing draft with
  | nil => rfl
  | cons b front ih =>
    rw [List.cons_append, run_cons, ih, run_cons, List.append_assoc]

/-! ## Staging -/

theorem stage_state {draft : Draft} {b : UInt8} {next : State} (h : Leads draft.state b next) :
    (draft.stage b next).state = next := by
  cases draft with
  | inTag letters pieces tail => cases tail <;> cases h <;> rfl
  | _ => cases h <;> rfl

theorem take_namespaceBytes_succ {matched : Nat} {b : UInt8}
    (h : namespaceBytes[matched]? = some b) :
    namespaceBytes.take (matched + 1) = namespaceBytes.take matched ++ [b] := by
  rw [List.take_add_one, h]
  rfl

theorem take_namespaceBytes_end {matched : Nat} (h : namespaceBytes[matched]? = none) :
    namespaceBytes.take matched = namespaceBytes :=
  List.take_of_length_le (List.getElem?_eq_none_iff.mp h)

theorem stage_bytes {draft : Draft} {b : UInt8} {next : State} (h : Leads draft.state b next) :
    (draft.stage b next).bytes = draft.bytes ++ [b] := by
  cases draft with
  | text => cases h
  | opened => cases h <;> rfl
  | inNamespace closing matched =>
    cases h with
    | namespaceByte h =>
      simp only [stage, bytes, take_namespaceBytes_succ h, List.cons_append, List.append_assoc]
    | nameStart hend h =>
      simp only [stage, bytes, take_namespaceBytes_end hend, opener, List.cons_append]
  | inName closing letters =>
    cases h with
    | nameSlash => simp only [stage, bytes, Tail.written, piecesBytes_nil, List.append_nil]
    | startSpace h =>
      simp only [stage, bytes, Tail.written, piecesBytes_singleton, Piece.written, List.append_nil]
    | _ => simp only [stage, bytes, List.append_assoc]
  | afterName letters gap =>
    cases h
    simp only [stage, bytes, List.append_assoc]
  | inTag letters pieces tail =>
    cases tail <;> cases h <;>
      simp only [stage, bytes, Tail.written, Piece.written, piecesBytes_append,
        piecesBytes_singleton, contentBytes_append, contentBytes_nil, contentBytes_plain,
        contentBytes_escaped, List.append_assoc, List.cons_append, List.nil_append,
        List.append_nil]

theorem stage_ne_text {draft : Draft} {b : UInt8} {next : State} (h : Leads draft.state b next) :
    draft.stage b next ≠ .text := by
  intro htext
  have hbytes := stage_bytes h
  rw [htext] at hbytes
  exact absurd hbytes.symm (List.append_ne_nil_of_right_ne_nil _ (List.cons_ne_nil b []))

theorem stage_valid {draft : Draft} {b : UInt8} {next : State} (hv : draft.Valid)
    (h : Leads draft.state b next) : (draft.stage b next).Valid := by
  cases draft with
  | text => cases h
  | opened => cases h <;> simp [stage, Valid]
  | inNamespace closing matched =>
    cases h with
    | namespaceByte h => exact ⟨(List.getElem?_eq_some_iff.mp h).1, fun _ => Nat.succ_pos matched⟩
    | nameStart hend h => exact ⟨List.cons_ne_nil b [], List.forall_mem_singleton.mpr h⟩
  | inName closing letters =>
    cases h with
    | nameByte h => exact hv.snoc h
    | nameSlash => exact ⟨hv, ⟨by simp, by simp⟩, trivial, fun he => absurd rfl he⟩
    | startSpace h =>
      have hpieces : PiecesValid ([] ++ [.space b]) :=
        PiecesValid.snoc ⟨by simp, by simp⟩ (fun _ => trivial) h
      exact ⟨hv, hpieces, trivial, by simp⟩
    | stopSpace h => exact ⟨hv, List.forall_mem_singleton.mpr h⟩
  | afterName letters gap =>
    cases h with
    | afterSpace h => exact ⟨hv.1, hv.2.snoc h⟩
  | inTag letters pieces tail =>
    obtain ⟨hname, hpieces, htail, hne⟩ := hv
    cases tail with
    | betweenAttributes =>
      have hsome := hne (by simp)
      cases h with
      | tagSlash => exact ⟨hname, hpieces, trivial, fun _ => hsome⟩
      | tagSpace h => exact ⟨hname, hpieces.snoc (fun _ => trivial) h, trivial, by simp⟩
      | keyStart h => exact ⟨hname, hpieces, ⟨h, by simp⟩, fun _ => hsome⟩
    | inKey key =>
      have hsome := hne (by simp)
      cases h with
      | keyByte h => exact ⟨hname, hpieces, IsKey.snoc htail h, fun _ => hsome⟩
      | keyEnd => exact ⟨hname, hpieces, ⟨htail, by simp [IsGap]⟩, fun _ => hsome⟩
    | beforeValue key gap =>
      have hsome := hne (by simp)
      obtain ⟨hkey, hgap⟩ := htail
      cases h with
      | valueSpace h => exact ⟨hname, hpieces, ⟨hkey, hgap.snoc h⟩, fun _ => hsome⟩
      | valueStart h => exact ⟨hname, hpieces, ⟨hkey, hgap, h, by simp⟩, fun _ => hsome⟩
    | inValue key gap quote content =>
      have hsome := hne (by simp)
      obtain ⟨hkey, hgap, hquote, hcontent⟩ := htail
      cases h with
      | backslash => exact ⟨hname, hpieces, ⟨hkey, hgap, hquote, hcontent⟩, fun _ => hsome⟩
      | valueEnd h =>
        exact ⟨hname, hpieces.snoc (fun he => absurd he hsome) ⟨hkey, hgap, hquote, hcontent⟩,
          trivial, by simp⟩
      | valueByte hb hq =>
        have hunit : EscapeUnit.FitsIn quote (.plain b) := ⟨hb, hq⟩
        have hcontent := List.forall_mem_append.mpr
          ⟨hcontent, List.forall_mem_singleton.mpr hunit⟩
        exact ⟨hname, hpieces, ⟨hkey, hgap, hquote, hcontent⟩, fun _ => hsome⟩
    | escaped key gap quote content =>
      have hsome := hne (by simp)
      obtain ⟨hkey, hgap, hquote, hcontent⟩ := htail
      cases h with
      | escapedByte =>
        have hunit : EscapeUnit.FitsIn quote (.escaped b) := trivial
        have hcontent := List.forall_mem_append.mpr
          ⟨hcontent, List.forall_mem_singleton.mpr hunit⟩
        exact ⟨hname, hpieces, ⟨hkey, hgap, hquote, hcontent⟩, fun _ => hsome⟩
    | selfClosing => cases h

/-! ## Completing -/

theorem complete_written {draft : Draft} {b : UInt8} {shape : Shape}
    (h : Completes draft.state b shape) : (draft.complete shape).written = draft.bytes ++ [b] := by
  cases draft with
  | inName closing letters =>
    cases h <;> simp [complete, Lexeme.written, bytes]
  | afterName letters gap =>
    cases h
    rfl
  | inTag letters pieces tail =>
    cases tail <;> cases h <;> simp [complete, Lexeme.written, bytes, Tail.written]
  | _ => cases h

theorem complete_valid {draft : Draft} {b : UInt8} {shape : Shape} (hv : draft.Valid)
    (h : Completes draft.state b shape) : (draft.complete shape).Valid := by
  cases draft with
  | inName closing letters =>
    cases h with
    | startName => exact ⟨hv, by simp, by simp⟩
    | stopName => exact ⟨hv, by simp [IsGap]⟩
  | afterName letters gap =>
    cases h
    exact hv
  | inTag letters pieces tail =>
    cases tail <;> cases h <;> exact ⟨hv.1, hv.2.1⟩
  | _ => cases h

theorem complete_events {draft : Draft} {b : UInt8} {shape : Shape}
    (h : Completes draft.state b shape) :
    (draft.complete shape).events =
      shape.events (namespaceBytes ++ draft.letters) draft.attributes := by
  cases draft with
  | inName closing letters => cases h <;> rfl
  | afterName letters gap => cases h; rfl
  | inTag letters pieces tail => cases tail <;> cases h <;> rfl
  | _ => cases h

/-! ## One byte -/

theorem bytes_eq_nil_iff {draft : Draft} : draft.bytes = [] ↔ draft = .text := by
  cases draft <;> simp [bytes, opener]

theorem state_eq_text_iff {draft : Draft} : draft.state = .text ↔ draft = .text := by
  cases draft with
  | inTag letters pieces tail => cases tail <;> simp [state, Tail.state]
  | _ => simp [state]

theorem tokensBytes_release (draft : Draft) : tokensBytes draft.release = draft.bytes := by
  rw [release]
  split
  · rename_i h
    rw [h]
    rfl
  · exact List.append_nil _

theorem release_texts (draft : Draft) : ∀ token ∈ draft.release, ∃ bytes, token = .text bytes := by
  intro token hmem
  rw [release] at hmem
  split at hmem
  · cases hmem
  · exact ⟨_, List.mem_singleton.mp hmem⟩

theorem release_valid (draft : Draft) : ∀ token ∈ draft.release, token.Valid := by
  intro token hmem
  obtain ⟨bytes, rfl⟩ := release_texts draft token hmem
  trivial

theorem release_eq {draft : Draft} (h : draft ≠ .text) : draft.release = [.text draft.bytes] := by
  rw [release, if_neg (fun hnil => h (bytes_eq_nil_iff.mp hnil))]

theorem step_text_of_ne {b : UInt8} (hb : b ≠ lessThan) : text.step b = (text, [.text [b]]) := by
  have hmove : text.state.move b = .text := if_neg hb
  rw [step, hmove]

theorem step_of_begun {draft : Draft} {b : UInt8} (h : draft.state.move b = .begun) :
    draft.step b = (opened, draft.release) := by
  rw [step, h]

theorem step_of_rejected {draft : Draft} {b : UInt8} (h : draft.state.move b = .rejected) :
    draft.step b = (text, draft.release ++ [.text [b]]) := by
  rw [step, h]

theorem step_of_leads (draft : Draft) {b : UInt8} {next : State} (h : Leads draft.state b next) :
    draft.step b = (draft.stage b next, []) := by
  rw [step, State.move_of_leads h]

theorem step_of_completes (draft : Draft) {b : UInt8} {shape : Shape}
    (h : Completes draft.state b shape) :
    draft.step b = (text, [.tag (draft.complete shape)]) := by
  rw [step, State.move_of_completes h]

theorem step_bytes (draft : Draft) (b : UInt8) :
    tokensBytes (draft.step b).2 ++ (draft.step b).1.bytes = draft.bytes ++ [b] := by
  rw [step]
  cases h : draft.state.move b with
  | text =>
    obtain ⟨htext, -⟩ := State.eq_text_of_move h
    rw [state_eq_text_iff.mp htext]
    rfl
  | begun =>
    rw [State.eq_lessThan_of_move h]
    show tokensBytes draft.release ++ [lessThan] = _
    rw [tokensBytes_release]
  | staged next => exact stage_bytes (State.leads_of_move h)
  | rejected =>
    show tokensBytes (draft.release ++ [.text [b]]) ++ [] = _
    rw [List.append_nil, tokensBytes_append, tokensBytes_release]
    rfl
  | completed shape =>
    show (draft.complete shape).written ++ [] ++ [] = _
    rw [List.append_nil, List.append_nil, complete_written (State.completes_of_move h)]

theorem step_valid {draft : Draft} (hv : draft.Valid) (b : UInt8) :
    (draft.step b).1.Valid ∧ ∀ token ∈ (draft.step b).2, token.Valid := by
  rw [step]
  cases h : draft.state.move b with
  | text => exact ⟨trivial, List.forall_mem_singleton.mpr trivial⟩
  | begun => exact ⟨trivial, release_valid draft⟩
  | staged next => exact ⟨stage_valid hv (State.leads_of_move h), by simp⟩
  | rejected =>
    exact ⟨trivial, List.forall_mem_append.mpr
      ⟨release_valid draft, List.forall_mem_singleton.mpr trivial⟩⟩
  | completed shape =>
    exact ⟨trivial, List.forall_mem_singleton.mpr (complete_valid hv (State.completes_of_move h))⟩

/-! ## Many bytes -/

theorem run_bytes (draft : Draft) (input : Bytes) :
    tokensBytes (draft.run input).2 ++ (draft.run input).1.bytes = draft.bytes ++ input := by
  induction input generalizing draft with
  | nil => rw [List.append_nil]; rfl
  | cons b rest ih =>
    rw [run_cons, tokensBytes_append, List.append_assoc, ih, ← List.append_assoc, step_bytes,
      List.append_assoc, List.singleton_append]

theorem run_valid {draft : Draft} (hv : draft.Valid) (input : Bytes) :
    (draft.run input).1.Valid ∧ ∀ token ∈ (draft.run input).2, token.Valid := by
  induction input generalizing draft with
  | nil => exact ⟨hv, by simp⟩
  | cons b rest ih =>
    obtain ⟨hnext, htokens⟩ := step_valid hv b
    obtain ⟨hlast, hmore⟩ := ih hnext
    rw [run_cons]
    exact ⟨hlast, List.forall_mem_append.mpr ⟨htokens, hmore⟩⟩

end Draft
end Scan
end EdgeIncludes
