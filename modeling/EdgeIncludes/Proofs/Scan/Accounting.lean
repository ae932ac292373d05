/-
No byte is lost, told twice or told early.

A session is a scanner with two books on it that the scanner does not keep: the bytes that
it was fed and the events that it gave since it last began afresh.  After any calls the
books agree (`exists_balanced`): what was fed is what was told, tags and text in order,
followed by what is staged.  What is staged is the tag in hand and nothing older, and what
is carried is what is staged less the brackets that no offset points to any more.  The books
on a body are closed when the body is finished, with what that gives among its events, and
then nothing is left over.
-/
import EdgeIncludes.Proofs.Scan.Chunking

namespace EdgeIncludes
namespace Markup

open Event

/-! ## Joined text -/

theorem coalesce_lexeme (lexeme : Lexeme) (events : List Event) :
    coalesce (lexeme.events ++ events) = lexeme.events ++ coalesce events := by
  cases lexeme with
  | stop letters gap => rfl
  | start letters pieces selfClosing => cases selfClosing <;> rfl

/-- Events in their normal form are what tokens say, once their text is joined. -/
theorem exists_joined {tokens : List Token} (hv : ∀ token ∈ tokens, token.Valid) :
    ∃ joined : List Token, (∀ token ∈ joined, token.Valid) ∧
      tokensBytes joined = tokensBytes tokens ∧
      tokensEvents joined = coalesce (tokensEvents tokens) := by
  induction tokens with
  | nil => exact ⟨[], hv, rfl, rfl⟩
  | cons token tokens ih =>
    obtain ⟨htoken, htokens⟩ := List.forall_mem_cons.mp hv
    obtain ⟨joined, hjoined, hbytes, hevents⟩ := ih htokens
    rw [tokensBytes_cons, tokensEvents_cons, ← hbytes]
    cases token with
    | tag lexeme =>
      refine ⟨.tag lexeme :: joined, List.forall_mem_cons.mpr ⟨htoken, hjoined⟩, rfl, ?_⟩
      rw [tokensEvents_cons, hevents]
      exact (coalesce_lexeme lexeme _).symm
    | text bytes =>
      show ∃ other : List Token, (∀ token ∈ other, token.Valid) ∧
        tokensBytes other = bytes ++ tokensBytes joined ∧
        tokensEvents other = Event.prepend (.output bytes) (coalesce (tokensEvents tokens))
      rw [← hevents]
      cases bytes with
      | nil => exact ⟨joined, hjoined, rfl, (prepend_output_nil _).symm⟩
      | cons b bytes =>
        cases joined with
        | nil => exact ⟨[.text (b :: bytes)], by simp [Token.Valid], rfl, rfl⟩
        | cons next joined =>
          obtain ⟨hnext, hrest⟩ := List.forall_mem_cons.mp hjoined
          cases next with
          | text more =>
            refine ⟨.text (b :: bytes ++ more) :: joined,
              List.forall_mem_cons.mpr ⟨trivial, hrest⟩, ?_, rfl⟩
            simp only [tokensBytes_cons, Token.written, List.append_assoc]
          | tag lexeme =>
            refine ⟨.text (b :: bytes) :: .tag lexeme :: joined,
              List.forall_mem_cons.mpr ⟨trivial, hjoined⟩, rfl, ?_⟩
            cases lexeme <;> rfl

end Markup

namespace Scan

open Ascii Markup Event

/-! ## The tag in hand -/

/-- Where the automaton is in the input: its state, and the offset of the `<` that the tag
in hand begins with. -/
def follow : State × Option Nat → UInt8 × Nat → State × Option Nat
  | (state, start), (b, offset) =>
    match state.move b with
    | .begun => (.opened, some offset)
    | .staged next => (next, start)
    | .text | .rejected | .completed _ => (.text, none)

/-- Where the automaton is after the input. -/
def place (input : Bytes) : State × Option Nat :=
  input.zipIdx.foldl follow (.text, none)

/-- How many bytes at the front of the tag in hand are not needed: its bracket, once the
name has ended. -/
def State.leftBehind : State → Nat
  | .text | .opened | .inNamespace .. | .inName _ => 0
  | .betweenAttributes | .inKey | .beforeValue | .inValue _ | .escaped _ | .selfClosing => 1
  | .afterName => 2

namespace Draft

def placeAt (start : Nat) (draft : Draft) : State × Option Nat :=
  (draft.state, if draft = .text then none else some start)

theorem follow_step (draft : Draft) (start : Nat) (b : UInt8) :
    ∃ next, follow (draft.placeAt start) (b, start + draft.bytes.length) =
        (draft.step b).1.placeAt next ∧
      next + (draft.step b).1.bytes.length = start + draft.bytes.length + 1 := by
  rw [placeAt, follow, step]
  cases hmove : draft.state.move b with
  | text => exact ⟨_, rfl, rfl⟩
  | begun => exact ⟨_, rfl, rfl⟩
  | rejected => exact ⟨_, rfl, rfl⟩
  | completed shape => exact ⟨_, rfl, rfl⟩
  | staged next =>
    have hleads := State.leads_of_move hmove
    have hbytes := stage_bytes hleads
    have htext : draft ≠ .text := by
      rintro rfl
      cases hleads
    have hnext : draft.stage b next ≠ .text := stage_ne_text hleads
    refine ⟨start, ?_, ?_⟩
    · rw [placeAt, if_neg htext, if_neg hnext, stage_state hleads]
    · show start + (draft.stage b next).bytes.length = _
      rw [hbytes, List.length_append]
      rfl

theorem follow_run (draft : Draft) (start : Nat) (rest : Bytes) :
    ∃ last, (rest.zipIdx (start + draft.bytes.length)).foldl follow (draft.placeAt start) =
        (draft.run rest).1.placeAt last ∧
      last + (draft.run rest).1.bytes.length = start + draft.bytes.length + rest.length := by
  induction rest generalizing draft start with
  | nil => exact ⟨start, rfl, rfl⟩
  | cons b rest ih =>
    obtain ⟨next, hstep, hlength⟩ := follow_step draft start b
    obtain ⟨last, hrun, hlast⟩ := ih (draft.step b).1 next
    refine ⟨last, ?_, ?_⟩
    · rw [List.zipIdx_cons, List.foldl_cons, hstep, ← hlength, hrun]
      rfl
    · rw [run_cons, hlast, hlength, List.length_cons]
      omega

theorem bytes_start {draft : Draft} (h : draft ≠ .text) : draft.bytes[0]? = some lessThan := by
  cases draft with
  | text => exact absurd rfl h
  | _ => rfl

theorem bracket_length (draft : Draft) : draft.bracket.length = draft.state.leftBehind := by
  cases draft with
  | inTag letters pieces tail => cases tail <;> rfl
  | _ => rfl

theorem drop_leftBehind (draft : Draft) : draft.bytes.drop draft.state.leftBehind = draft.kept := by
  rw [← bracket_append_kept, ← bracket_length, List.drop_left]

end Draft

/-! ## Sessions -/

/-- The books on a body that was finished. -/
structure Book where
  received : Bytes
  /-- The events, those that finishing the body gave among them. -/
  emitted : List Event

/-- Every byte that was received was told, tags and text in order. -/
def Book.Told (book : Book) : Prop :=
  ∃ tokens : List Token, (∀ token ∈ tokens, token.Valid) ∧
    book.emitted = tokensEvents tokens ∧ book.received = tokensBytes tokens

/-- A scanner, and the books on it since it last began afresh. -/
structure Session where
  scanner : Scanner := .fresh
  /-- The bytes that it was fed. -/
  received : Bytes := []
  /-- The events that it gave. -/
  emitted : List Event := []
  /-- The books that were closed, oldest first. -/
  closed : List Book := []

namespace Session

/-- Do what is asked, and keep the books.  Those on a body that is finished are closed, with
what finishing it gave.  Those on a body that is given up are thrown away, and anything
given at that point would be on the books of the next. -/
def call? (session : Session) (call : Scanner.Call) : Option Session := do
  let (after, events) ← session.scanner.call? call
  match call with
  | .feed chunk =>
    some ⟨after, session.received ++ chunk, session.emitted ++ events, session.closed⟩
  | .finish =>
    some ⟨after, [], [], session.closed ++ [⟨session.received, session.emitted ++ events⟩]⟩
  | .reset => some ⟨after, [], events, session.closed⟩

/-- The books agree with the scanner. -/
structure Balanced (session : Session) : Prop where
  carry : session.scanner.state = .text ↔ session.scanner.carry = none
  staging : session.scanner.state = .text ↔ session.scanner.staging.bytes = #[]
  told : ∃ tokens : List Token, (∀ token ∈ tokens, token.Valid) ∧
    session.emitted = tokensEvents tokens ∧
    session.received = tokensBytes tokens ++ session.scanner.staging.bytes.toList
  inHand : session.scanner.state ≠ .text → ∃ start,
    place session.received = (session.scanner.state, some start) ∧
    session.received[start]? = some lessThan ∧
    session.scanner.staging.bytes.toList = session.received.drop start ∧
    session.scanner.carry =
      some ⟨(session.received.drop start).drop session.scanner.state.leftBehind⟩
  /-- Of a body that was finished nothing is left over. -/
  closed : ∀ book ∈ session.closed, book.Told

/-- The scanner has in hand what the input leaves in hand, and the events are those of
tokens. -/
structure Kept (session : Session) : Prop where
  ready : session.scanner.Ready (Draft.text.run session.received).1
  told : ∃ tokens : List Token, (∀ token ∈ tokens, token.Valid) ∧
    session.emitted = tokensEvents tokens ∧
    session.received = tokensBytes tokens ++ (Draft.text.run session.received).1.bytes
  closed : ∀ book ∈ session.closed, book.Told

theorem kept_of_ready {scanner : Scanner} (ready : scanner.Ready .text) {closed : List Book}
    (hclosed : ∀ book ∈ closed, book.Told) : Kept ⟨scanner, [], [], closed⟩ :=
  ⟨ready, ⟨[], by simp, rfl, rfl⟩, hclosed⟩

theorem kept_new : Kept {} :=
  kept_of_ready Scanner.fresh_ready (List.forall_mem_nil _)

/-- What is in hand at the end is told as text, and then nothing is left over. -/
theorem Kept.told_finish {session : Session} (kept : session.Kept) :
    Book.Told ⟨session.received, session.emitted ++ session.scanner.finish.2⟩ := by
  obtain ⟨tokens, hvalid, hemitted, hreceived⟩ := kept.told
  have hfinish : session.scanner.finish.2 =
      tokensEvents (Draft.text.run session.received).1.release :=
    Scanner.release_of_holds kept.ready.holds
  refine ⟨tokens ++ (Draft.text.run session.received).1.release,
    List.forall_mem_append.mpr ⟨hvalid, Draft.release_valid _⟩, ?_, ?_⟩
  · rw [tokensEvents_append, ← hemitted, ← hfinish]
  · rw [tokensBytes_append, Draft.tokensBytes_release]
    exact hreceived

theorem exists_kept_call {session : Session} (kept : session.Kept) (call : Scanner.Call) :
    ∃ next, session.call? call = some next ∧ next.Kept := by
  cases call with
  | finish =>
    have hclosed : ∀ book ∈ session.closed ++
        [⟨session.received, session.emitted ++ session.scanner.finish.2⟩], book.Told :=
      List.forall_mem_append.mpr ⟨kept.closed, List.forall_mem_singleton.mpr kept.told_finish⟩
    exact ⟨_, rfl, kept_of_ready session.scanner.finish_ready hclosed⟩
  | reset => exact ⟨_, rfl, kept_of_ready Scanner.fresh_ready kept.closed⟩
  | feed chunk =>
    obtain ⟨after, hfeed, hafter⟩ := Scanner.feed?_ready kept.ready chunk
    obtain ⟨tokens, hvalid, hemitted, hreceived⟩ := kept.told
    obtain ⟨-, hread⟩ := Draft.run_valid kept.ready.valid chunk
    obtain ⟨joined, hjoined, hbytes, hevents⟩ := exists_joined hread
    have hrun := Draft.run_append .text session.received chunk
    have hconserved := Draft.run_bytes (Draft.text.run session.received).1 chunk
    refine ⟨⟨after, session.received ++ chunk, session.emitted ++ tokensEvents joined,
      session.closed⟩, ?_, ?_, ?_, kept.closed⟩
    · rw [call?]
      simp only [Scanner.call?, hfeed, hevents, Option.bind_eq_bind, Option.bind_some]
    · show after.Ready (Draft.text.run (session.received ++ chunk)).1
      rw [hrun]
      exact hafter
    · refine ⟨tokens ++ joined, List.forall_mem_append.mpr ⟨hvalid, hjoined⟩, ?_, ?_⟩
      · rw [tokensEvents_append, hemitted]
      · show session.received ++ chunk = _
        rw [hrun, tokensBytes_append, hbytes, List.append_assoc, hconserved, ← List.append_assoc,
          ← hreceived]

theorem exists_kept {session : Session} (kept : session.Kept) (calls : List Scanner.Call) :
    ∃ last, calls.foldlM call? session = some last ∧ last.Kept := by
  induction calls generalizing session with
  | nil => exact ⟨session, rfl, kept⟩
  | cons call calls ih =>
    obtain ⟨next, hcall, hnext⟩ := exists_kept_call kept call
    obtain ⟨last, hcalls, hlast⟩ := ih hnext
    refine ⟨last, ?_, hlast⟩
    rw [List.foldlM_cons, hcall]
    exact hcalls

/-- What is kept balances the books. -/
theorem Kept.balanced {session : Session} (kept : session.Kept) : session.Balanced := by
  obtain ⟨⟨hstate, hstaging, -, -⟩, hvalid, hcarry⟩ := kept.ready
  have hiff : session.scanner.state = .text ↔ (Draft.text.run session.received).1 = .text := by
    rw [hstate]
    exact Draft.state_eq_text_iff
  refine ⟨?_, ?_, ?_, ?_, kept.closed⟩
  · rw [hiff, hcarry]
    split
    · rename_i h
      exact iff_of_true h rfl
    · rename_i h
      exact iff_of_false h (by simp)
  · rw [hiff, ← Draft.bytes_eq_nil_iff, ← hstaging, Array.toList_eq_nil_iff]
  · rw [hstaging]
    exact kept.told
  · intro hne
    have htext := fun h => hne (hiff.mpr h)
    obtain ⟨start, hplace, hlength⟩ := Draft.follow_run .text 0 session.received
    obtain ⟨tokens, -, -, hreceived⟩ := kept.told
    have hstart : start = (tokensBytes tokens).length := by
      have hend : start + (Draft.text.run session.received).1.bytes.length =
        0 + 0 + session.received.length := hlength
      have htotal := congrArg List.length hreceived
      rw [List.length_append] at htotal
      omega
    have hdrop : session.received.drop start = (Draft.text.run session.received).1.bytes := by
      have hback := congrArg (List.drop start) hreceived
      rw [hback, hstart, List.drop_left]
    refine ⟨start, ?_, ?_, ?_, ?_⟩
    · rw [hstate]
      exact hplace.trans (by rw [Draft.placeAt, if_neg htext])
    · rw [← Nat.add_zero start, ← List.getElem?_drop, hdrop]
      exact Draft.bytes_start htext
    · rw [hstaging, hdrop]
    · rw [hcarry, if_neg htext, hdrop, hstate, Draft.drop_leftBehind]

/-- After any calls on a new scanner, all of which have an answer, the books agree, those that
are closed and those that are not. -/
theorem exists_balanced (calls : List Scanner.Call) :
    ∃ session, calls.foldlM call? ({} : Session) = some session ∧ session.Balanced := by
  obtain ⟨last, hcalls, hlast⟩ := exists_kept kept_new calls
  exact ⟨last, hcalls, hlast.balanced⟩

end Session
end Scan
end EdgeIncludes
