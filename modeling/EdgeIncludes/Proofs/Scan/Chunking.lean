/-
Where a body is cut does not show.

Between two calls the scanner has a draft in hand and nothing else (`Ready`), and every call
does to it what it does to the draft (`call?_ready`): a chunk is read whether it is searched
first, scanned on its own or put behind bytes that were carried, and each of the three
reads it as the draft does, byte by byte.  A draft does not know about chunks, and so calls
that feed the same bytes end in the same state with the same events.
-/
import EdgeIncludes.Proofs.Scan.Reading
import EdgeIncludes.Proofs.Scan.Search

namespace EdgeIncludes
namespace Markup

/-- Between other tokens the token is read as what it is. -/
def Token.IsClear : Token → Prop
  | .text bytes => Ascii.lessThan ∉ bytes
  | .tag lexeme => lexeme.Valid

end Markup

namespace Scan

open Markup Event

/-! ## Calls on a draft -/

namespace Draft

theorem run_tokens {tokens : List Token} (h : ∀ token ∈ tokens, token.IsClear) :
    ∃ read, text.run (tokensBytes tokens) = (text, read) ∧
      coalesce (tokensEvents read) = coalesce (tokensEvents tokens) := by
  induction tokens with
  | nil => exact ⟨[], rfl, rfl⟩
  | cons token tokens ih =>
    obtain ⟨htoken, htokens⟩ := List.forall_mem_cons.mp h
    obtain ⟨read, hread, hevents⟩ := ih htokens
    cases token with
    | tag lexeme =>
      refine ⟨.tag lexeme :: read, ?_, coalesce_append_left lexeme.events hevents⟩
      rw [tokensBytes_cons, Token.written, run_append, run_written htoken, hread]
      rfl
    | text bytes =>
      refine ⟨(bytes.map fun b => .text [b]) ++ read, ?_, ?_⟩
      · rw [tokensBytes_cons, Token.written, run_append, run_text htoken, hread]
      · rw [tokensEvents_append, coalesce_bytes]
        exact coalesce_append_left [.output bytes] hevents

def call (draft : Draft) : Scanner.Call → Draft × List Token
  | .feed chunk => draft.run chunk
  | .finish => (text, draft.release)
  | .reset => (text, [])

def calls (draft : Draft) : List Scanner.Call → Draft × List Token
  | [] => (draft, [])
  | first :: rest =>
    let (next, tokens) := draft.call first
    let (last, more) := next.calls rest
    (last, tokens ++ more)

theorem calls_cons (draft : Draft) (first : Scanner.Call) (rest : List Scanner.Call) :
    draft.calls (first :: rest) =
      (((draft.call first).1.calls rest).1,
        (draft.call first).2 ++ ((draft.call first).1.calls rest).2) := rfl

theorem calls_append (draft : Draft) (front rest : List Scanner.Call) :
    draft.calls (front ++ rest) =
      (((draft.calls front).1.calls rest).1,
        (draft.calls front).2 ++ ((draft.calls front).1.calls rest).2) := by
  induction front generalizing draft with
  | nil => rfl
  | cons first front ih => rw [List.cons_append, calls_cons, ih, calls_cons, List.append_assoc]

/-- Chunks are read as the bytes that they are cut from. -/
theorem calls_feed (draft : Draft) (chunks : List Bytes) :
    draft.calls (chunks.map .feed) = draft.run chunks.flatten := by
  induction chunks generalizing draft with
  | nil => rfl
  | cons chunk chunks ih =>
    rw [List.map_cons, calls_cons, call, ih, List.flatten_cons, run_append]

end Draft

/-! ## Calls on a scanner -/

namespace Scanner

/-- The scanner and the events after calls, if all of them have an answer. -/
def run? (scanner : Scanner) : List Call → Option (Scanner × List Event)
  | [] => some (scanner, [])
  | first :: rest => do
    let (next, events) ← scanner.call? first
    let (last, more) ← next.run? rest
    some (last, events ++ more)

/-- What shows of calls on a new scanner: the state it is in after them, and the events in
their normal form. -/
def observed? (calls : List Call) : Option (State × List Event) :=
  (fresh.run? calls).map fun (last, events) => (last.state, coalesce events)

/-- Between two calls the scanner has the draft in hand, and it carries the kept bytes of
the draft. -/
structure Ready (scanner : Scanner) (draft : Draft) : Prop where
  holds : scanner.Holds draft 0
  valid : draft.Valid
  carry : scanner.carry = if draft = .text then none else some ⟨draft.kept⟩

theorem fresh_ready : fresh.Ready .text :=
  ⟨⟨rfl, rfl, rfl, rfl⟩, trivial, rfl⟩

theorem scan?_retain? {scanner : Scanner} {draft : Draft} {before : Bytes}
    (held : scanner.Holds draft before.length) (hv : draft.Valid) (rest : Bytes) :
    ∃ after kept,
      scanner.scan? (before ++ draft.kept ++ rest) (before ++ draft.kept).length rest =
        some (after, tokensEvents (draft.run rest).2) ∧
      after.retain? (before ++ draft.kept ++ rest) = some kept ∧
      kept.Ready (draft.run rest).1 := by
  obtain ⟨after, front, hscan, hafter, hbuffer⟩ := scan?_holds held hv rest
  obtain ⟨kept, hretain, hkept, hcarry⟩ := retain?_holds hafter
  exact ⟨after, kept, hscan, hbuffer ▸ hretain, hkept, (Draft.run_valid hv rest).1, hcarry⟩

theorem feed?_text {scanner : Scanner} (ready : scanner.Ready .text) (chunk : Bytes) :
    ∃ after,
      scanner.feed? chunk = some (after, coalesce (tokensEvents (Draft.text.run chunk).2)) ∧
      after.Ready (Draft.text.run chunk).1 := by
  have hcarry : scanner.carry = none := ready.carry
  have hdoomed : Draft.text.Doomed chunk := trivial
  obtain ⟨hlast, hevents⟩ := Draft.run_of_doomed hdoomed
  have hle := skipped_le chunk
  rw [feed?, hcarry, hlast, hevents]
  cases hstart : tagStart? chunk with
  | none =>
    have hskip : skipped chunk = chunk.length := by rw [skipped, hstart, Option.getD_none]
    rw [hskip, List.drop_length, List.take_length]
    exact ⟨scanner, rfl, ready⟩
  | some offset =>
    have hskip : skipped chunk = offset := by rw [skipped, hstart, Option.getD_some]
    rw [hskip] at hle ⊢
    have held : scanner.Holds .text (chunk.take offset).length :=
      ⟨ready.holds.state, ready.holds.staging, ready.holds.cursors, ready.holds.attributes⟩
    have hfront : chunk.take offset ++ Draft.text.kept = chunk.take offset := List.append_nil _
    obtain ⟨after, kept, hscan, hretain, hkept⟩ := scan?_retain? held trivial (chunk.drop offset)
    rw [hfront, List.take_append_drop, List.length_take, Nat.min_eq_left hle] at hscan
    rw [hfront, List.take_append_drop] at hretain
    simp only [Option.bind_eq_bind, hscan, Option.bind_some, hretain]
    exact ⟨kept, rfl, hkept⟩

theorem feed?_inTag {scanner : Scanner} {draft : Draft} (ready : scanner.Ready draft)
    (hdraft : draft ≠ .text) (chunk : Bytes) :
    ∃ after,
      scanner.feed? chunk = some (after, coalesce (tokensEvents (draft.run chunk).2)) ∧
      after.Ready (draft.run chunk).1 := by
  have hcarry : scanner.carry = some ⟨draft.kept⟩ := by rw [ready.carry, if_neg hdraft]
  have held : scanner.Holds draft ([] : Bytes).length := ready.holds
  obtain ⟨after, kept, hscan, hretain, hkept⟩ := scan?_retain? held ready.valid chunk
  rw [List.nil_append] at hscan hretain
  rw [feed?, hcarry]
  simp only [Carry.append, Carry.resumeAt, Option.bind_eq_bind, hscan, Option.bind_some, hretain]
  exact ⟨kept, rfl, hkept⟩

theorem feed?_ready {scanner : Scanner} {draft : Draft} (ready : scanner.Ready draft)
    (chunk : Bytes) :
    ∃ after,
      scanner.feed? chunk = some (after, coalesce (tokensEvents (draft.run chunk).2)) ∧
      after.Ready (draft.run chunk).1 := by
  by_cases hdraft : draft = .text
  · subst hdraft
    exact feed?_text ready chunk
  · exact feed?_inTag ready hdraft chunk

theorem finish_ready (scanner : Scanner) : scanner.finish.1.Ready .text :=
  ⟨⟨rfl, rfl, rfl, rfl⟩, trivial, rfl⟩

/-- Every call has an answer, and it is the one that the draft gives. -/
theorem call?_ready {scanner : Scanner} {draft : Draft} (ready : scanner.Ready draft)
    (call : Call) :
    ∃ after events,
      scanner.call? call = some (after, events) ∧
      coalesce events = coalesce (tokensEvents (draft.call call).2) ∧
      after.Ready (draft.call call).1 := by
  cases call with
  | feed chunk =>
    obtain ⟨after, hfeed, hafter⟩ := feed?_ready ready chunk
    exact ⟨after, _, hfeed, coalesce_coalesce _, hafter⟩
  | finish =>
    refine ⟨scanner.finish.1, scanner.finish.2, rfl, ?_, finish_ready scanner⟩
    rw [finish, release_of_holds ready.holds]
    rfl
  | reset => exact ⟨fresh, [], rfl, rfl, fresh_ready⟩

theorem run?_ready {scanner : Scanner} {draft : Draft} (ready : scanner.Ready draft)
    (calls : List Call) :
    ∃ after events,
      scanner.run? calls = some (after, events) ∧
      coalesce events = coalesce (tokensEvents (draft.calls calls).2) ∧
      after.Ready (draft.calls calls).1 := by
  induction calls generalizing scanner draft with
  | nil => exact ⟨scanner, [], rfl, rfl, ready⟩
  | cons call calls ih =>
    obtain ⟨next, events, hcall, hevents, hnext⟩ := call?_ready ready call
    obtain ⟨last, more, hrun, hmore, hlast⟩ := ih hnext
    refine ⟨last, events ++ more, ?_, ?_, hlast⟩
    · rw [run?, hcall]
      simp only [Option.bind_eq_bind, Option.bind_some, hrun]
    · rw [Draft.calls_cons, tokensEvents_append, coalesce_append_right hevents,
        coalesce_append_left _ hmore]

theorem feedAll_ready {scanner : Scanner} {draft : Draft} (ready : scanner.Ready draft)
    (chunks : List Bytes) :
    coalesce (scanner.feedAll chunks).2 = coalesce (tokensEvents (draft.run chunks.flatten).2) ∧
      (scanner.feedAll chunks).1.Ready (draft.run chunks.flatten).1 := by
  induction chunks generalizing scanner draft with
  | nil => exact ⟨rfl, ready⟩
  | cons chunk chunks ih =>
    obtain ⟨next, hfeed?, hnext⟩ := feed?_ready ready chunk
    obtain ⟨hevents, hlast⟩ := ih hnext
    have hfeed : scanner.feed chunk =
        (next, coalesce (tokensEvents (draft.run chunk).2)) := by
      rw [feed, hfeed?, Option.getD_some]
    rw [feedAll, hfeed, List.flatten_cons, Draft.run_append]
    refine ⟨?_, hlast⟩
    rw [tokensEvents_append, coalesce_append_left _ hevents,
      coalesce_append_right (coalesce_coalesce _)]

/-- The events of a body are those of what a draft reads in it, cuts or no cuts. -/
theorem events_eq (body : List Bytes) :
    events body = coalesce (tokensEvents
      ((Draft.text.run body.flatten).2 ++ (Draft.text.run body.flatten).1.release)) := by
  obtain ⟨hevents, hready⟩ := feedAll_ready fresh_ready body
  show coalesce ((fresh.feedAll body).2 ++ (fresh.feedAll body).1.finish.2) = _
  rw [finish, release_of_holds hready.holds, coalesce_append_right hevents,
    ← tokensEvents_append]

theorem observed?_eq (calls : List Call) :
    observed? calls = some ((Draft.text.calls calls).1.state,
      coalesce (tokensEvents (Draft.text.calls calls).2)) := by
  obtain ⟨last, events, hrun, hevents, hlast⟩ := run?_ready fresh_ready calls
  rw [observed?, hrun, ← hevents, ← hlast.holds.state]
  rfl

/-- Tokens that are clear are told as what they are, however their bytes are cut, and nothing
is in hand after them. -/
theorem observed?_tokens {tokens : List Token} (h : ∀ token ∈ tokens, token.IsClear)
    {chunks : List Bytes} (hchunks : chunks.flatten = tokensBytes tokens) {ending : List Call}
    (hending : ending = [] ∨ ending = [.finish]) :
    observed? (chunks.map .feed ++ ending) = some (.text, coalesce (tokensEvents tokens)) := by
  obtain ⟨read, hread, hevents⟩ := Draft.run_tokens h
  rw [observed?_eq, Draft.calls_append, Draft.calls_feed, hchunks, hread]
  rcases hending with rfl | rfl
  · rw [← hevents]
    simp only [Draft.calls, List.append_nil]
    rfl
  · rw [← hevents, Draft.calls_cons]
    simp only [Draft.call, Draft.calls, List.append_nil]
    rw [show Draft.text.release = [] from rfl, List.append_nil]
    rfl

/-- However a part of the body is cut, and whatever is asked of the scanner before and
after, every call has an answer and the cuts do not show. -/
theorem observed?_feed_chunks (before : List Call) (chunks : List Bytes) (after : List Call) :
    observed? (before ++ chunks.map .feed ++ after) =
        observed? (before ++ .feed chunks.flatten :: after) ∧
      (observed? (before ++ .feed chunks.flatten :: after)).isSome := by
  have hcut : ∀ draft : Draft, draft.calls (chunks.map .feed ++ after) =
      draft.calls (.feed chunks.flatten :: after) := by
    intro draft
    rw [Draft.calls_append, Draft.calls_feed, Draft.calls_cons]
    rfl
  rw [List.append_assoc, observed?_eq, observed?_eq, Draft.calls_append, hcut,
    ← Draft.calls_append]
  exact ⟨rfl, rfl⟩

end Scanner
end Scan
end EdgeIncludes
