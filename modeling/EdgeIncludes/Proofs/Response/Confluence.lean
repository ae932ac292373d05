/-
The page does not depend on the order of the answers.

Which token a fetch gets, and when it is answered, is up to the host, and the answer to one fetch
can set another on its way.  None of that shows in the page: once all that was asked for is
answered, the page is what the outcomes of the fetches make of the document
(`Stream.pages_eq_of_realises`), and so two streams whose fetches have the same outcomes write
the same page (`Stream.page_of_any_order`).
-/
import EdgeIncludes.Proofs.Page.Canonical
import EdgeIncludes.Proofs.Response.Discipline
import EdgeIncludes.Proofs.Response.Outcomes

namespace EdgeIncludes
namespace Response

/-! ## Pages -/

/-- The page that the effect puts in the place of the body. -/
def Effect.page? : Effect → Option Bytes
  | .replacesBody _ page => some page
  | _ => none

def pagesOf (effects : List Effect) : List Bytes :=
  effects.filterMap Effect.page?

/-- The pages that the steps put in the place of the body. -/
def pages (steps : List Step) : List Bytes :=
  pagesOf (effects steps)

theorem pagesOf_append (front back : List Effect) :
    pagesOf (front ++ back) = pagesOf front ++ pagesOf back :=
  List.filterMap_append

theorem pages_snoc (earlier : List Step) (step : Step) :
    pages (earlier ++ [step]) = pages earlier ++ pagesOf step.turn.effects := by
  rw [pages, effects_snoc, pagesOf_append, pages]

theorem pagesOf_of_aside {effects : List Effect} (h : ∀ effect ∈ effects, effect.isAside) :
    pagesOf effects = [] := by
  refine List.filterMap_eq_nil_iff.mpr fun effect hmem => ?_
  have haside := h effect hmem
  cases effect with
  | replacesBody size page => cases haside
  | _ => rfl

theorem pagesOf_of_handles {stream : Stream} {effects : List Effect}
    (h : ∀ effect ∈ effects, stream.Handles effect) : pagesOf effects = [] := by
  refine List.filterMap_eq_nil_iff.mpr fun effect hmem => ?_
  cases h effect hmem <;> rfl

/-! ## Histories that agree with outcomes -/

instance (outcomes : Outcomes) : ∀ effect : Effect, Decidable (effect.Agrees outcomes)
  | .asks request (.accepted _) => inferInstanceAs (Decidable (outcomes request.fetch ≠ .unsent))
  | .asks request (.denied _) => inferInstanceAs (Decidable (outcomes request.fetch = .unsent))
  | .installed _ | .rejected _ | .tells .. | .building _ | .records .. | .removesHeader _
  | .replacesBody .. | .resumes => isTrue trivial

/-- What the host does agrees with the outcomes: it takes a fetch or does not, and it answers one
that is on its way as its outcome says.  Other answers can be anything. -/
def Told (outcomes : Outcomes) (ledger : Ledger) : Moment → Prop
  | .called (.answered token status fragment _) =>
    ∀ fetch ∈ ledger.inFlight.lookup token,
      outcomes fetch = if Ledger.isSuccess status then .fetched fragment else .failed
  | .called _ => True
  | .did effect => effect.Agrees outcomes

instance (outcomes : Outcomes) (ledger : Ledger) :
    ∀ moment : Moment, Decidable (Told outcomes ledger moment)
  | .called (.answered token status fragment _) => inferInstanceAs (Decidable
      (∀ fetch ∈ ledger.inFlight.lookup token,
        outcomes fetch = if Ledger.isSuccess status then .fetched fragment else .failed))
  | .called (.requestHeaders _) | .called (.responseHeaders _) | .called (.body ..)
  | .called .finished => isTrue trivial
  | .did effect => inferInstanceAs (Decidable (effect.Agrees outcomes))

/-- The step agrees with the outcomes, also in which addresses are of no use to it. -/
def Step.Plays (step : Step) (document : Page.Document) (outcomes : Outcomes) (ledger : Ledger) :
    Prop :=
  Follows (Told outcomes) ledger step.moments ∧
    (step.completes || step.answers ledger → step.before.ResolvesAll outcomes document)

instance (stream : Stream) (outcomes : Outcomes) (document : Page.Document) :
    Decidable (stream.ResolvesAll outcomes document) :=
  inferInstanceAs (Decidable (∀ slot ∈ document.pending, ∀ included ∈ document.request? slot,
    ∀ viaAlt, stream.refuses included viaAlt → outcomes ⟨slot, viaAlt⟩ = .unsent))

instance (step : Step) (document : Page.Document) (outcomes : Outcomes) (ledger : Ledger) :
    Decidable (step.Plays document outcomes ledger) :=
  inferInstanceAs (Decidable (_ ∧ (_ → _)))

/-- Each of the steps agrees with the outcomes. -/
def Plays (document : Page.Document) (outcomes : Outcomes) (ledger : Ledger) : List Step → Prop
  | [] => True
  | step :: rest =>
    step.Plays document outcomes ledger ∧
      Plays document outcomes (ledger.noteAll step.moments) rest

instance Plays.decidable (document : Page.Document) (outcomes : Outcomes) :
    ∀ (ledger : Ledger) (steps : List Step), Decidable (Plays document outcomes ledger steps)
  | _, [] => isTrue trivial
  | ledger, step :: rest =>
    have : Decidable (Plays document outcomes (ledger.noteAll step.moments) rest) :=
      Plays.decidable document outcomes (ledger.noteAll step.moments) rest
    inferInstanceAs (Decidable (step.Plays document outcomes ledger ∧
      Plays document outcomes (ledger.noteAll step.moments) rest))

theorem plays_append {document : Page.Document} {outcomes : Outcomes} {ledger : Ledger}
    {front back : List Step} :
    Plays document outcomes ledger (front ++ back) ↔
      Plays document outcomes ledger front ∧
        Plays document outcomes (ledger.noteAll (moments front)) back := by
  induction front generalizing ledger with
  | nil => exact (iff_of_eq (true_and _)).symm
  | cons step front ih =>
    have hmoments : moments (step :: front) = step.moments ++ moments front := rfl
    rw [List.cons_append, Plays, Plays, ih, hmoments, Ledger.noteAll_append, and_assoc]

/-- In the history the document is completed and no other, the host gives no token twice before it
was answered, and everything agrees with the outcomes. -/
structure Realises (document : Page.Document) (outcomes : Outcomes) (history : List Step) :
    Prop where
  only : documents history = [document]
  fresh : Follows Fresh {} (moments history)
  plays : Plays document outcomes {} history

/-- The page that the outcomes make of a document. -/
def pageOf (document : Page.Document) (outcomes : Outcomes) : Bytes :=
  document.render (fragmentOf? document outcomes)

/-! ## Steps -/

section Steps

variable {document : Page.Document} {outcomes : Outcomes} {ledger : Ledger} {step : Step}

/-- When something is done about fragments, the page is put in its place if nothing is on its way
then, and it is the one that the outcomes make. -/
theorem Step.Concludes.pages {seen rest : List Effect} {assembly : Assembly}
    (h : step.Concludes seen rest assembly) (hseen : pagesOf seen = [])
    (hserves : Serves document (ledger.noteAll (.called step.call :: seen.map .did)) assembly)
    (hstocks : Stocks document outcomes
      (ledger.noteAll (.called step.call :: seen.map .did)).inFlight assembly.fragments) :
    (pagesOf step.turn.effects =
        if (ledger.noteAll step.moments).inFlight = [] then [pageOf document outcomes] else []) ∧
      ∀ other, step.turn.stream.assembly = some other →
        Stocks document outcomes (ledger.noteAll step.moments).inFlight other.fragments := by
  rw [h.moments_eq, h.effects_eq, Ledger.noteAll_append, pagesOf_append, hseen, List.nil_append]
  generalize ledger.noteAll (.called step.call :: seen.map .did) = seenLedger at hserves hstocks ⊢
  cases hdone : assembly.isDone with
  | true =>
    obtain ⟨hassembly, aside, haside, rfl⟩ := h.done hdone
    have hflight := hserves.tied.isDone_iff.mp hdone
    have hnote : seenLedger.noteAll ((step.before.finale assembly).map .did) = seenLedger := rfl
    have hpage : assembly.render = pageOf document outcomes := by
      rw [hflight] at hstocks
      rw [Assembly.render, hserves.document_eq]
      exact hstocks.render_eq
    rw [List.map_append, Ledger.noteAll_append, hnote, noteAll_of_aside haside, pagesOf_append,
      pagesOf_of_aside haside, if_pos hflight]
    refine ⟨congrArg (fun page => [page]) hpage, fun other hother => ?_⟩
    rw [hassembly] at hother
    cases hother
  | false =>
    obtain ⟨hassembly, haside⟩ := h.waits hdone
    have hflight : seenLedger.inFlight ≠ [] := fun hempty =>
      Bool.eq_false_iff.mp hdone (hserves.tied.isDone_iff.mpr hempty)
    rw [noteAll_of_aside haside, pagesOf_of_aside haside, if_neg hflight]
    refine ⟨rfl, fun other hother => ?_⟩
    rw [hassembly] at hother
    exact Option.some.inj hother ▸ hstocks

theorem agrees_of_told {effects : List Effect}
    (h : Follows (Told outcomes) ledger (effects.map .did)) :
    ∀ effect ∈ effects, effect.Agrees outcomes := by
  induction effects generalizing ledger with
  | nil => exact List.forall_mem_nil _
  | cons effect rest ih => exact List.forall_mem_cons.mpr ⟨h.1, ih h.2⟩

/-- The step that completes the document. -/
theorem pages_of_begins (hdocument : step.document? = some document)
    (hassembly : step.before.assembly = none)
    (hrequests : ∀ slot ∈ document.pending, (document.request? slot).isSome)
    (hfresh : Follows Fresh {} step.moments) (hplays : step.Plays document outcomes {}) :
    (pagesOf step.turn.effects = if (Ledger.noteAll {} step.moments).inFlight = [] then
        [pageOf document outcomes] else []) ∧
      ∀ assembly, step.turn.stream.assembly = some assembly →
        Stocks document outcomes (Ledger.noteAll {} step.moments).inFlight assembly.fragments := by
  obtain ⟨stream, said, effects, rest, size, htarget, hsaid, hall, hconcludes⟩ :=
    Step.concludes_of_document? hdocument hassembly
  have hcompletes : step.completes = true := by
    rw [Step.completes, hdocument]
    rfl
  have hresolves : stream.ResolvesAll outcomes document := by
    have hbefore := hplays.2 (by rw [hcompletes]; rfl)
    intro slot hslot included hincluded viaAlt hrefuses
    refine hbefore slot hslot included hincluded viaAlt ?_
    rwa [Stream.refuses, ← htarget]
  have htold := hplays.1
  rw [hconcludes.moments_eq] at hfresh htold
  have hasked := follows_first hsaid (follows_append.mp hfresh).1
  have hagrees := agrees_of_told (follows_first hsaid (follows_append.mp htold).1)
  obtain ⟨-, -, hserves⟩ := Sees.begins hall hrequests hasked size
  have hstocks := Stocks.begins hall hasked hagrees hresolves
  obtain ⟨outstanding, hfollow⟩ :=
    Assembly.exists_followAll_eq { document, bodySize := size } effects
  have hempty : (Assembly.followAll { document, bodySize := size } effects).fragments = {} := by
    rw [hfollow]
  rw [← hempty] at hstocks
  rw [← noteAll_first hsaid] at hserves hstocks
  refine hconcludes.pages ?_ hserves hstocks
  rw [pagesOf_append, pagesOf_of_aside hsaid, pagesOf_of_handles hall.handles]
  rfl

/-- A later step that answers a fetch on its way. -/
theorem pages_of_answers {earlier : Ledger} (h : Attends document earlier step.before)
    (hstocks : ∀ assembly, step.before.assembly = some assembly →
      Stocks document outcomes earlier.inFlight assembly.fragments)
    (hrequests : ∀ slot ∈ document.pending, (document.request? slot).isSome)
    (hanswers : step.answers earlier) (hfresh : Follows Fresh earlier step.moments)
    (hplays : step.Plays document outcomes earlier) :
    (pagesOf step.turn.effects = if (earlier.noteAll step.moments).inFlight = [] then
        [pageOf document outcomes] else []) ∧
      ∀ assembly, step.turn.stream.assembly = some assembly →
        Stocks document outcomes (earlier.noteAll step.moments).inFlight assembly.fragments := by
  have hresolves := hplays.2 (by rw [hanswers, Bool.or_true])
  have htold := hplays.1
  obtain ⟨stream, call⟩ := step
  cases call with
  | answered token status fragment replies =>
    obtain ⟨⟨slot, viaAlt⟩, hlookup⟩ : ∃ fetch, earlier.inFlight.lookup token = some fetch :=
      Option.isSome_iff_exists.mp hanswers
    obtain ⟨assembly, hassembly, hserves, hfetch⟩ := h.exists_assembly hlookup
    obtain ⟨effects, rest, after, hdone, hconcludes⟩ :=
      Stream.concludes_of_answered hassembly hfetch status fragment replies
    rw [hconcludes.moments_eq] at hfresh htold
    have hasked := (follows_append.mp hfresh).1.2
    obtain ⟨houtcome, hlater⟩ := (follows_append.mp htold).1
    obtain ⟨-, -, hafter⟩ := h.sees.answers hserves hrequests hlookup hdone hasked
    exact hconcludes.pages (pagesOf_of_handles hdone.handles) hafter
      ((hstocks assembly hassembly).answers h.sees hserves hrequests hlookup hdone hasked
        (houtcome _ hlookup) (agrees_of_told hlater) hresolves)
  | _ => cases hanswers

end Steps

/-! ## Runs -/

/-- How far the stream has come with its page. -/
structure Draws (document : Page.Document) (outcomes : Outcomes) (earlier : List Step)
    (stream : Stream) : Prop where
  comes : Comes document earlier stream
  unwritten : documents earlier = [] → pages earlier = []
  written : documents earlier ≠ [] → pages earlier =
    if (ledgerOf earlier).inFlight = [] then [pageOf document outcomes] else []
  stocks : ∀ assembly, stream.assembly = some assembly →
    Stocks document outcomes (ledgerOf earlier).inFlight assembly.fragments

namespace Draws

variable {document : Page.Document} {outcomes : Outcomes} {earlier : List Step} {stream : Stream}
  {call : Stream.Call}

/-- A step that has nothing to do with fragments. -/
theorem of_aside (h : Draws document outcomes earlier stream)
    (hgiven : Given document earlier ⟨stream, call⟩)
    (hdocument : Step.document? ⟨stream, call⟩ = none)
    (hanswers : Step.answers ⟨stream, call⟩ (ledgerOf earlier) = false)
    (htied : ∀ assembly, stream.assembly = some assembly →
      Tied assembly.outstanding (ledgerOf earlier).inFlight) :
    Draws document outcomes (earlier ++ [⟨stream, call⟩]) (stream.turn call).stream := by
  have hcompletes : Step.completes ⟨stream, call⟩ = false := by
    rw [Step.completes, hdocument]
    rfl
  obtain ⟨hcalled, haside, hassembly⟩ := Step.aside hcompletes hanswers htied
  have hledger : ledgerOf (earlier ++ [⟨stream, call⟩]) = ledgerOf earlier := by
    rw [ledgerOf_snoc]
    exact (Step.follows_of_aside hcalled haside document).2
  have hpages : pages (earlier ++ [⟨stream, call⟩]) = pages earlier := by
    rw [pages_snoc, pagesOf_of_aside haside, List.append_nil]
  have hdocuments : documents (earlier ++ [⟨stream, call⟩]) = documents earlier := by
    rw [documents_snoc, hdocument]
    exact List.append_nil _
  refine ⟨(h.comes.step hgiven).2, ?_, ?_, ?_⟩
  · rw [hdocuments, hpages]
    exact h.unwritten
  · rw [hdocuments, hpages, hledger]
    exact h.written
  · intro assembly hafter
    rw [hledger]
    exact h.stocks assembly (hassembly.symm.trans hafter)

theorem step (h : Draws document outcomes earlier stream)
    (hgiven : Given document earlier ⟨stream, call⟩)
    (hplays : Step.Plays ⟨stream, call⟩ document outcomes (ledgerOf earlier)) :
    Draws document outcomes (earlier ++ [⟨stream, call⟩]) (stream.turn call).stream := by
  have hcomes := (h.comes.step hgiven).2
  cases hdocument : Step.document? ⟨stream, call⟩ with
  | some other =>
    obtain ⟨hempty, rfl⟩ := hgiven.first hdocument
    obtain ⟨hledger, hassembly⟩ := h.comes.begins hempty
    have hfresh := hgiven.2
    rw [hledger] at hplays hfresh
    obtain ⟨hpages, hstocks⟩ := pages_of_begins hdocument hassembly
      (h.comes.requests hdocument) hfresh hplays
    refine ⟨hcomes, fun hnone => ?_, fun _ => ?_, ?_⟩
    · rw [documents_snoc, hdocument] at hnone
      exact absurd (List.append_eq_nil_iff.mp hnone).2 nofun
    · rw [pages_snoc, h.unwritten hempty, List.nil_append, ledgerOf_snoc, hledger]
      exact hpages
    · rw [ledgerOf_snoc, hledger]
      exact hstocks
  | none =>
    by_cases hempty : documents earlier = []
    · obtain ⟨hledger, hassembly⟩ := h.comes.begins hempty
      refine h.of_aside hgiven hdocument ?_ fun assembly hbefore => ?_
      · rw [hledger]
        cases call <;> rfl
      · rw [hassembly] at hbefore
        cases hbefore
    · obtain ⟨-, hrequests, hattends⟩ := h.comes.attends hempty
      cases hanswers : Step.answers ⟨stream, call⟩ (ledgerOf earlier) with
      | false =>
        exact h.of_aside hgiven hdocument hanswers fun assembly hbefore =>
          (hattends.serves assembly hbefore).tied
      | true =>
        obtain ⟨hpages, hstocks⟩ :=
          pages_of_answers hattends h.stocks hrequests hanswers hgiven.2 hplays
        -- a fetch is on its way, and so the page is not in its place yet
        have hflight : (ledgerOf earlier).inFlight ≠ [] := by
          intro hnone
          cases call <;> simp [Step.answers, hnone] at hanswers
        have hdocuments : documents (earlier ++ [⟨stream, call⟩]) = documents earlier := by
          rw [documents_snoc, hdocument]
          exact List.append_nil _
        refine ⟨hcomes, fun hnone => absurd (hdocuments.symm.trans hnone) hempty, fun _ => ?_, ?_⟩
        · rw [pages_snoc, h.written hempty, if_neg hflight, List.nil_append, ledgerOf_snoc]
          exact hpages
        · rw [ledgerOf_snoc]
          exact hstocks

end Draws

/-! ## The page -/

namespace Stream

variable {document : Page.Document} {outcomes : Outcomes}

/-- The page is put in the place of the body when all that was asked for is answered, and it is
what the outcomes make of the document. -/
theorem pages_eq_of_realises (number : Nat) (settings : Settings) {calls : List Call}
    (h : Realises document outcomes ((fresh number settings).steps calls)) :
    pages ((fresh number settings).steps calls) =
      if (ledgerOf ((fresh number settings).steps calls)).inFlight = [] then
        [pageOf document outcomes] else [] := by
  have hnew : Draws document outcomes [] (fresh number settings) :=
    ⟨.fresh document number settings, fun _ => rfl, fun hne => absurd rfl hne, nofun⟩
  have hgiven : ∀ front step back, (fresh number settings).steps calls = front ++ step :: back →
      Given document ([] ++ front) step ∧
        step.Plays document outcomes (ledgerOf ([] ++ front)) := by
    intro front step back hsplit
    refine ⟨.of_history h.only h.fresh hsplit, ?_⟩
    have hplays := h.plays
    rw [hsplit] at hplays
    exact (plays_append.mp hplays).2.1
  obtain ⟨hlast, -⟩ := steps_induction (Draws document outcomes)
    (fun earlier step => Given document earlier step ∧
      step.Plays document outcomes (ledgerOf earlier))
    (fun _ _ => True) (fun hdraws hstep => ⟨trivial, hdraws.step hstep.1 hstep.2⟩) hnew hgiven
  refine hlast.written ?_
  rw [List.nil_append, h.only]
  exact List.cons_ne_nil _ _

/-- Streams that complete the same document and whose fetches have the same outcomes put the same
page in the place of the body once all of their fetches are answered, in whatever order that
is: the document with the fragment in every slot that the source of the slot brings, or else
its replacement, and nothing in those for which neither does.  That page is what the bytes and
slots of the document come to, one after the other. -/
theorem page_of_any_order {number other : Nat} {settings changed : Settings}
    {calls reordered : List Call}
    (h : Realises document outcomes ((fresh number settings).steps calls))
    (hother : Realises document outcomes ((fresh other changed).steps reordered))
    (hanswered : (ledgerOf ((fresh number settings).steps calls)).inFlight = [])
    (hreordered : (ledgerOf ((fresh other changed).steps reordered)).inFlight = []) :
    pages ((fresh number settings).steps calls) = pages ((fresh other changed).steps reordered) ∧
      pages ((fresh number settings).steps calls) =
        [document.render (fragmentOf? document outcomes)] ∧
      pages ((fresh number settings).steps calls) =
        [document.atoms.flatMap (Page.Atom.fill (fragmentOf? document outcomes))] := by
  have hfirst := pages_eq_of_realises number settings h
  have hsecond := pages_eq_of_realises other changed hother
  rw [if_pos hanswered] at hfirst
  rw [if_pos hreordered] at hsecond
  refine ⟨hfirst.trans hsecond.symm, hfirst, ?_⟩
  rw [hfirst, pageOf, Page.Document.render_eq]

/-- A page of two includes, of which the second gets its replacement.  The answers come in two
orders, under other tokens, and with an answer in between that nobody waits for. -/
theorem page_of_two_orders :
    let page := 0x78 :: Ascii.lessThan :: Tag.inclusion.name ++
      [0x20, 0x73, 0x72, 0x63, 0x3D, 0x22, 0x2F, 0x22, 0x2F, Ascii.greaterThan] ++
      Ascii.lessThan :: Tag.inclusion.name ++
      [0x20, 0x73, 0x72, 0x63, 0x3D, 0x22, 0x2F, 0x61, 0x22, 0x20, 0x61, 0x6C, 0x74, 0x3D, 0x22,
        0x2F, 0x62, 0x22, 0x2F, Ascii.greaterThan, 0x79]
    let document : Page.Document :=
      ⟨[.literal [0x78], .slot 0, .slot 1, .literal [0x79]],
        [{ src := "/" }, { src := "/a", alt := some "/b" }]⟩
    let outcomes : Outcomes := fun fetch =>
      if fetch = ⟨0, false⟩ then .fetched [0x41]
      else if fetch = ⟨1, true⟩ then .fetched [0x42]
      else .failed
    let calls (token : Nat) : List Call :=
      [.requestHeaders [(":authority", "host"), (":path", "/")],
        .responseHeaders [("content-type", "text/html")],
        .body page.length (fun start length => (page.drop start).take length) true
          fun place => .accepted (place + token)]
    let first := calls 1 ++ [.answered 1 (some "200") [0x41] fun _ => .accepted 0,
      .answered 9 (some "200") [0x43] fun _ => .accepted 0,
      .answered 2 (some "404") [] fun _ => .accepted 3,
      .answered 3 (some "200") [0x42] fun _ => .accepted 0]
    let second := calls 7 ++ [.answered 8 (some "404") [0x43] fun _ => .accepted 5,
      .answered 8 (some "200") [0x43] fun _ => .accepted 0,
      .answered 5 (some "200") [0x42] fun _ => .accepted 0,
      .answered 7 (some "200") [0x41] fun _ => .accepted 0]
    Realises document outcomes ((fresh 2 {}).steps first) ∧
      Realises document outcomes ((fresh 3 {}).steps second) ∧
      pages ((fresh 2 {}).steps first) = pages ((fresh 3 {}).steps second) ∧
      pages ((fresh 2 {}).steps first) = [[0x78, 0x41, 0x42, 0x79]] := by
  intro page document outcomes calls first second
  have hfirst : Realises document outcomes ((fresh 2 {}).steps first) :=
    ⟨by decide +kernel, by decide +kernel, by decide +kernel⟩
  have hsecond : Realises document outcomes ((fresh 3 {}).steps second) :=
    ⟨by decide +kernel, by decide +kernel, by decide +kernel⟩
  obtain ⟨hsame, -, hpage⟩ :=
    page_of_any_order hfirst hsecond (by decide +kernel) (by decide +kernel)
  exact ⟨hfirst, hsecond, hsame, hpage⟩

end Stream

end Response
end EdgeIncludes
