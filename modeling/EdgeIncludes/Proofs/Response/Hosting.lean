/-
A stream with the host that keeps its body.

The host adds each part of a body to what it keeps, shows the stream all of it, and lets it go
when the stream says so.  What arrives for a stream makes it take a turn, and a receipt is what
arrives together with the stream as it is then.  What can be seen of receipts is what the stream
does (`effects`), what the client is sent (`sent`), and, from inside, which bytes of the body are
handed over to be scanned (`chunks`).
-/
import EdgeIncludes.Proofs.Response.Turns
import EdgeIncludes.Proofs.Response.Timeline
import EdgeIncludes.Response.Proxy

namespace EdgeIncludes
namespace Response

open Proxy (Arrival bufferAfter)

/-! ## Receipts -/

structure Receipt where
  hosted : Hosted
  arrival : Arrival
  /-- What is replied to the sub-requests that the stream makes. -/
  replies : Replies

namespace Receipt

/-- The body that the stream is shown. -/
def shown (receipt : Receipt) : Bytes :=
  receipt.arrival.buffered receipt.hosted.buffer

def call (receipt : Receipt) : Stream.Call :=
  receipt.arrival.told receipt.shown receipt.replies

def turn (receipt : Receipt) : Turn :=
  receipt.hosted.stream.turn receipt.call

def after (receipt : Receipt) : Hosted :=
  (receipt.hosted.deliver receipt.arrival receipt.replies).1

def outcome (receipt : Receipt) : Proxy.Outcome :=
  (receipt.hosted.deliver receipt.arrival receipt.replies).2

/-- The part of the body that is handed over to be scanned, if one is. -/
def chunk? (receipt : Receipt) : Option Bytes :=
  match receipt.call with
  | .body size read _ _ =>
    receipt.hosted.stream.intake.map fun _ => receipt.hosted.stream.unseen size read
  | _ => none

/-- The body that the host has once the stream has done what it does to it. -/
def body (receipt : Receipt) : Bytes :=
  receipt.turn.effects.foldl bufferAfter receipt.shown

def goes (receipt : Receipt) : Bool :=
  receipt.arrival.letsGo receipt.turn

theorem after_eq (receipt : Receipt) :
    receipt.after = ⟨receipt.turn.stream, if receipt.goes then [] else receipt.body⟩ := rfl

theorem effects_eq (receipt : Receipt) : receipt.outcome.effects = receipt.turn.effects := rfl

theorem sent_eq (receipt : Receipt) :
    receipt.outcome.sent = if receipt.goes then some receipt.body else none := rfl

def effects (receipts : List Receipt) : List Effect :=
  receipts.flatMap fun receipt => receipt.outcome.effects

/-- What the client is sent. -/
def sent (receipts : List Receipt) : Bytes :=
  receipts.flatMap fun receipt => receipt.outcome.sent.getD []

def chunks (receipts : List Receipt) : List Bytes :=
  receipts.filterMap chunk?

theorem effects_cons (receipt : Receipt) (rest : List Receipt) :
    effects (receipt :: rest) = receipt.outcome.effects ++ effects rest := rfl

theorem sent_cons (receipt : Receipt) (rest : List Receipt) :
    sent (receipt :: rest) = receipt.outcome.sent.getD [] ++ sent rest := rfl

theorem effects_append (front back : List Receipt) :
    effects (front ++ back) = effects front ++ effects back :=
  List.flatMap_append

theorem sent_append (front back : List Receipt) : sent (front ++ back) = sent front ++ sent back :=
  List.flatMap_append

theorem effects_singleton (receipt : Receipt) : effects [receipt] = receipt.outcome.effects :=
  List.append_nil _

theorem sent_singleton (receipt : Receipt) : sent [receipt] = receipt.outcome.sent.getD [] :=
  List.append_nil _

end Receipt

namespace Hosted

/-- What a stream goes through while this arrives, with these replies. -/
def receipts (hosted : Hosted) : List (Arrival × Replies) → List Receipt
  | [] => []
  | (arrival, replies) :: rest =>
    ⟨hosted, arrival, replies⟩ :: (Receipt.after ⟨hosted, arrival, replies⟩).receipts rest

def run (hosted : Hosted) (arrivals : List (Arrival × Replies)) : Hosted :=
  arrivals.foldl (fun hosted given => Receipt.after ⟨hosted, given.1, given.2⟩) hosted

theorem run_append (hosted : Hosted) (front back : List (Arrival × Replies)) :
    hosted.run (front ++ back) = (hosted.run front).run back :=
  List.foldl_append

theorem receipts_append (hosted : Hosted) (front back : List (Arrival × Replies)) :
    hosted.receipts (front ++ back) =
      hosted.receipts front ++ (hosted.run front).receipts back := by
  induction front generalizing hosted with
  | nil => rfl
  | cons given rest ih => exact congrArg (_ :: ·) (ih _)

end Hosted

/-! ## Effects on a body -/

theorem foldl_bufferAfter_of_keeps {effects : List Effect} (h : Keeps effects) (buffer : Bytes) :
    effects.foldl bufferAfter buffer = buffer := by
  induction effects with
  | nil => rfl
  | cons effect rest ih =>
    obtain ⟨heffect, hrest⟩ := List.forall_mem_cons.mp h
    have hsame : bufferAfter buffer effect = buffer := by
      cases effect with
      | replacesBody size page => cases heffect
      | _ => rfl
    rw [List.foldl_cons, hsame]
    exact ih hrest

/-- Of the body as it came nothing is left. -/
theorem foldl_bufferAfter_finale {effects : List Effect} (h : Keeps effects) (stream : Stream)
    {assembly : Assembly} {buffer : Bytes} (hsize : assembly.bodySize = buffer.length) :
    (effects ++ stream.finale assembly).foldl bufferAfter buffer = assembly.render := by
  rw [List.foldl_append, foldl_bufferAfter_of_keeps h, Stream.finale]
  show assembly.render ++ buffer.drop assembly.bodySize = assembly.render
  rw [hsize, List.drop_length, List.append_nil]

theorem Assembly.bodySize_followAll (assembly : Assembly) (effects : List Effect) :
    (assembly.followAll effects).bodySize = assembly.bodySize := by
  obtain ⟨outstanding, hfollow⟩ := assembly.exists_followAll_eq effects
  rw [hfollow]

theorem Stream.Answers.bodySize_eq {stream : Stream} {assembly after : Assembly} {fetch : Fetch}
    {status : Option String} {fragment : Bytes} {effects : List Effect}
    (h : Answers stream assembly fetch status fragment effects after) :
    after.bodySize = assembly.bodySize := by
  cases h with
  | success h => rfl
  | without h hrequest => rfl
  | failure h hrequest hrecovers => exact assembly.bodySize_followAll effects

theorem eq_of_mem_finale {stream : Stream} {assembly : Assembly} {effects : List Effect}
    (h : Keeps effects) {size : Nat} {page : Bytes}
    (hmem : .replacesBody size page ∈ effects ++ stream.finale assembly) :
    size = assembly.bodySize ∧ page = assembly.render := by
  rcases List.mem_append.mp hmem with hmem | hmem
  · cases h _ hmem
  · rcases List.mem_cons.mp hmem with heq | hmem
    · cases heq
      exact ⟨rfl, rfl⟩
    · cases List.mem_singleton.mp hmem

/-! ## Reading once and replacing all -/

/-- What is handed over after the body so far is the rest of the body that is there by then. -/
def ReadsOnce (sofar : Bytes) (receipts : List Receipt) : Prop :=
  ∀ front receipt back chunk, receipts = front ++ receipt :: back → receipt.chunk? = some chunk →
    sofar ++ (Receipt.chunks front).flatten ++ chunk = receipt.shown

/-- If the body is replaced, it is the whole of it, and the client is sent what it is replaced
with. -/
def Receipt.ReplacesAll (body : Bytes) (receipt : Receipt) : Prop :=
  ∀ size page, .replacesBody size page ∈ receipt.outcome.effects →
    receipt.shown = body ∧ size = body.length ∧ receipt.outcome.sent = some page

/-- The receipts read the body once and replace all of it. -/
structure Proceeds (sofar body : Bytes) (receipts : List Receipt) : Prop where
  reads : ReadsOnce sofar receipts
  replaces : ∀ receipt ∈ receipts, receipt.ReplacesAll body

namespace Proceeds

variable {sofar body chunk : Bytes} {receipt : Receipt} {receipts rest : List Receipt}

theorem nil : Proceeds sofar body [] := by
  refine ⟨?_, List.forall_mem_nil _⟩
  intro front receipt back chunk hsplit
  cases (List.append_eq_nil_iff.mp hsplit.symm).2

theorem cons (hchunk : receipt.chunk? = some chunk) (hshown : sofar ++ chunk = receipt.shown)
    (hreplaces : receipt.ReplacesAll body) (hrest : Proceeds (sofar ++ chunk) body rest) :
    Proceeds sofar body (receipt :: rest) := by
  refine ⟨?_, List.forall_mem_cons.mpr ⟨hreplaces, hrest.replaces⟩⟩
  intro front other back part hsplit hpart
  cases front with
  | nil =>
    obtain ⟨rfl, -⟩ := List.cons.inj hsplit
    rw [hchunk] at hpart
    cases hpart
    rw [Receipt.chunks, List.filterMap_nil, List.flatten_nil, List.append_nil]
    exact hshown
  | cons first front =>
    obtain ⟨rfl, hback⟩ := List.cons.inj hsplit
    rw [Receipt.chunks, List.filterMap_cons_some hchunk, List.flatten_cons, ← List.append_assoc]
    exact hrest.reads front other back part hback hpart

/-- What hands nothing over can come after. -/
theorem append (h : Proceeds sofar body receipts) (hnone : ∀ receipt ∈ rest, receipt.chunk? = none)
    (hreplaces : ∀ receipt ∈ rest, receipt.ReplacesAll body) :
    Proceeds sofar body (receipts ++ rest) := by
  refine ⟨?_, List.forall_mem_append.mpr ⟨h.replaces, hreplaces⟩⟩
  intro front other back part hsplit hpart
  rcases List.append_eq_append_iff.mp hsplit with ⟨more, rfl, hrest⟩ | ⟨more, rfl, hrest⟩
  · have hmem : other ∈ rest := by
      rw [hrest]
      exact List.mem_append_right more List.mem_cons_self
    rw [hnone other hmem] at hpart
    cases hpart
  · cases more with
    | nil =>
      have hmem : other ∈ rest := by
        rw [← List.nil_append rest, ← hrest]
        exact List.mem_cons_self
      rw [hnone other hmem] at hpart
      cases hpart
    | cons first more =>
      obtain ⟨rfl, -⟩ := List.cons.inj hrest
      exact h.reads front _ more part rfl hpart

end Proceeds

/-! ## After the body -/

/-- An answer to a sub-request, or the end of the exchange. -/
def Proxy.Arrival.isLater : Arrival → Bool
  | .answer .. | .log _ => true
  | _ => false

theorem Receipt.replacesAll_of_keeps {receipt : Receipt} (h : Keeps receipt.outcome.effects)
    (body : Bytes) : receipt.ReplacesAll body :=
  fun _ _ hmem => by cases h _ hmem

/-- What lets nothing go leaves the host with what it had. -/
theorem Receipt.after_of_keeps {receipt : Receipt} (hlater : receipt.arrival.isLater)
    (h : Keeps receipt.turn.effects) :
    receipt.after = ⟨receipt.turn.stream, receipt.hosted.buffer⟩ ∧ receipt.outcome.sent = none := by
  have hresumes : receipt.turn.effects.contains .resumes = false := by
    rw [List.contains_eq_mem, decide_eq_false_iff_not]
    exact fun hmem => by cases h _ hmem
  have hsame : receipt.shown = receipt.hosted.buffer ∧
      receipt.goes = receipt.turn.effects.contains .resumes := by
    obtain ⟨hosted, arrival, replies⟩ := receipt
    cases arrival <;> first | exact ⟨rfl, rfl⟩ | cases hlater
  rw [receipt.after_eq, receipt.sent_eq, hsame.2, hresumes, body, foldl_bufferAfter_of_keeps h,
    hsame.1]
  exact ⟨rfl, rfl⟩

theorem Receipt.chunk?_of_isLater {receipt : Receipt} (hlater : receipt.arrival.isLater) :
    receipt.chunk? = none := by
  obtain ⟨hosted, arrival, replies⟩ := receipt
  cases arrival <;> first | rfl | cases hlater

/-- What a stream does about what comes when it waits for no page. -/
def Stream.afterwards (stream : Stream) : Arrival → List Effect
  | .log _ => [stream.notes .finished]
  | _ => []

theorem Stream.keeps_afterwards (stream : Stream) (arrival : Arrival) :
    Keeps (stream.afterwards arrival) := by
  cases arrival with
  | log number => exact List.forall_mem_singleton.mpr rfl
  | _ => exact List.forall_mem_nil _

theorem Receipt.idles {receipt : Receipt} (hassembly : receipt.hosted.stream.assembly = none)
    (hlater : receipt.arrival.isLater) :
    receipt.after = receipt.hosted ∧ receipt.outcome.sent = none ∧
      receipt.outcome.effects = receipt.hosted.stream.afterwards receipt.arrival := by
  have hturn : receipt.turn.stream = receipt.hosted.stream ∧
      receipt.turn.effects = receipt.hosted.stream.afterwards receipt.arrival := by
    obtain ⟨⟨stream, buffer⟩, arrival, replies⟩ := receipt
    cases arrival with
    | request number headers | response number headers
    | body number data last size missing denials => cases hlater
    | log number =>
      refine ⟨rfl, ?_⟩
      show [stream.notes (if stream.assembly.isSome then .abandoned else .finished)] = _
      rw [show stream.assembly = none from hassembly]
      rfl
    | answer token status fragment size denials =>
      have hstray : ∀ assembly, stream.assembly = some assembly → assembly.fetch? token = none := by
        intro assembly hsome
        rw [show stream.assembly = none from hassembly] at hsome
        cases hsome
      have hturn : turn ⟨⟨stream, buffer⟩, .answer token status fragment size denials, replies⟩ =
          { stream } := Stream.answered_of_stray hstray _ _ _
      rw [hturn]
      exact ⟨rfl, rfl⟩
  have hkeeps : Keeps receipt.turn.effects := by
    rw [hturn.2]
    exact Stream.keeps_afterwards _ _
  obtain ⟨hafter, hsent⟩ := receipt.after_of_keeps hlater hkeeps
  refine ⟨?_, hsent, hturn.2⟩
  rw [hafter, hturn.1]

theorem Hosted.receipts_idle {hosted : Hosted} (hassembly : hosted.stream.assembly = none)
    {later : List (Arrival × Replies)} (hlater : ∀ given ∈ later, given.1.isLater) :
    Receipt.effects (hosted.receipts later) = later.flatMap (hosted.stream.afterwards ·.1) ∧
      Receipt.sent (hosted.receipts later) = [] := by
  induction later with
  | nil => exact ⟨rfl, rfl⟩
  | cons given rest ih =>
    obtain ⟨hgiven, hrest⟩ := List.forall_mem_cons.mp hlater
    obtain ⟨hafter, hsent, heffects⟩ :=
      @Receipt.idles ⟨hosted, given.1, given.2⟩ hassembly hgiven
    obtain ⟨hquiet, hnothing⟩ := ih hrest
    rw [receipts]
    constructor
    · rw [Receipt.effects_cons, heffects, hafter, hquiet]
      rfl
    · rw [Receipt.sent_cons, hsent, hafter, hnothing]
      rfl

/-! ## Waiting for a page -/

/-- The host has nothing to keep, or a page is waited for in place of the body that it keeps. -/
inductive Rests (body : Bytes) (hosted : Hosted) : Prop where
  | free (hassembly : hosted.stream.assembly = none)
  | waiting {assembly : Assembly} (hassembly : hosted.stream.assembly = some assembly)
      (hsize : assembly.bodySize = body.length) (hbuffer : hosted.buffer = body)

/-- What comes after the body leaves it as it is, or the page that was waited for takes its
place. -/
inductive Receipt.Moves (body : Bytes) (receipt : Receipt) : Prop where
  | keeps (hkeeps : Keeps receipt.outcome.effects) (hsent : receipt.outcome.sent = none)
      (hassembly :
        receipt.after.stream.assembly.isSome = receipt.hosted.stream.assembly.isSome)
  | writes {page : Bytes} (hwaits : receipt.hosted.stream.assembly.isSome)
      (hshown : receipt.shown = body)
      (hwrites : .replacesBody body.length page ∈ receipt.outcome.effects)
      (honly : ∀ size other, .replacesBody size other ∈ receipt.outcome.effects →
        size = body.length ∧ other = page)
      (hsent : receipt.outcome.sent = some page)
      (hassembly : receipt.after.stream.assembly = none)

theorem Receipt.Moves.replacesAll {body : Bytes} {receipt : Receipt} (h : receipt.Moves body) :
    receipt.ReplacesAll body := by
  cases h with
  | keeps hkeeps hsent hassembly => exact receipt.replacesAll_of_keeps hkeeps body
  | writes hwaits hshown hwrites honly hsent hassembly =>
    intro size other hmem
    obtain ⟨hsize, rfl⟩ := honly size other hmem
    exact ⟨hshown, hsize, hsent⟩

/-- The page is waited for and nothing was sent, or what was sent is just the page that was put
in place of the whole body. -/
inductive Concludes (body : Bytes) (hosted : Hosted) (receipts : List Receipt) : Prop where
  | waits (hassembly : hosted.stream.assembly.isSome) (hsent : Receipt.sent receipts = [])
  | writes (hassembly : hosted.stream.assembly = none)
      (hwrites : .replacesBody body.length (Receipt.sent receipts) ∈ Receipt.effects receipts)

theorem Concludes.snoc {body : Bytes} {receipt : Receipt} {receipts : List Receipt}
    (h : Concludes body receipt.hosted receipts) (hmoves : receipt.Moves body) :
    Concludes body receipt.after (receipts ++ [receipt]) := by
  have hlast : Receipt.sent (receipts ++ [receipt]) =
      Receipt.sent receipts ++ receipt.outcome.sent.getD [] := by
    rw [Receipt.sent_append, Receipt.sent_singleton]
  cases h with
  | waits hassembly hsent =>
    cases hmoves with
    | keeps hkeeps hnone hsame =>
      refine .waits (hsame.trans hassembly) ?_
      rw [hlast, hsent, hnone]
      rfl
    | writes hwaits hshown hwrites honly hpage hgone =>
      refine .writes hgone ?_
      rw [Receipt.effects_append, Receipt.effects_singleton, hlast, hsent, hpage]
      exact List.mem_append_right _ hwrites
  | writes hassembly hwrites =>
    cases hmoves with
    | keeps hkeeps hnone hsame =>
      rw [hassembly] at hsame
      refine .writes (Option.not_isSome_iff_eq_none.mp (Bool.eq_false_iff.mp hsame)) ?_
      rw [Receipt.effects_append, hlast, hnone, Option.getD_none, List.append_nil]
      exact List.mem_append_left _ hwrites
    | writes hwaits hshown hmore honly hpage hgone =>
      rw [hassembly] at hwaits
      cases hwaits

namespace Rests

variable {body : Bytes} {hosted : Hosted} {later : List (Arrival × Replies)}

theorem unchanged {receipt : Receipt} (h : Rests body receipt.hosted)
    (hlater : receipt.arrival.isLater) (hstream : receipt.turn.stream = receipt.hosted.stream)
    (hkeeps : Keeps receipt.turn.effects) : Rests body receipt.after ∧ receipt.Moves body := by
  obtain ⟨hafter, hsent⟩ := receipt.after_of_keeps hlater hkeeps
  rw [hstream] at hafter
  refine ⟨?_, .keeps hkeeps hsent ?_⟩
  · rw [hafter]
    exact h
  · rw [hafter]

/-- An answer to a fetch that the page waits for. -/
theorem answered {receipt : Receipt} {assembly : Assembly}
    (hassembly : receipt.hosted.stream.assembly = some assembly)
    (hsize : assembly.bodySize = body.length) (hbuffer : receipt.hosted.buffer = body)
    {token : Nat} {status : Option String} {fragment : Bytes} {size : Option Nat}
    {denials : List (Option Denial)}
    (harrival : receipt.arrival = .answer token status fragment size denials) {fetch : Fetch}
    (hfetch : assembly.fetch? token = some fetch) :
    Rests body receipt.after ∧ receipt.Moves body := by
  have hlater : receipt.arrival.isLater := by
    rw [harrival]
    rfl
  have hwaits : receipt.hosted.stream.assembly.isSome := by
    rw [hassembly]
    rfl
  have hshown : receipt.shown = body := by
    rw [← hbuffer, Receipt.shown, harrival]
    rfl
  obtain ⟨effects, after, hanswers, hturn⟩ := Stream.answered_eq hassembly hfetch status
    (Proxy.Arrival.readFrom fragment 0 (size.getD fragment.length)) receipt.replies
  have hkeeps : Keeps effects := Stream.keeps_of_handles hanswers.handles
  have hafter : after.bodySize = body.length := hanswers.bodySize_eq.trans hsize
  have hanswered : receipt.turn = receipt.hosted.stream.answered token status
      (Proxy.Arrival.readFrom fragment 0 (size.getD fragment.length)) receipt.replies := by
    rw [Receipt.turn, Receipt.call, harrival]
    rfl
  rw [← hanswered] at hturn
  split at hturn
  · -- the page takes the place of the body, and the response goes on
    have hgoes : receipt.goes = true := by
      rw [Receipt.goes, harrival, hturn]
      show (_ ++ [Effect.resumes]).contains Effect.resumes = true
      rw [List.contains_eq_mem, decide_eq_true_iff]
      exact List.mem_append_right _ List.mem_cons_self
    have hbody : receipt.body = after.render := by
      rw [Receipt.body, hturn, hshown, List.foldl_append, foldl_bufferAfter_finale hkeeps _ hafter]
      rfl
    have hgone : receipt.after.stream.assembly = none := by
      rw [receipt.after_eq, hturn]
    have hsent : receipt.outcome.sent = some after.render := by
      rw [receipt.sent_eq, hgoes, hbody]
      rfl
    refine ⟨.free hgone, .writes hwaits hshown ?_ ?_ hsent hgone⟩
    · rw [receipt.effects_eq, hturn, ← hafter]
      refine List.mem_append_left _ (List.mem_append_right _ ?_)
      exact List.mem_cons_self
    · intro size other hmem
      rw [receipt.effects_eq, hturn] at hmem
      rcases List.mem_append.mp hmem with hmem | hmem
      · obtain ⟨rfl, rfl⟩ := eq_of_mem_finale hkeeps hmem
        exact ⟨hafter, rfl⟩
      · cases List.mem_singleton.mp hmem
  · have hkept : Keeps receipt.turn.effects := by
      rw [hturn]
      exact hkeeps
    obtain ⟨hnext, hsent⟩ := receipt.after_of_keeps hlater hkept
    have hwaiting : receipt.after.stream.assembly = some after := by
      rw [hnext, hturn]
    refine ⟨.waiting hwaiting hafter ?_, .keeps hkept hsent ?_⟩
    · rw [hnext]
      exact hbuffer
    · rw [hwaiting, hassembly]
      rfl

theorem receipt {receipt : Receipt} (h : Rests body receipt.hosted)
    (hlater : receipt.arrival.isLater) : Rests body receipt.after ∧ receipt.Moves body := by
  cases h with
  | free hassembly =>
    obtain ⟨hafter, hsent, heffects⟩ := receipt.idles hassembly hlater
    have hkeeps : Keeps receipt.outcome.effects := by
      rw [heffects]
      exact Stream.keeps_afterwards _ _
    rw [hafter]
    exact ⟨.free hassembly, .keeps hkeeps hsent (by rw [hafter])⟩
  | @waiting assembly hassembly hsize hbuffer =>
    have hrests : Rests body receipt.hosted := .waiting hassembly hsize hbuffer
    cases harrival : receipt.arrival with
    | request number headers | response number headers
    | body number data last size missing denials =>
      rw [harrival] at hlater
      cases hlater
    | log number =>
      have hturn : receipt.turn = receipt.hosted.stream.finished := by
        rw [Receipt.turn, Receipt.call, harrival]
        rfl
      rw [Stream.finished] at hturn
      refine hrests.unchanged hlater (by rw [hturn]) ?_
      rw [hturn]
      exact List.forall_mem_singleton.mpr rfl
    | answer token status fragment size denials =>
      cases hfetch : assembly.fetch? token with
      | none =>
        have hstray : ∀ other, receipt.hosted.stream.assembly = some other →
            other.fetch? token = none := by
          intro other hsome
          rw [hassembly] at hsome
          cases hsome
          exact hfetch
        have hturn : receipt.turn = { stream := receipt.hosted.stream } := by
          rw [Receipt.turn, Receipt.call, harrival]
          exact Stream.answered_of_stray hstray _ _ _
        refine hrests.unchanged hlater (by rw [hturn]) ?_
        rw [hturn]
        exact List.forall_mem_nil _
      | some fetch => exact answered hassembly hsize hbuffer harrival hfetch

/-- While answers come nothing is read, and what is replaced is the whole body. -/
theorem receipts (h : Rests body hosted) (hlater : ∀ given ∈ later, given.1.isLater) :
    ∀ receipt ∈ hosted.receipts later, receipt.ReplacesAll body ∧ receipt.chunk? = none := by
  induction later generalizing hosted with
  | nil => exact List.forall_mem_nil _
  | cons given rest ih =>
    obtain ⟨hgiven, hrest⟩ := List.forall_mem_cons.mp hlater
    obtain ⟨hafter, hmoves⟩ := @receipt body ⟨hosted, given.1, given.2⟩ h hgiven
    exact List.forall_mem_cons.mpr
      ⟨⟨hmoves.replacesAll, Receipt.chunk?_of_isLater hgiven⟩, ih hafter hrest⟩

theorem concludes (h : Rests body hosted) {front : List Receipt}
    (hfront : Concludes body hosted front) (hlater : ∀ given ∈ later, given.1.isLater) :
    Concludes body (hosted.run later) (front ++ hosted.receipts later) := by
  induction later generalizing hosted front with
  | nil =>
    rw [Hosted.receipts, List.append_nil]
    exact hfront
  | cons given rest ih =>
    obtain ⟨hgiven, hrest⟩ := List.forall_mem_cons.mp hlater
    obtain ⟨hafter, hmoves⟩ := @receipt body ⟨hosted, given.1, given.2⟩ h hgiven
    rw [Hosted.receipts, List.append_cons]
    exact ih hafter (hfront.snoc hmoves) hrest

end Rests

end Response
end EdgeIncludes
