/-
One request and its response.

A stream is told what its host sees in the order in which the host sees it: the request's
headers, the response's headers, the body as it grows, the answers to the sub-requests it
made, and the end.  Each of these is a turn.  A turn leaves a stream behind, has effects,
and says whether the response may go on or has to be held back.

The response of a stream that is processed is held back from its first byte until the
page is complete.  The host keeps the bytes meanwhile and shows all of them each time, so
the stream remembers how many it has seen.

What the host replies to the sub-requests of a turn is given beforehand, as a function of
their place in the turn, so that a turn is a plain function and its meaning does not
depend on how the host makes up its mind.
-/
import EdgeIncludes.Page.Intake
import EdgeIncludes.Response.Effect

namespace EdgeIncludes
namespace Response

/-! ## Streams and turns -/

structure Stream where
  number : Nat
  /-- The settings when the stream began, which hold to its end. -/
  settings : Settings
  authority : String := ""
  path : String := ""
  depth : Nat := 0
  /-- The body being taken in, while it is. -/
  intake : Option Page.Intake := none
  bodySeen : Nat := 0
  /-- The page, while fetches for it are outstanding. -/
  assembly : Option Assembly := none

inductive Action where
  | proceed
  | hold
deriving Repr, DecidableEq

structure Turn where
  stream : Stream
  effects : List Effect := []
  action : Action := .proceed

/-- What the host replies to the sub-requests of a turn, by their place in it. -/
abbrev Replies := Nat → Reply

structure Round where
  assembly : Assembly
  replies : Replies
  asked : Nat := 0
  effects : List Effect := []

def Round.also (round : Round) (effect : Effect) : Round :=
  { round with effects := round.effects ++ [effect] }

def Round.reply (round : Round) : Reply :=
  round.replies round.asked

def Round.ask (round : Round) (request : SubRequest) : Round :=
  { round.also (.asks request round.reply) with asked := round.asked + 1 }

namespace Stream

def fresh (number : Nat) (settings : Settings) : Stream :=
  { number, settings }

/-! ## Asking for fragments -/

def notes (stream : Stream) (notice : Notice) : Effect :=
  .tells stream.number notice

def dispatchRecord (stream : Stream) (target : Include.Target) : Audit.Record where
  kind := .includeDispatched
  requestPath := stream.path
  src := target.path
  depth := some (stream.depth + 1)

def subRequest (stream : Stream) (fetch : Fetch) (target : Include.Target) : SubRequest where
  fetch
  cluster := stream.settings.fragmentCluster
  target
  depth := stream.depth + 1
  timeoutMs := stream.settings.includeTimeoutMs.toUInt32

/-- The address of a fragment, of the one that the fetch is for; there is none if the
request names no replacement and the fetch is for it. -/
def target? (stream : Stream) (request : Include.Request) (viaAlt : Bool) :
    Option (Except Include.Refusal Include.Target) :=
  if viaAlt then request.altTarget? stream.authority stream.path
  else some (request.target stream.authority stream.path)

/-- Ask for the fragment at an address.  Returns whether it is on its way. -/
def askFor (stream : Stream) (fetch : Fetch) (target : Include.Target) (round : Round) :
    Bool × Round :=
  let asked := round.ask (stream.subRequest fetch target)
  match round.reply with
  | .accepted token =>
    (true, { asked with assembly := asked.assembly.track token fetch }.also
      (.records (some fetch.slot) (stream.dispatchRecord target)))
  | .denied denial => (false, asked.also (stream.notes (.denied target.path denial)))

/-- Ask for a fragment that a request names.  Returns whether it is on its way. -/
def dispatch (stream : Stream) (request : Include.Request) (fetch : Fetch) (round : Round) :
    Bool × Round :=
  match stream.target? request fetch.viaAlt with
  | some (.ok target) => stream.askFor fetch target round
  | some (.error refusal) => (false, round.also (stream.notes (.unresolved refusal)))
  | none => (false, round)

/-- The page goes without a fragment.  This is recorded always, and worth a warning
unless the include or the settings say that it is not. -/
def giveUp (stream : Stream) (slot : Nat) (request : Include.Request) (failure : Failure)
    (round : Round) : Round :=
  let recorded := round.also (.records (some slot)
    { Audit.Record.includeFailed request.src failure.text with requestPath := stream.path })
  if request.continueOnError || stream.settings.silentErrors then recorded
  else recorded.also (stream.notes (.dropped request.src failure))

/-- Ask for the fragment of a slot, or, if that cannot be asked for, for its
replacement. -/
def fetchSlot (stream : Stream) (round : Round) (slot : Nat) : Round :=
  match round.assembly.request? slot with
  | none => round
  | some request =>
    let (sent, first) := stream.dispatch request ⟨slot, false⟩ round
    if sent then first
    else
      let (sent, second) := stream.dispatch request ⟨slot, true⟩ first
      if sent then second else stream.giveUp slot request .notDispatched second

/-! ## Completing the page -/

def replaceBody (stream : Stream) (round : Round) : Round :=
  let page := round.assembly.render
  (round.also (.replacesBody round.assembly.bodySize page)).also (.records none
    { Audit.Record.assembled page.length round.assembly.filled with requestPath := stream.path })

/-- The body is complete: fetch its fragments, or, if none is to be waited for, put the
page in its place at once. -/
def assemble (stream : Stream) (document : Page.Document) (size : Nat) (replies : Replies) :
    Turn :=
  let round := document.pending.foldl stream.fetchSlot
    { assembly := { document, bodySize := size }, replies }
  if round.assembly.isDone then
    { stream, effects := (stream.replaceBody round).effects }
  else
    { stream := { stream with assembly := some round.assembly }
      effects := (round.also
        (stream.notes (.waiting round.assembly.outstanding.size))).effects
      action := .hold }

/-! ## Turns -/

def requestHeaders (stream : Stream) (headers : Headers) : Turn :=
  let told := { stream with
    authority := (header? ":authority" headers).getD ""
    path := (header? ":path" headers).getD ""
    depth := depthOf (header? depthHeader headers) }
  { stream := told
    effects := [told.notes (.requested told.authority told.path told.depth)] }

def depthRecord (stream : Stream) (reason : Skip) : Audit.Record :=
  { Audit.Record.skipped reason.text with
    requestPath := stream.path
    depth := stream.depth }

/-- The response's headers have come.  The length that they state is taken out if the
body is going to be replaced. -/
def responseHeaders (stream : Stream) (headers : Headers) : Turn :=
  match skip? stream.settings stream.depth (header? "content-type" headers)
      (header? "content-length" headers) with
  | some reason =>
    { stream
      effects := stream.notes (.skipped reason) ::
        if stream.settings.maxDepth.toNat ≤ stream.depth then
          [.records none (stream.depthRecord reason)]
        else [] }
  | none =>
    { stream := { stream with intake := some (.fresh stream.settings) }
      effects := [.removesHeader "content-length"] }

/-- How the host shows a range of the body, by its start and its length. -/
abbrev Reading := Nat → Nat → Bytes

/-- The part of the body that was not seen before, given how much of it there is. -/
def unseen (stream : Stream) (size : Nat) (read : Reading) : Bytes :=
  if stream.bodySeen < size then read stream.bodySeen (size - stream.bodySeen) else []

/-- The body has grown to the given size, or has ended with it. -/
def body (stream : Stream) (size : Nat) (read : Reading) (last : Bool) (replies : Replies) :
    Turn :=
  match stream.intake with
  | none => { stream }
  | some intake =>
    let taken := intake.take (stream.unseen size read) last
    let seen := { stream with bodySeen := size, intake := some taken.intake }
    let said := taken.notices.map Effect.building
    match taken.decision with
    | some (.complete document) =>
      let turn := { seen with intake := none }.assemble document size replies
      { turn with effects := said ++ turn.effects }
    | some (.skip reason) =>
      { stream := { seen with intake := none }
        effects := said ++ [.records none
          { Audit.Record.skipped reason.text with requestPath := stream.path }] }
    | some .more | none => { stream := seen, effects := said, action := .hold }

def statusOf? (status : Option String) : Option Nat :=
  status.bind fun value => Text.number? UInt32.size value.toList

def isSuccess (code : Nat) : Bool :=
  200 ≤ code && code < 300

/-- A fetch has failed: try the replacement, if there is one and it was not tried. -/
def recover (stream : Stream) (fetch : Fetch) (failure : Failure) (round : Round) : Round :=
  match round.assembly.request? fetch.slot with
  | none => round
  | some request =>
    if fetch.viaAlt || request.alt.isNone then
      stream.giveUp fetch.slot request failure round
    else
      let told := round.also (.records (some fetch.slot)
        { kind := .includeFailover, src := request.src, reason := failure.text })
      let (sent, after) := stream.dispatch request ⟨fetch.slot, true⟩ told
      if sent then after else stream.giveUp fetch.slot request failure after

def useAnswer (stream : Stream) (fetch : Fetch) (status : Option String) (fragment : Bytes)
    (round : Round) : Round :=
  match statusOf? status with
  | some code =>
    if isSuccess code then { round with assembly := round.assembly.fill fetch.slot fragment }
    else stream.recover fetch (.status code) round
  | none => stream.recover fetch .noResponse round

/-- A sub-request was answered.  Answers that nobody waits for are ignored. -/
def answered (stream : Stream) (token : Nat) (status : Option String) (fragment : Bytes)
    (replies : Replies) : Turn :=
  match stream.assembly with
  | none => { stream }
  | some assembly =>
    match assembly.fetch? token with
    | none => { stream }
    | some fetch =>
      let round := stream.useAnswer fetch status fragment
        { assembly := assembly.settle token, replies }
      if round.assembly.isDone then
        { stream := { stream with assembly := none }
          effects := ((stream.replaceBody round).also .resumes).effects }
      else { stream := { stream with assembly := some round.assembly }, effects := round.effects }

def finished (stream : Stream) : Turn :=
  { stream
    effects := [stream.notes (if stream.assembly.isSome then .abandoned else .finished)] }

/-! ## Sequences of turns -/

inductive Call where
  | requestHeaders (headers : Headers)
  | responseHeaders (headers : Headers)
  | body (size : Nat) (read : Reading) (last : Bool) (replies : Replies)
  | answered (token : Nat) (status : Option String) (fragment : Bytes) (replies : Replies)
  | finished

def turn (stream : Stream) : Call → Turn
  | .requestHeaders headers => stream.requestHeaders headers
  | .responseHeaders headers => stream.responseHeaders headers
  | .body size read last replies => stream.body size read last replies
  | .answered token status fragment replies => stream.answered token status fragment replies
  | .finished => stream.finished

end Stream
end Response
end EdgeIncludes
