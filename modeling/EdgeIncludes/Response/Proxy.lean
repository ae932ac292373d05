/-
A proxy that hosts the filter.

The proxy keeps, with each stream of the filter, the part of the body that has not been sent
on.  It gives out the tokens of sub-requests, one after the other, and brings each answer to
the stream that made the request.  A body that a stream lets go on is sent, and one that it
holds back is kept.
-/
import EdgeIncludes.Response.Filter

namespace EdgeIncludes
namespace Response

structure Proxy where
  filter : Filter := .fresh
  /-- The parts of the bodies that were not sent on, by stream. -/
  buffers : Std.TreeMap Nat Bytes := {}
  /-- The streams that wait for an answer, by token. -/
  owners : Std.TreeMap Nat Nat := {}
  nextToken : Nat := 1

/-- A stream and the part of its body that has not been sent on. -/
structure Hosted where
  stream : Stream
  buffer : Bytes := []

namespace Proxy

def fresh : Proxy := {}

/-! ## What a call comes to -/

inductive Returned where
  | nothing
  | flag (value : Bool)
  | action (value : Action)
deriving Repr, DecidableEq

inductive Misuse where
  /-- The number of a new stream is taken or kept for the proxy itself. -/
  | badContext
  | unknownContext
  | unknownToken
deriving Repr, DecidableEq

structure Outcome where
  returned : Returned := .nothing
  effects : List Effect := []
  /-- The part of the body that was sent on, if any was. -/
  sent : Option Bytes := none
deriving Repr, DecidableEq

/-! ## Arrivals -/

inductive Arrival where
  | request (number : Nat) (headers : Headers)
  | response (number : Nat) (headers : Headers)
  /-- Part of a response's body.  The size that the stream is told can differ from the true
  one, and the body can be out of its reach. -/
  | body (number : Nat) (data : Bytes) (last : Bool) (size : Option Nat) (missing : Bool)
      (denials : List (Option Denial))
  /-- The answer to a sub-request, of which the stream may be shown less than there is. -/
  | answer (token : Nat) (status : Option String) (fragment : Bytes) (size : Option Nat)
      (denials : List (Option Denial))
  | log (number : Nat)
deriving Repr, DecidableEq

namespace Arrival

/-- Which of the sub-requests that follow are denied, by their place.  Those that are not
mentioned are not. -/
def denials : Arrival → List (Option Denial)
  | .body _ _ _ _ _ denials | .answer _ _ _ _ denials => denials
  | _ => []

def buffered (buffer : Bytes) : Arrival → Bytes
  | .body _ data .. => buffer ++ data
  | _ => buffer

/-- The range of a buffer, cut to what is there. -/
def readFrom (buffer : Bytes) : Stream.Reading := fun start length =>
  (buffer.drop start).take length

/-- What the stream is told, given the body that is there by then. -/
def told (arrival : Arrival) (buffer : Bytes) (replies : Replies) : Stream.Call :=
  match arrival with
  | .request _ headers => .requestHeaders headers
  | .response _ headers => .responseHeaders headers
  | .body _ _ last size missing _ =>
    .body (size.getD buffer.length) (if missing then fun _ _ => [] else readFrom buffer) last
      replies
  | .answer token status fragment size _ =>
    .answered token status (readFrom fragment 0 (size.getD fragment.length)) replies
  | .log _ => .finished

def returned (turn : Turn) : Arrival → Returned
  | .request .. | .response .. | .body .. => .action turn.action
  | .answer .. => .nothing
  | .log _ => .flag true

/-- The turn lets the body go: it does not hold back a body that it was shown, or it
resumes a response that was held back. -/
def letsGo (turn : Turn) : Arrival → Bool
  | .body .. => turn.action == .proceed
  | _ => turn.effects.contains .resumes

end Arrival

/-! ## One stream -/

def bufferAfter (buffer : Bytes) : Effect → Bytes
  | .replacesBody size bytes => bytes ++ buffer.drop size
  | _ => buffer

end Proxy

/-- Show the stream what has arrived for it, and carry out what it does to its body. -/
def Hosted.deliver (hosted : Hosted) (arrival : Proxy.Arrival) (replies : Replies) :
    Hosted × Proxy.Outcome :=
  let shown := arrival.buffered hosted.buffer
  let turn := hosted.stream.turn (arrival.told shown replies)
  let body := turn.effects.foldl Proxy.bufferAfter shown
  let goes := arrival.letsGo turn
  (⟨turn.stream, if goes then [] else body⟩,
    { returned := arrival.returned turn
      effects := turn.effects
      sent := if goes then some body else none })

namespace Proxy

/-! ## Delivery -/

def addressee (proxy : Proxy) : Arrival → Except Misuse Nat
  | .request number _ | .response number _ | .body number .. | .log number => .ok number
  | .answer token .. =>
    match proxy.owners[token]? with
    | some number => .ok number
    | none => .error .unknownToken

def hosted (proxy : Proxy) (number : Nat) : Except Misuse Hosted :=
  match proxy.filter.streams[number]? with
  | some stream => .ok ⟨stream, proxy.buffers.getD number []⟩
  | none => .error .unknownContext

/-- What the proxy replies to the sub-requests of a turn: it denies those that it is told
to deny, and takes all others under the next tokens. -/
def replies (proxy : Proxy) (denials : List (Option Denial)) : Replies := fun place =>
  match denials[place]?.join with
  | some denial => .denied denial
  | none => .accepted (proxy.nextToken + place - ((denials.take place).filterMap id).length)

def settle (proxy : Proxy) : Arrival → Proxy
  | .answer token .. => { proxy with owners := proxy.owners.erase token }
  | _ => proxy

def expect (proxy : Proxy) (number : Nat) (effects : List Effect) : Proxy :=
  let tokens := effects.filterMap Effect.token?
  { proxy with
    owners := tokens.foldl (fun owners token => owners.insert token number) proxy.owners
    nextToken := proxy.nextToken + tokens.length }

/-- Put a stream in its place after a turn, with what is left of its body. -/
def keep (proxy : Proxy) (number : Nat) (hosted : Hosted) : Proxy :=
  { proxy with
    filter := proxy.filter.keep number hosted.stream
    buffers := proxy.buffers.insert number hosted.buffer }

/-- Deliver what has arrived to the stream that it is for. -/
def deliver (proxy : Proxy) (arrival : Arrival) : Except Misuse (Proxy × Outcome) := do
  let number ← proxy.addressee arrival
  let hosted ← proxy.hosted number
  let (after, outcome) := hosted.deliver arrival (proxy.replies arrival.denials)
  return (((proxy.settle arrival).expect number outcome.effects).keep number after, outcome)

/-! ## Calls -/

inductive Call where
  /-- Configure the filter, with the buffer that there is for it. -/
  | configure (buffer : Option Bytes)
  | create (number : Nat)
  | deliver (arrival : Arrival)
deriving Repr, DecidableEq

/-- Have the filter do something that is about no stream's body. -/
def command (proxy : Proxy) (call : Filter.Call) (returned : Returned) : Proxy × Outcome :=
  ({ proxy with filter := proxy.filter.after call },
    { returned, effects := proxy.filter.effects call })

/-- The configuration that the filter gets.  The library that stands between the two reports
an empty buffer as no configuration at all. -/
def reported? (buffer : Option Bytes) : Option Bytes :=
  buffer.filter fun bytes => !bytes.isEmpty

def configure (proxy : Proxy) (buffer : Option Bytes) : Proxy × Outcome :=
  let configuration := reported? buffer
  proxy.command (.configure configuration)
    (.flag (proxy.filter.configure configuration).toBool)

/-- Begin a stream.  The numbers zero and one are the proxy's own. -/
def create (proxy : Proxy) (number : Nat) : Except Misuse (Proxy × Outcome) :=
  if number < 2 || proxy.filter.streams.contains number then .error .badContext
  else .ok (proxy.command (.create number) .nothing)

/-- Do what is asked.  A call that cannot be carried out changes nothing. -/
def call (proxy : Proxy) : Call → Except Misuse (Proxy × Outcome)
  | .configure buffer => .ok (proxy.configure buffer)
  | .create number => proxy.create number
  | .deliver arrival => proxy.deliver arrival

end Proxy
end Response
end EdgeIncludes
