/-
What the filter does to the world.

Everything that can be seen of the filter from outside, apart from the answers it
returns, is an effect, and a callback yields its effects in the order in which they
happen.  Effects say what happened in the filter's own terms; the log lines among them
are found by `Effect.line?`.
-/
import EdgeIncludes.Eligibility
import EdgeIncludes.Include.Target
import EdgeIncludes.Log
import EdgeIncludes.Page.Builder
import EdgeIncludes.Response.Assembly
import EdgeIncludes.Text.Shown

namespace EdgeIncludes
namespace Response

/-! ## Headers -/

abbrev Headers := List (String × String)

def header? (name : String) (headers : Headers) : Option String :=
  (headers.find? fun field => field.1 == name).map Prod.snd

/-! ## Sub-requests -/

inductive Denial where
  | badArgument
  | internalFailure
deriving Repr, DecidableEq

def Denial.name : Denial → String
  | .badArgument => "BadArgument"
  | .internalFailure => "InternalFailure"

inductive Reply where
  | accepted (token : Nat)
  | denied (denial : Denial)
deriving Repr, DecidableEq

def Reply.token? : Reply → Option Nat
  | .accepted token => some token
  | .denied _ => none

structure SubRequest where
  fetch : Fetch
  cluster : String
  target : Include.Target
  depth : Nat
  /-- How long the answer may take, in milliseconds.  A setting that is too large for the
  host loses its upper half. -/
  timeoutMs : UInt32
deriving Repr, DecidableEq

def SubRequest.headers (request : SubRequest) : Headers :=
  [(":method", "GET"), (":path", request.target.path),
    (":authority", request.target.authority), (depthHeader, toString request.depth)]

/-! ## Notices -/

inductive Failure where
  | notDispatched
  | status (code : Nat)
  | noResponse
deriving Repr, DecidableEq

def Failure.text : Failure → String
  | .notDispatched => "dispatch failed"
  | .status code => "status " ++ toString code
  | .noResponse => "no response"

inductive Notice where
  | requested (authority path : String) (depth : Nat)
  | skipped (reason : Skip)
  | unresolved (refusal : Include.Refusal)
  | denied (path : String) (denial : Denial)
  | dropped (src : String) (failure : Failure)
  | waiting (count : Nat)
  | abandoned
  | finished
deriving Repr, DecidableEq

def Notice.level : Notice → Log.Level
  | .unresolved _ | .denied .. | .dropped .. | .abandoned => .warn
  | _ => .debug

def Notice.text : Notice → String
  | .requested authority path depth =>
    "Request " ++ authority ++ path ++ " at include depth " ++ toString depth
  | .skipped reason => "Skipping ESI: " ++ reason.text
  | .unresolved refusal => "Cannot include: " ++ refusal.message
  | .denied path denial => "Failed to dispatch include " ++ path ++ ": " ++ denial.name
  | .dropped src failure => "Include " ++ src ++ " dropped: " ++ failure.text
  | .waiting count => "Waiting on " ++ toString count ++ " include(s)"
  | .abandoned => "Response finished with includes outstanding"
  | .finished => "Request processing complete"

def Notice.line (stream : Nat) (notice : Notice) : Log.Line :=
  ⟨notice.level, "[context_id=" ++ toString stream ++ "] " ++ notice.text⟩

/-! ## Effects -/

inductive Effect where
  | installed (settings : Settings)
  | rejected (rejection : Settings.Rejection)
  | tells (stream : Nat) (notice : Notice)
  | building (notice : Page.Notice)
  /-- Something is recorded, about a slot if it concerns one. -/
  | records (slot : Option Nat) (record : Audit.Record)
  | removesHeader (name : String)
  | asks (request : SubRequest) (reply : Reply)
  /-- So many bytes at the start of the response's body are replaced by these. -/
  | replacesBody (size : Nat) (bytes : Bytes)
  | resumes
deriving Repr, DecidableEq

namespace Effect

def line? : Effect → Option Log.Line
  | .installed settings => some ⟨.info,
      "ESI Filter initialized (enabled: " ++ toString settings.enabled ++
        ", types: " ++ Text.showTexts settings.types ++
        ", upstream: " ++ settings.fragmentCluster ++ ")"⟩
  | .rejected rejection => some ⟨.warn,
      "Rejecting ESI filter configuration: " ++ rejection.message⟩
  | .tells stream notice => some (notice.line stream)
  | .building notice => some notice.line
  | .records _ record => some record.line
  | _ => none

def isSeen (threshold : Log.Level) (effect : Effect) : Bool :=
  effect.line?.all (Log.Line.isSeen threshold)

def token? : Effect → Option Nat
  | .asks _ reply => reply.token?
  | _ => none

end Effect
end Response
end EdgeIncludes
