/-
The filter, with all streams under way.

The settings stand in two places.  One belongs to the part of the filter that takes
configurations, and it has the settings that were accepted last.  The other is shared with
the streams, and a stream begins with a copy of what is there.  A configuration that is
rejected gets to neither.

Like a builder, the filter has two functions of its state and a call: `after` is the filter
that the call leaves behind, and `effects` is what it does.
-/
import EdgeIncludes.Response.Stream

namespace EdgeIncludes
namespace Response

structure Filter where
  /-- The settings that were accepted last. -/
  accepted : Settings := .initial
  /-- The settings that a stream begins with. -/
  shared : Settings := .initial
  streams : Std.TreeMap Nat Stream := {}

namespace Filter

def fresh : Filter := {}

/-! ## Configurations -/

/-- Accept a configuration that is offered, if it is one.  Without one, what was accepted
stays as it is. -/
def accept (filter : Filter) (configuration : Option Bytes) :
    Except Settings.Rejection Filter :=
  match configuration with
  | none => .ok filter
  | some bytes => (Settings.ofBytes bytes).map fun accepted => { filter with accepted }

def share (filter : Filter) : Filter :=
  { filter with shared := filter.accepted }

def configure (filter : Filter) (configuration : Option Bytes) :
    Except Settings.Rejection Filter :=
  (filter.accept configuration).map share

/-! ## Streams -/

/-- Put a stream in its place. -/
def keep (filter : Filter) (number : Nat) (stream : Stream) : Filter :=
  { filter with streams := filter.streams.insert number stream }

/-- Begin a stream.  A number that is taken is not given again. -/
def create (filter : Filter) (number : Nat) : Filter :=
  if filter.streams.contains number then filter
  else filter.keep number (.fresh number filter.shared)

/-- The turn of a stream, if there is one of the number. -/
def turn? (filter : Filter) (number : Nat) (call : Stream.Call) : Option Turn :=
  filter.streams[number]?.map fun stream => stream.turn call

/-! ## Calls -/

inductive Call where
  | configure (configuration : Option Bytes)
  | create (number : Nat)
  | turn (number : Nat) (call : Stream.Call)

def after (filter : Filter) : Call → Filter
  | .configure configuration =>
    match filter.configure configuration with
    | .ok configured => configured
    | .error _ => filter
  | .create number => filter.create number
  | .turn number call =>
    match filter.turn? number call with
    | some turn => filter.keep number turn.stream
    | none => filter

def effects (filter : Filter) : Call → List Effect
  | .configure configuration =>
    match filter.configure configuration with
    | .ok configured => [.installed configured.accepted]
    | .error rejection => [.rejected rejection]
  | .create _ => []
  | .turn number call =>
    match filter.turn? number call with
    | some turn => turn.effects
    | none => []

end Filter
end Response
end EdgeIncludes
