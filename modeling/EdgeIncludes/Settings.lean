/-
The settings of the filter.

Settings come as the bytes of a JSON text, either an object whose members are named or an
array of the same values in a fixed order.  A setting that is not given has its default.
A member of another name is allowed and ignored, but a setting given twice, or given a
value it cannot have, makes the whole text no settings.
-/
import EdgeIncludes.Json.Value
import EdgeIncludes.Text.Field
import EdgeIncludes.Text.Utf8

namespace EdgeIncludes

structure Settings where
  enabled : Bool := true
  /-- Includes that fail are no cause for exceptions and warnings. -/
  silentErrors : Bool := false
  types : List String := ["text/html"]
  /-- A page included at this depth is not processed. -/
  maxDepth : UInt32 := 256
  /-- A body longer than this is not processed. -/
  maxBodySize : Size := 10485760
  fragmentCluster : String := "esi_upstream"
  /-- How long a fragment may take, in milliseconds. -/
  includeTimeoutMs : UInt64 := 5000
  logTags : Bool := false
deriving Repr, DecidableEq

namespace Settings

def initial : Settings := {}

/-- The content type is one of those that are processed.  Blanks in front of it and what
follows the type, such as a character set, do not count, and neither does case. -/
def matchesType (settings : Settings) (contentType : String) : Bool :=
  settings.types.any fun type =>
    Text.startsWithLetters type.toList (Text.trimStart contentType.toList)

/-! ## Keys -/

inductive Key where
  | enabled
  | silentErrors
  | types
  | maxDepth
  | maxBodySize
  | fragmentCluster
  | includeTimeoutMs
  | logTags
deriving Repr, DecidableEq

namespace Key

def all : List Key :=
  [.enabled, .silentErrors, .types, .maxDepth, .maxBodySize, .fragmentCluster,
    .includeTimeoutMs, .logTags]

def name : Key → String
  | .enabled => "enabled"
  | .silentErrors => "silent_errors"
  | .types => "types"
  | .maxDepth => "max_depth"
  | .maxBodySize => "max_body_size"
  | .fragmentCluster => "upstream_cluster"
  | .includeTimeoutMs => "include_timeout_ms"
  | .logTags => "log_tags"

def ofName? (name : String) : Option Key :=
  all.find? fun key => key.name == name

end Key

/-! ## Values -/

def bool? : Json.Value → Option Bool
  | .bool value => some value
  | _ => none

def text? : Json.Value → Option String
  | .text (some value) => some (String.ofList value)
  | _ => none

/-- The count that a JSON value is, if it is less than the bound. -/
def count? (bound : Nat) : Json.Value → Option Nat
  | .number (some n) => if n < bound then some n else none
  | _ => none

def texts? : Json.Value → Option (List String)
  | .array items => items.mapM text?
  | _ => none

/-- The settings with one of them set, if the value is one that it can have. -/
def set? (settings : Settings) (key : Key) (value : Json.Value) : Option Settings :=
  match key with
  | .enabled => (bool? value).map fun enabled => { settings with enabled }
  | .silentErrors => (bool? value).map fun silentErrors => { settings with silentErrors }
  | .types => (texts? value).map fun types => { settings with types }
  | .maxDepth => (count? UInt32.size value).map fun n => { settings with maxDepth := .ofNat n }
  | .maxBodySize =>
    (count? Size.bound value).map fun n => { settings with maxBodySize := .ofNat n }
  | .fragmentCluster =>
    (text? value).map fun fragmentCluster => { settings with fragmentCluster }
  | .includeTimeoutMs =>
    (count? UInt64.size value).map fun n => { settings with includeTimeoutMs := .ofNat n }
  | .logTags => (bool? value).map fun logTags => { settings with logTags }

/-! ## Reading -/

/-- Read one member of the object form, given the settings read before it. -/
def member? (sofar : Settings × List Key) (member : Json.Member) :
    Option (Settings × List Key) := do
  let (settings, given) := sofar
  let name ← member.1
  match Key.ofName? (String.ofList name) with
  | none => some sofar
  | some key =>
    if given.contains key then none
    else (settings.set? key member.2).map fun settings => (settings, key :: given)

def ofMembers? (members : List Json.Member) : Option Settings :=
  (members.foldlM member? (initial, [])).map Prod.fst

def ofItems? (items : List Json.Value) : Option Settings :=
  if items.length ≤ Key.all.length then
    (Key.all.zip items).foldlM (fun settings (key, value) => settings.set? key value) initial
  else none

def ofValue? : Json.Value → Option Settings
  | .object members => ofMembers? members
  | .array items => ofItems? items
  | _ => none

inductive Rejection where
  | invalidUtf8 (fault : Utf8.Fault)
  | invalidJson
  /-- It lists no content type, so that nothing would ever be processed. -/
  | noContentTypes
deriving Repr, DecidableEq

/-- The wording of a rejection.  What a reader of JSON has to say about the place where a
text goes wrong is left out. -/
def Rejection.message : Rejection → String
  | .invalidUtf8 fault => "Invalid UTF-8: " ++ fault.message
  | .invalidJson => "Invalid JSON"
  | .noContentTypes => "types must list at least one content type"

def ofBytes (bytes : Bytes) : Except Rejection Settings :=
  match Utf8.strict bytes with
  | .error fault => .error (.invalidUtf8 fault)
  | .ok text =>
    match (Json.Value.read? text).bind ofValue? with
    | none => .error .invalidJson
    | some settings =>
      if settings.types.isEmpty then .error .noContentTypes else .ok settings

end Settings
end EdgeIncludes
