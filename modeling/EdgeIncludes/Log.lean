/-
Log lines, and the records among them.

A line has a level and a text.  The rest of the library does not write lines but says
what happened, each part in its own words, and every such notice has a line of its own;
the texts stand beside the notices they belong to.  Which lines are seen is settled at
the end, by a threshold.

An audit record is one line of JSON about one thing that the filter did.  Its members
stand in a fixed order, and members that say nothing are left out.
-/

namespace EdgeIncludes
namespace Log

/-! ## Lines -/

inductive Level where
  | debug
  | info
  | warn
deriving Repr, DecidableEq

def Level.rank : Level → Nat
  | .debug => 0
  | .info => 1
  | .warn => 2

structure Line where
  level : Level
  text : String
deriving Repr, DecidableEq

def Line.isSeen (threshold : Level) (line : Line) : Bool :=
  threshold.rank ≤ line.level.rank

def seen (threshold : Level) (lines : List Line) : List Line :=
  lines.filter (Line.isSeen threshold)

end Log

namespace Json

/-! ## Strings as JSON writes them

The quote and the backslash get a backslash, five control characters have letters of
their own, the other characters below the space are given by four hexadecimal digits, and
everything else stands for itself. -/

/-- A control character by its number, which is less than thirty-two. -/
def escapeControl (c : Char) : List Char :=
  ['\\', 'u', '0', '0', Nat.digitChar (c.toNat / 16), Nat.digitChar (c.toNat % 16)]

def escapeChar (c : Char) : List Char :=
  if c == '"' || c == '\\' then ['\\', c]
  else if c == '\x08' then ['\\', 'b']
  else if c == '\x0c' then ['\\', 'f']
  else if c == '\n' then ['\\', 'n']
  else if c == '\r' then ['\\', 'r']
  else if c == '\t' then ['\\', 't']
  else if c.toNat < 0x20 then escapeControl c
  else [c]

def quote (text : String) : String :=
  String.ofList ('"' :: text.toList.flatMap escapeChar ++ ['"'])

end Json

namespace Audit

/-! ## Audit records -/

inductive Kind where
  | includeDispatched
  | includeFailed
  /-- A fragment could not be had, and its replacement is asked for. -/
  | includeFailover
  | documentAssembled
  | processingSkipped
deriving Repr, DecidableEq

def Kind.name : Kind → String
  | .includeDispatched => "include_dispatched"
  | .includeFailed => "include_failed"
  | .includeFailover => "include_failover"
  | .documentAssembled => "document_assembled"
  | .processingSkipped => "processing_skipped"

structure Record where
  kind : Kind
  requestPath : Option String := none
  src : Option String := none
  status : Option Nat := none
  depth : Option Nat := none
  bytes : Option Nat := none
  includes : Option Nat := none
  reason : Option String := none
deriving Repr, DecidableEq

namespace Record

def member (name value : String) : String :=
  Json.quote name ++ ":" ++ value

def members (record : Record) : List String :=
  [ some (member "event_type" (Json.quote record.kind.name)),
    record.requestPath.map fun path => member "request_path" (Json.quote path),
    record.src.map fun src => member "src" (Json.quote src),
    record.status.map fun status => member "status" (toString status),
    record.depth.map fun depth => member "depth" (toString depth),
    record.bytes.map fun bytes => member "bytes" (toString bytes),
    record.includes.map fun includes => member "includes" (toString includes),
    record.reason.map fun reason => member "reason" (Json.quote reason) ].filterMap id

def json (record : Record) : String :=
  "\x7b" ++ ",".intercalate record.members ++ "\x7d"

def level (record : Record) : Log.Level :=
  if record.kind = .includeFailed then .warn else .info

def line (record : Record) : Log.Line :=
  ⟨record.level, "[ESI-AUDIT] " ++ record.json⟩

/-! ### The records that are made in more than one place -/

def skipped (reason : String) : Record :=
  { kind := .processingSkipped, reason }

def includeFailed (src reason : String) : Record :=
  { kind := .includeFailed, src, reason }

def assembled (bytes includes : Nat) : Record :=
  { kind := .documentAssembled, bytes, includes }

end Record
end Audit
end EdgeIncludes
