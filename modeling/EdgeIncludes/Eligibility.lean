/-
Which responses are processed, and why the others are left as they are.

The decision is made on the headers, before any of the body is seen.  A request that was
made for an include carries its depth in a header, and a page that is included too deep
is not processed, which is what ends a page that includes itself.  A response whose headers
let it pass may still be given up when its body turns out too long.
-/
import EdgeIncludes.Settings

namespace EdgeIncludes

/-- A reason not to process a response, or to give up processing it. -/
inductive Skip where
  | disabled
  | tooDeep
  | otherType
  | emptyBody
  | tooLong
  | alreadyDone
deriving Repr, DecidableEq

def Skip.text : Skip → String
  | .disabled => "ESI disabled"
  | .tooDeep => "Include depth limit reached"
  | .otherType => "Content type not configured for ESI"
  | .emptyBody => "Empty body"
  | .tooLong => "Body exceeds max size"
  | .alreadyDone => "Body already processed"

namespace Response

def depthHeader : String := "x-esi-depth"

/-- The depth that the header states.  A header that is not there, or states nothing,
stands for a page that is not included. -/
def depthOf (header : Option String) : Nat :=
  (header.bind fun value => Text.number? UInt32.size (Text.trim value.toList)).getD 0

/-- The length that the header states, if it states one that is a size. -/
def lengthOf? (header : Option String) : Option Nat :=
  header.bind fun value => Text.number? Size.bound (Text.trim value.toList)

/-- Why a response with these headers is not processed, if it is not. -/
def skip? (settings : Settings) (depth : Nat) (contentType contentLength : Option String) :
    Option Skip :=
  if !settings.enabled then some .disabled
  else if settings.maxDepth.toNat ≤ depth then some .tooDeep
  else if !contentType.any settings.matchesType then some .otherType
  else match lengthOf? contentLength with
    | none => none
    | some length =>
      if length = 0 then some .emptyBody
      else if settings.maxBodySize.toNat < length then some .tooLong
      else none

end Response
end EdgeIncludes
