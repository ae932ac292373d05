/-
What an include asks for.

An include names its fragment by `src`, may name another by `alt` to be tried once if the
first is not to be had, and may say by `onerror="continue"` that a missing fragment is
not worth a warning.  An empty value counts as no value.
-/
import EdgeIncludes.Markup.Event
import EdgeIncludes.Text.Field

namespace EdgeIncludes
namespace Include

/-! ## Refusals -/

inductive Refusal where
  | missingSource
  | unsupportedScheme (scheme : String)
  | missingHost (url : String)
deriving Repr, DecidableEq

def Refusal.message : Refusal → String
  | .missingSource => "esi:include without src"
  | .unsupportedScheme scheme => "Unsupported scheme: " ++ scheme
  | .missingHost url => "No host for include: " ++ url

/-! ## Requests -/

structure Request where
  src : String
  alt : Option String := none
  /-- A missing fragment is not worth a warning. -/
  continueOnError : Bool := false
deriving Repr, DecidableEq

/-- The value of the attribute that counts: the first of its name, if it is not empty. -/
def givenValue? (name : String) (attributes : List Markup.Attribute) : Option String :=
  (Markup.Attribute.valueOf? name attributes).filter fun value => !value.isEmpty

/-- The value of `onerror` that asks for silence, in any case. -/
def continueWord : List Char := ['c', 'o', 'n', 't', 'i', 'n', 'u', 'e']

def Request.ofAttributes (attributes : List Markup.Attribute) : Except Refusal Request :=
  match givenValue? "src" attributes with
  | none => .error .missingSource
  | some src => .ok {
      src
      alt := givenValue? "alt" attributes
      continueOnError := (Markup.Attribute.valueOf? "onerror" attributes).any fun value =>
        Text.sameLetters value.toList continueWord }

end Include
end EdgeIncludes
