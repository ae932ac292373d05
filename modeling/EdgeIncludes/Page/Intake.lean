/-
A body on its way to a document.

An intake scans a body as it arrives and builds the page from what it scans; the body
itself is not kept.  The document is handed over once, with the chunk that ends the body.
A body that grows past the limit is given up, and so is every chunk after the end.
-/
import EdgeIncludes.Eligibility
import EdgeIncludes.Page.Builder
import EdgeIncludes.Scan.Scanner
import EdgeIncludes.Settings

namespace EdgeIncludes
namespace Page

inductive Decision where
  | more
  | complete (document : Document)
  | skip (reason : Skip)
deriving Repr, DecidableEq

def Decision.isMore : Decision → Bool
  | .more => true
  | _ => false

def Decision.document? : Decision → Option Document
  | .complete document => some document
  | _ => none

def Decision.skip? : Decision → Option Skip
  | .skip reason => some reason
  | _ => none

structure Intake where
  scanner : Scan.Scanner := .fresh
  builder : Builder
  total : Nat := 0
  limit : Nat
  complete : Bool := false
deriving Repr, DecidableEq

namespace Intake

def fresh (settings : Settings) : Intake where
  builder := .fresh settings.silentErrors settings.logTags
  limit := settings.maxBodySize.toNat

/-- What there is after a call: the intake, the decision if the call asks for one, and
what there is to say. -/
structure Turn where
  intake : Intake
  decision : Option Decision := none
  notices : List Notice := []
deriving Repr, DecidableEq

def advance (intake : Intake) (chunk : Bytes) : Intake × List Notice :=
  let (scanner, events) := intake.scanner.feed chunk
  let (builder, notices) := intake.builder.hear events
  ({ intake with scanner, builder }, notices)

/-- End the body: what the scanner still holds is text, and the page is complete. -/
def conclude (intake : Intake) : Turn :=
  let (scanner, events) := intake.scanner.finish
  let (builder, notices) := intake.builder.hear events
  { intake := { intake with scanner, builder := builder.after .take, complete := true }
    decision := some (.complete builder.document)
    notices := notices ++ builder.notices .take }

def take (intake : Intake) (chunk : Bytes) (last : Bool) : Turn :=
  if intake.complete then { intake, decision := some (.skip .alreadyDone) }
  else
    let counted := { intake with total := intake.total + chunk.length }
    if counted.limit < counted.total then
      { intake := { counted with complete := true }, decision := some (.skip .tooLong) }
    else
      let (advanced, notices) := counted.advance chunk
      if last then
        let ended := advanced.conclude
        { ended with notices := notices ++ ended.notices }
      else { intake := advanced, decision := some .more, notices }

def raise (intake : Intake) : Intake :=
  { intake with builder := intake.builder.raise }

def reset (intake : Intake) : Turn :=
  { intake := { intake with
      scanner := .fresh
      builder := intake.builder.after .take
      total := 0
      complete := false }
    notices := intake.builder.notices .take }

inductive Call where
  | chunk (bytes : Bytes) (last : Bool)
  | raise
  | reset
deriving Repr, DecidableEq

def turn (intake : Intake) : Call → Turn
  | .chunk bytes last => intake.take bytes last
  | .raise => { intake := intake.raise }
  | .reset => intake.reset

end Intake
end Page
end EdgeIncludes
