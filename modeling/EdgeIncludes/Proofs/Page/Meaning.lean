/-
A well-nested page means what its elements mean.

The builder follows tags one by one, with two flags and a mark on its groups, and what a page
means is said by recursion on its elements.  That the two agree is an induction on the page
with two statements.  Siblings that are not the children of a group grow the builder by what
they mean (`Forest.HearGrows`), and the children of a group leave in it the attempts and the
branches that stand, apart (`Forest.HearHolds`).  The flag for exceptions is not cleared
where a group opens, and it is the attempt in front of every branch that makes it safe to ask:
from then on it is set only if the group has failed.
-/
import EdgeIncludes.Proofs.Page.Group
import EdgeIncludes.Proofs.Scan.Chunking

namespace EdgeIncludes
namespace Page

open Markup (Event Piece Token piecesAttributes tokensBytes tokensBytes_cons tokensEvents
  tokensEvents_append tokensEvents_cons)
open Scan (Draft Scanner)

/-! ## Hearing elements -/

namespace Forest

namespace Takes

variable {builder after : Builder} {outer : List Tag} {value : List Content} {missed : Bool}

end Takes

variable {builder : Builder} {outer : List Tag} {tag : Tag} {pieces : List Piece}
  {stop : Option Bytes} {children rest : Forest}

section Group

variable {group : OpenTag} {attempts : List Content} {standing : List (List Content)}

end Group

/-! ## Whole pages -/

end Forest
end Page
end EdgeIncludes
