/-
Where a fragment is fetched from.

A fragment's URL is read against the page it is included in.  A URL in which `://` occurs
names its own host; the scheme in front of it must be one of two.  Every other URL is a
path on the page's host, either absolute or relative to the directory of the page.
-/
import EdgeIncludes.Include.Request
import EdgeIncludes.Text.Field

namespace EdgeIncludes
namespace Include

structure Target where
  authority : String
  path : String
deriving Repr, DecidableEq

namespace Target

/-! ## Parts of a URL -/

/-- The text before the first `://` and the text after it. -/
def splitAtScheme? : List Char → Option (List Char × List Char)
  | [] => none
  | c :: rest =>
    if ['/', '/'].isPrefixOf rest && c == ':' then some ([], rest.drop 2)
    else (splitAtScheme? rest).map fun (scheme, after) => (c :: scheme, after)

def schemes : List (List Char) := [['h', 't', 't', 'p'], ['h', 't', 't', 'p', 's']]

/-- The scheme is served, in whatever case it is written. -/
def isServed (scheme : List Char) : Bool :=
  schemes.any (Text.sameLetters scheme)

def isHostChar (c : Char) : Bool :=
  c != '/' && c != '?'

/-- The path that follows a host, which has a `/` in front whether or not one is
written. -/
def pathAfterHost : List Char → List Char
  | '/' :: rest => '/' :: rest
  | rest => '/' :: rest

/-- The directory of a page: its path up to the last `/`, without its query. -/
def directory (page : List Char) : List Char :=
  let path := page.takeWhile fun c => c != '?'
  match (path.reverse.dropWhile fun c => c != '/').reverse with
  | [] => ['/']
  | directory => directory

/-! ## Resolution -/

def ofAbsolute (url scheme after : List Char) : Except Refusal Target :=
  if !isServed scheme then .error (.unsupportedScheme (String.ofList scheme))
  else
    let host := after.takeWhile isHostChar
    if host.isEmpty then .error (.missingHost (String.ofList url))
    else .ok ⟨String.ofList host, String.ofList (pathAfterHost (after.dropWhile isHostChar))⟩

def ofPath (url : List Char) (authority page : String) : Except Refusal Target :=
  if authority.isEmpty then .error (.missingHost (String.ofList url))
  else if url.head? = some '/' then .ok ⟨authority, String.ofList url⟩
  else .ok ⟨authority, String.ofList (directory page.toList ++ url)⟩

/-- The target of a URL on the page at `page` of the host `authority`. -/
def resolve (url authority page : String) : Except Refusal Target :=
  let url := Text.trim url.toList
  if url.isEmpty then .error .missingSource
  else match splitAtScheme? url with
    | some (scheme, after) => ofAbsolute url scheme after
    | none => ofPath url authority page

end Target

def Request.target (request : Request) (authority page : String) : Except Refusal Target :=
  Target.resolve request.src authority page

def Request.altTarget? (request : Request) (authority page : String) :
    Option (Except Refusal Target) :=
  request.alt.map fun alt => Target.resolve alt authority page

end Include
end EdgeIncludes
