/-
From markup events to a document.

The builder keeps the stack of open tags, and every open tag collects its own output; the
output goes to the tag around it when the tag is closed.  Which tags let output through,
and which branch of an `esi:try` stands, is decided there and then, without looking
ahead.

Tags need not be nested well.  An end tag closes the outermost open tag of its kind, with
everything that was opened after it, innermost first.

What the builder does and what it says about it are two functions of the same state and
the same call: `after` is the builder that the call leaves behind, and `notices` is what
there is to be logged about it.
-/
import EdgeIncludes.Log
import EdgeIncludes.Page.Document
import EdgeIncludes.Tag

namespace EdgeIncludes
namespace Page

open Markup (Attribute Event)

/-! ## What there is to say -/

inductive Notice where
  | unknownTag (name : Bytes)
  | unknownEndTag (name : Bytes)
  | opened (tag : Tag) (attributes : Nat)
  | registered (number : Nat) (src : String)
  /-- An include could not be registered; whether that is an error is the setting's
  choice. -/
  | refused (refusal : Include.Refusal) (silent : Bool)
  | closed (tag : Tag)
  | unmatched (tag : Tag)
  | unterminated (count : Nat)
deriving Repr, DecidableEq

def Notice.line : Notice → Log.Line
  | .unknownTag name => ⟨.debug, "ignoring unknown tag <" ++ Utf8.lenient name ++ ">"⟩
  | .unknownEndTag name => ⟨.debug, "ignoring unknown end tag </" ++ Utf8.lenient name ++ ">"⟩
  | .opened tag attributes =>
    ⟨.debug, "esi open " ++ tag.text ++ " (" ++ toString attributes ++ " attributes)"⟩
  | .registered number src =>
    ⟨.debug, "esi:include slot " ++ toString number ++ " -> " ++ src⟩
  | .refused refusal silent => ⟨if silent then .debug else .warn, refusal.message⟩
  | .closed tag => ⟨.debug, "esi close " ++ tag.text⟩
  | .unmatched tag => ⟨.debug, "unmatched end tag </" ++ tag.text ++ ">"⟩
  | .unterminated count =>
    ⟨.debug, "closing " ++ toString count ++ " unterminated esi tag(s)"⟩

/-! ## Open tags -/

structure OpenTag where
  tag : Tag
  retains : Bool
  /-- The output collected; for `esi:try`, that of its attempts. -/
  content : Fragment := .empty
  /-- For `esi:try`, the output of what replaces its attempts, once there is some. -/
  fallback : Option Fragment := none
  /-- For `esi:try`, whether an exception was raised while no other group was inside. -/
  failed : Bool := false
deriving Repr, DecidableEq

namespace OpenTag

def isTry (opened : OpenTag) : Bool :=
  opened.tag == .tryBlock

def output (opened : OpenTag) : Fragment :=
  if opened.isTry then opened.fallback.getD opened.content else opened.content

/-- The output of the tag, once closed, is wanted outside it. -/
def isKept (opened : OpenTag) : Bool :=
  opened.retains || opened.isTry

/-- The tag with the output of a tag closed directly inside it.  A group takes its
attempts, and sets the branches that replace them aside. -/
def adopt (parent closed : OpenTag) : OpenTag :=
  if parent.isTry && closed.tag == .attempt then
    { parent with content := parent.content ++ closed.output }
  else if parent.isTry && closed.tag == .except then
    if closed.retains then
      { parent with fallback := some (parent.fallback.getD .empty ++ closed.output) }
    else parent
  else if parent.retains && closed.isKept then
    { parent with content := parent.content ++ closed.output }
  else parent

/-- The stack, innermost first, with the innermost group marked as failed. -/
def failInnermost : List OpenTag → List OpenTag
  | [] => []
  | top :: below =>
    if top.isTry then { top with failed := true } :: below else top :: failInnermost below

def innermostFailed (stack : List OpenTag) : Bool :=
  (stack.find? isTry).any failed

end OpenTag

/-! ## The builder -/

structure Builder where
  /-- The open tags, innermost first. -/
  stack : List OpenTag := []
  root : Fragment := .empty
  requests : List Include.Request := []
  /-- An exception was raised since the last attempt began or ended. -/
  exceptionRaised : Bool := false
  /-- Inside a branch that does not stand, so that includes are not registered. -/
  ignoring : Bool := false
  silentErrors : Bool := false
  logTags : Bool := false
deriving Repr, DecidableEq

namespace Builder

def fresh (silentErrors logTags : Bool) : Builder :=
  { silentErrors, logTags }

/-- Flag a failure.  The innermost group remembers it. -/
def raise (builder : Builder) : Builder :=
  { builder with
    exceptionRaised := true
    stack := OpenTag.failInnermost builder.stack }

/-- Put output where output goes right now, if it goes anywhere. -/
def deliver (builder : Builder) (add : Fragment → Fragment) : Builder :=
  match builder.stack with
  | [] => { builder with root := add builder.root }
  | top :: below =>
    if top.retains then
      { builder with stack := { top with content := add top.content } :: below }
    else builder

/-! ## Opening -/

def nextNumber (builder : Builder) : Nat :=
  builder.requests.length

/-- Register the include that the attributes describe and put its slot into the output.
One that cannot be registered is a failure, unless errors are silent. -/
def register (builder : Builder) (attributes : List Attribute) : Builder :=
  match Include.Request.ofAttributes attributes with
  | .ok request =>
    { builder with requests := builder.requests ++ [request] }.deliver fun output =>
      output.pushSlot builder.nextNumber
  | .error _ => if builder.silentErrors then builder else builder.raise

/-- A branch that opens now stands: an exception was raised in this attempt, or the
innermost group has failed. -/
def branchStands (builder : Builder) : Bool :=
  builder.exceptionRaised || OpenTag.innermostFailed builder.stack

def prepare (builder : Builder) (tag : Tag) (attributes : List Attribute) : Builder :=
  match tag with
  | .attempt => { builder with exceptionRaised := false }
  | .except => { builder with ignoring := !builder.branchStands }
  | .inclusion => if builder.ignoring then builder else builder.register attributes
  | _ => builder

def opening (builder : Builder) (tag : Tag) : OpenTag :=
  { tag, retains := tag.retains && !(tag == .except && builder.ignoring) }

def openTag (builder : Builder) (tag : Tag) (attributes : List Attribute) : Builder :=
  let prepared := builder.prepare tag attributes
  { prepared with stack := prepared.opening tag :: prepared.stack }

/-! ## Closing -/

/-- Close the innermost tag.  The end of an attempt, or of what replaces it, ends what
was raised and ignored inside it. -/
def closeTop (builder : Builder) : Builder :=
  match builder.stack with
  | [] => builder
  | closed :: below =>
    let settled :=
      if closed.tag == .attempt || closed.tag == .except then
        { builder with exceptionRaised := false, ignoring := false }
      else builder
    match below with
    | [] =>
      { settled with
        stack := []
        root := if closed.isKept then settled.root ++ closed.output else settled.root }
    | parent :: rest => { settled with stack := parent.adopt closed :: rest }

def closeMany : Nat → Builder → Builder
  | 0, builder => builder
  | count + 1, builder => closeMany count builder.closeTop

/-- How many tags an end tag closes: the outermost open tag of its kind, and all that
were opened after it. -/
def closedBy? (builder : Builder) (tag : Tag) : Option Nat :=
  (builder.stack.reverse.findIdx? fun opened => opened.tag == tag).map fun outermost =>
    builder.stack.length - outermost

def closeTag (builder : Builder) (tag : Tag) : Builder :=
  closeMany ((builder.closedBy? tag).getD 0) builder

/-! ## Calls -/

def receive (builder : Builder) : Event → Builder
  | .startTag name attributes =>
    match Tag.ofName? name with
    | some tag => builder.openTag tag attributes
    | none => builder
  | .endTag name =>
    match Tag.ofName? name with
    | some tag => builder.closeTag tag
    | none => builder
  | .output bytes => builder.deliver fun output => output.pushBytes bytes

def closeAll (builder : Builder) : Builder :=
  closeMany builder.stack.length builder

def document (builder : Builder) : Document :=
  Document.of builder.closeAll.root builder.closeAll.requests

inductive Call where
  | event (event : Event)
  | raise
  | take
deriving Repr, DecidableEq

def after (builder : Builder) : Call → Builder
  | .event event => builder.receive event
  | .raise => builder.raise
  | .take => fresh builder.silentErrors builder.logTags

/-! ## What is said -/

/-- What there is to say about tags, if tags are to be logged. -/
def traced (builder : Builder) (notices : List Notice) : List Notice :=
  if builder.logTags then notices else []

def registerNotices (builder : Builder) (attributes : List Attribute) : List Notice :=
  match Include.Request.ofAttributes attributes with
  | .ok request => builder.traced [.registered builder.nextNumber request.src]
  | .error refusal => [.refused refusal builder.silentErrors]

def openNotices (builder : Builder) (tag : Tag) (attributes : List Attribute) : List Notice :=
  builder.traced [.opened tag attributes.length] ++
    if tag == .inclusion && !builder.ignoring then builder.registerNotices attributes else []

def closeNotices (builder : Builder) (count : Nat) : List Notice :=
  builder.traced ((builder.stack.take count).map fun closed => .closed closed.tag)

def eventNotices (builder : Builder) : Event → List Notice
  | .startTag name attributes =>
    match Tag.ofName? name with
    | some tag => builder.openNotices tag attributes
    | none => [.unknownTag name]
  | .endTag name =>
    match Tag.ofName? name with
    | some tag =>
      match builder.closedBy? tag with
      | some count => builder.closeNotices count
      | none => [.unmatched tag]
    | none => [.unknownEndTag name]
  | .output _ => []

def notices (builder : Builder) : Call → List Notice
  | .event event => builder.eventNotices event
  | .raise => []
  | .take =>
    if builder.stack.isEmpty then []
    else .unterminated builder.stack.length :: builder.closeNotices builder.stack.length

/-! ## Bodies -/

/-- Take events one after the other, and say what there is to say. -/
def hear (builder : Builder) : List Event → Builder × List Notice
  | [] => (builder, [])
  | event :: rest =>
    let (last, more) := (builder.receive event).hear rest
    (last, builder.eventNotices event ++ more)

end Builder
end Page
end EdgeIncludes
