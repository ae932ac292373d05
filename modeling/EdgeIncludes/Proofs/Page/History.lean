/-
A body as it went by.

The builder drops output as soon as it knows that nobody wants it, and merges the rest.  A
history drops and merges nothing.  It has every byte and every slot in the order in which
they were delivered, each with the tags that were open around it, and it notes which groups
were replaced.  From that, and without any output being moved about, `kept` says what a
reader of the page gets: what is let through by every tag around it.
-/
import EdgeIncludes.Page.Builder

namespace EdgeIncludes
namespace Page

open Markup (Event)

/-! ## Atoms -/

/-- The least pieces of output. -/
inductive Atom where
  | byte (b : UInt8)
  | slot (number : Nat)
deriving Repr, DecidableEq

def Segment.atoms : Segment → List Atom
  | .literal bytes => bytes.map .byte
  | .slot number => [.slot number]

def Fragment.atoms (fragment : Fragment) : List Atom :=
  fragment.segments.flatMap Segment.atoms

def Document.atoms (document : Document) : List Atom :=
  document.segments.flatMap Segment.atoms

/-! ## Frames -/

/-- An open tag.  The tags of a body are numbered as they open, so that a tag can be told
from another one of its kind. -/
structure Frame where
  number : Nat
  tag : Tag
  /-- An `esi:except` that was to be ignored when it opened. -/
  ignored : Bool
deriving Repr, DecidableEq

namespace Frame

def isGroup (frame : Frame) : Bool :=
  frame.tag == .tryBlock

def isAttempt (frame : Frame) : Bool :=
  frame.tag == .attempt

def isFallback (frame : Frame) : Bool :=
  frame.tag == .except && !frame.ignored

/-- Output inside the tag can get out of it. -/
def passes (frame : Frame) : Bool :=
  frame.tag == .vars || frame.isGroup || frame.isAttempt || frame.isFallback

/-- What the tag does with one directly above it.  A group takes fallbacks, and it takes
attempts unless it is replaced; other tags take anything. -/
def takes (replaced : List Nat) (frame inner : Frame) : Bool :=
  !frame.isGroup ||
    (inner.isAttempt && !replaced.contains frame.number || inner.isFallback)

/-- Output with these tags around it, innermost first, reaches the page: output can get out of
each of them, and each group has something directly above it that it takes. -/
def reaches (replaced : List Nat) (frames : List Frame) : Bool :=
  frames.all passes &&
    frames.head?.all (fun top => !top.isGroup) &&
    (frames.zip frames.tail).all fun (inner, frame) => frame.takes replaced inner

/-- The groups that are replaced once a tag is closed directly inside another one. -/
def replacing (replaced : List Nat) (outer closed : Frame) : List Nat :=
  if closed.isFallback && outer.isGroup then outer.number :: replaced else replaced

end Frame

/-! ## Histories -/

/-- What went by since a document was begun. -/
structure History where
  /-- The open tags, innermost first. -/
  frames : List Frame := []
  opened : Nat := 0
  /-- The output, each atom with the tags that were open around it. -/
  delivered : List (Atom × List Frame) := []
  /-- The numbers of the groups that closed a fallback directly inside them. -/
  replaced : List Nat := []

namespace History

def deliver (history : History) (atoms : List Atom) : History :=
  { history with
    delivered := history.delivered ++ atoms.map fun atom => (atom, history.frames) }

/-- An include is registered before it is pushed, if it can be and is not ignored. -/
def register (history : History) (builder : Builder) (attributes : List Markup.Attribute) :
    History :=
  match Include.Request.ofAttributes attributes with
  | .ok _ => if builder.ignoring then history else history.deliver [.slot builder.nextNumber]
  | .error _ => history

def push (history : History) (builder : Builder) (tag : Tag) : History :=
  { history with
    frames := ⟨history.opened, tag, tag == .except && !builder.branchStands⟩ :: history.frames
    opened := history.opened + 1 }

def openTag (history : History) (builder : Builder) (tag : Tag)
    (attributes : List Markup.Attribute) : History :=
  if tag = .inclusion then (history.register builder attributes).push builder tag
  else history.push builder tag

def closeTop (history : History) : History :=
  match history.frames with
  | [] => history
  | [_] => { history with frames := [] }
  | closed :: parent :: rest =>
    { history with
      frames := parent :: rest
      replaced := parent.replacing history.replaced closed }

def closeMany : Nat → History → History
  | 0, history => history
  | count + 1, history => closeMany count history.closeTop

/-- What stays open: the tags from the outermost one on up to the first of the kind. -/
def staying (history : History) (tag : Tag) : Nat :=
  (history.frames.reverse.takeWhile fun frame => frame.tag != tag).length

def closeTag (history : History) (tag : Tag) : History :=
  closeMany (history.frames.length - history.staying tag) history

/-- The history after a call on the builder. -/
def after (history : History) (builder : Builder) : Builder.Call → History
  | .event (.startTag name attributes) =>
    match Tag.ofName? name with
    | some tag => history.openTag builder tag attributes
    | none => history
  | .event (.endTag name) =>
    match Tag.ofName? name with
    | some tag => history.closeTag tag
    | none => history
  | .event (.output bytes) => history.deliver (bytes.map .byte)
  | .raise => history
  | .take => {}

/-- The history at the end of the body, where every tag that is open is closed. -/
def ended (history : History) : History :=
  closeMany history.frames.length history

/-- What reaches the page, in the order in which it was delivered. -/
def kept (history : History) : List Atom :=
  (history.delivered.filter fun (_, frames) => Frame.reaches history.replaced frames).map Prod.fst

end History

/-- A builder and its history, after a call. -/
def observe : Builder × History → Builder.Call → Builder × History
  | (builder, history), call => (builder.after call, history.after builder call)

theorem foldl_observe_fst (calls : List Builder.Call) (builder : Builder) (history : History) :
    (calls.foldl observe (builder, history)).1 = calls.foldl Builder.after builder := by
  induction calls generalizing builder history with
  | nil => rfl
  | cons call calls ih => exact ih _ _

/-! ## Places in a run -/

/-- At the place in the calls there is one of which the property holds, given the builder and the
history that it comes to. -/
def Occurs (P : Builder → History → Builder.Call → Prop) (start : Builder × History)
    (calls : List Builder.Call) (place : Nat) : Prop :=
  ∃ call, calls[place]? = some call ∧
    P ((calls.take place).foldl observe start).1 ((calls.take place).foldl observe start).2 call

/-- At the place there is a call of which the first property holds, and the second has held of
none since. -/
def Since (P Q : Builder → History → Builder.Call → Prop) (start : Builder × History)
    (calls : List Builder.Call) (place : Nat) : Prop :=
  Occurs P start calls place ∧ ∀ later, place < later → ¬ Occurs Q start calls later

section Places

variable {P Q : Builder → History → Builder.Call → Prop} {start : Builder × History}
  {calls : List Builder.Call} {call : Builder.Call} {place : Nat}

theorem Occurs.lt_length (h : Occurs P start calls place) : place < calls.length := by
  obtain ⟨call, hcall, -⟩ := h
  exact (List.getElem?_eq_some_iff.mp hcall).1

theorem occurs_snoc :
    Occurs P start (calls ++ [call]) place ↔ Occurs P start calls place ∨
      place = calls.length ∧
        P (calls.foldl observe start).1 (calls.foldl observe start).2 call := by
  rcases Nat.lt_trichotomy place calls.length with hlt | rfl | hgt
  · rw [Occurs, List.getElem?_append_left hlt, List.take_append_of_le_length (Nat.le_of_lt hlt)]
    exact (or_iff_left fun h => Nat.ne_of_lt hlt h.1).symm
  · have hpast : ¬ Occurs P start calls calls.length := fun h => Nat.lt_irrefl _ h.lt_length
    rw [or_iff_right hpast, Occurs, List.getElem?_concat_length, List.take_left]
    simp
  · have hlength : (calls ++ [call]).length ≤ place := by
      rw [List.length_append, List.length_singleton]
      exact hgt
    refine iff_of_false (fun h => Nat.not_lt.mpr hlength h.lt_length) ?_
    rintro (h | ⟨rfl, -⟩)
    · exact Nat.lt_asymm hgt h.lt_length
    · exact Nat.lt_irrefl _ hgt

theorem since_snoc :
    Since P Q start (calls ++ [call]) place ↔
      Since P Q start calls place ∧
          ¬ Q (calls.foldl observe start).1 (calls.foldl observe start).2 call ∨
        place = calls.length ∧
          P (calls.foldl observe start).1 (calls.foldl observe start).2 call := by
  simp only [Since, occurs_snoc, not_or, not_and]
  refine ⟨?_, ?_⟩
  · rintro ⟨hearlier | hlast, hsince⟩
    · refine Or.inl ⟨⟨hearlier, fun later hlater => (hsince later hlater).1⟩, ?_⟩
      exact (hsince calls.length hearlier.lt_length).2 rfl
    · exact Or.inr hlast
  · rintro (⟨⟨hearlier, hsince⟩, hnow⟩ | ⟨rfl, hlast⟩)
    · exact ⟨Or.inl hearlier, fun later hlater => ⟨hsince later hlater, fun _ => hnow⟩⟩
    · refine ⟨Or.inr ⟨rfl, hlast⟩, fun later hlater => ⟨?_, ?_⟩⟩
      · exact fun h => Nat.lt_asymm hlater h.lt_length
      · exact fun heq => absurd heq (Nat.ne_of_gt hlater)

end Places

end Page
end EdgeIncludes
