/-
Every slot of a page has a request.

A slot goes into the output with the number of a request that was registered just then, and no
request is ever taken back.  The slots that were delivered in the history of a builder are
therefore the numbers of its requests, in order and without a gap (`Registers`), and the slots of
the page are some of them in the same order (`Arises.slots_sublist`).
-/
import EdgeIncludes.Page.Intake
import EdgeIncludes.Proofs.Page.Builder
import EdgeIncludes.Proofs.Page.Selection

namespace EdgeIncludes
namespace Page

open Markup (Attribute Event)

/-! ## The slots of a page -/

def Atom.slot? : Atom → Option Nat
  | .byte _ => none
  | .slot number => some number

theorem filterMap_slot?_map_byte (bytes : Bytes) :
    (bytes.map Atom.byte).filterMap Atom.slot? = [] := by
  simp [Atom.slot?]

theorem Segment.filterMap_slot?_atoms (segment : Segment) :
    segment.atoms.filterMap Atom.slot? = segment.slot?.toList := by
  cases segment with
  | literal bytes => exact filterMap_slot?_map_byte bytes
  | slot number => rfl

namespace Document

/-- The slots of the output, in order. -/
def slots (document : Document) : List Nat :=
  document.segments.filterMap Segment.slot?

theorem slots_eq (document : Document) :
    document.slots = document.atoms.filterMap Atom.slot? := by
  rw [slots, atoms]
  induction document.segments with
  | nil => rfl
  | cons segment rest ih =>
    rw [List.flatMap_cons, List.filterMap_append, ← ih, Segment.filterMap_slot?_atoms,
      List.filterMap_cons]
    cases segment.slot? <;> rfl

theorem mem_pending_iff {document : Document} {number : Nat} :
    number ∈ document.pending ↔ number ∈ document.slots :=
  List.mem_eraseDups

theorem isStatic_iff (document : Document) : document.isStatic ↔ document.slots = [] := by
  rw [isStatic, slots, List.filterMap_eq_nil_iff]
  simp

theorem nodup_eraseDups (numbers : List Nat) : numbers.eraseDups.Nodup := by
  -- what follows the first number is filtered before it goes on, so the induction is on lengths
  induction hlength : numbers.length using Nat.strongRecOn generalizing numbers with
  | ind length ih =>
    cases numbers with
    | nil => exact List.nodup_nil
    | cons number rest =>
      rw [List.eraseDups_cons, List.nodup_cons, List.mem_eraseDups, List.mem_filter]
      refine ⟨fun h => ?_, ih _ ?_ _ rfl⟩
      · rw [beq_self_eq_true] at h
        cases h.2
      · rw [← hlength, List.length_cons]
        exact Nat.lt_succ_of_le (List.length_filter_le _ rest)

theorem eraseDups_of_nodup {numbers : List Nat} (h : numbers.Nodup) :
    numbers.eraseDups = numbers := by
  induction numbers with
  | nil => rfl
  | cons number rest ih =>
    obtain ⟨hnumber, hrest⟩ := List.nodup_cons.mp h
    have hothers : rest.filter (fun other => !other == number) = rest :=
      List.filter_eq_self.mpr fun other hmem => by
        rw [Bool.not_eq_true', beq_eq_false_iff_ne]
        exact fun heq => hnumber (heq ▸ hmem)
    rw [List.eraseDups_cons, hothers, ih hrest]

theorem nodup_pending (document : Document) : document.pending.Nodup :=
  nodup_eraseDups _

end Document

/-! ## The requests of a builder -/

namespace Builder

@[simp] theorem requests_deliver (builder : Builder) (add : Fragment → Fragment) :
    (builder.deliver add).requests = builder.requests := by
  rw [deliver.eq_def]
  repeat' split
  all_goals rfl

@[simp] theorem requests_closeTop (builder : Builder) :
    builder.closeTop.requests = builder.requests := by
  match hstack : builder.stack with
  | [] => rw [closeTop, hstack]
  | [closed] => rw [closeTop_eq_of_last hstack]
  | closed :: parent :: rest => rw [closeTop_eq_of_inner hstack]

@[simp] theorem requests_closeMany (count : Nat) (builder : Builder) :
    (closeMany count builder).requests = builder.requests := by
  induction count generalizing builder with
  | zero => rfl
  | succ count ih => rw [closeMany, ih, requests_closeTop]

/-- The request that the event asks for, unless it is ignored. -/
def asked? (builder : Builder) : Event → Option Include.Request
  | .startTag name attributes =>
    if Tag.ofName? name = some .inclusion ∧ builder.ignoring = false then
      (Include.Request.ofAttributes attributes).toOption
    else none
  | _ => none

theorem requests_register (builder : Builder) (attributes : List Attribute) :
    (builder.register attributes).requests =
      builder.requests ++ (Include.Request.ofAttributes attributes).toOption.toList := by
  rw [register]
  cases Include.Request.ofAttributes attributes with
  | ok request => exact requests_deliver _ _
  | error refusal =>
    have hnone : (if builder.silentErrors then builder else builder.raise).requests =
        builder.requests := by
      split <;> rfl
    exact hnone.trans (List.append_nil _).symm

/-- Requests are added one by one, and none is taken back or renumbered. -/
theorem requests_receive (builder : Builder) (event : Event) :
    (builder.receive event).requests = builder.requests ++ (builder.asked? event).toList := by
  cases event with
  | output bytes => exact (requests_deliver builder _).trans (List.append_nil _).symm
  | endTag name =>
    refine Eq.trans ?_ (List.append_nil _).symm
    rw [receive]
    split
    · exact requests_closeMany _ builder
    · rfl
  | startTag name attributes =>
    rw [receive, asked?]
    cases Tag.ofName? name with
    | none => simp
    | some tag =>
      show (builder.prepare tag attributes).requests = _
      cases tag with
      | inclusion =>
        cases hignoring : builder.ignoring with
        | true => simp [prepare, hignoring]
        | false => simpa [prepare, hignoring] using requests_register builder attributes
      | _ => simp [prepare]

theorem requests_document (builder : Builder) :
    builder.document.requests = builder.requests :=
  requests_closeMany _ builder

end Builder

/-! ## The slots of a history -/

namespace History

variable {builder : Builder} {history : History}

@[simp] theorem delivered_closeTop (history : History) :
    history.closeTop.delivered = history.delivered := by
  rw [closeTop.eq_def]
  split <;> rfl

@[simp] theorem delivered_closeMany (count : Nat) (history : History) :
    (closeMany count history).delivered = history.delivered := by
  induction count generalizing history with
  | zero => rfl
  | succ count ih => rw [closeMany, ih, delivered_closeTop]

def slots (history : History) : List Nat :=
  history.delivered.filterMap fun delivery => delivery.1.slot?

theorem slots_deliver (history : History) (atoms : List Atom) :
    (history.deliver atoms).slots = history.slots ++ atoms.filterMap Atom.slot? := by
  rw [slots, deliver, List.filterMap_append, List.filterMap_map]
  rfl

/-- The slots that were delivered are the numbers of the builder's requests, in order. -/
def Registers (history : History) (builder : Builder) : Prop :=
  history.slots = List.range builder.requests.length

namespace Registers

theorem congr (h : Registers history builder) {later : History} {next : Builder}
    (hdelivered : later.delivered = history.delivered)
    (hrequests : next.requests = builder.requests) : Registers later next := by
  rw [Registers, slots, hdelivered, hrequests]
  exact h

theorem output (h : Registers history builder) (bytes : Bytes) :
    Registers (history.deliver (bytes.map .byte)) builder := by
  rw [Registers, slots_deliver, filterMap_slot?_map_byte, List.append_nil]
  exact h

theorem register (h : Registers history builder) (attributes : List Attribute)
    (hignoring : ¬ builder.ignoring) :
    Registers (history.register builder attributes) (builder.register attributes) := by
  rw [Builder.register, History.register]
  cases Include.Request.ofAttributes attributes with
  | ok request =>
    simp only [if_neg hignoring]
    rw [Registers, slots_deliver, h, Builder.requests_deliver, List.length_append,
      List.length_singleton, List.range_succ]
    rfl
  | error refusal => exact h.congr rfl (by dsimp only; split <;> rfl)

theorem openTag (h : Registers history builder) (tag : Tag) (attributes : List Attribute) :
    Registers (history.openTag builder tag attributes) (builder.openTag tag attributes) := by
  rw [History.openTag, Builder.openTag]
  by_cases htag : tag = .inclusion
  · subst htag
    rw [if_pos rfl, Builder.prepare]
    by_cases hignoring : builder.ignoring
    · rw [Describes.register_ignoring attributes hignoring]
      exact h.congr rfl (by simp only [if_pos hignoring])
    · exact (h.register attributes hignoring).congr rfl (by simp only [if_neg hignoring])
  · rw [if_neg htag]
    refine h.congr rfl ?_
    cases tag <;> first | rfl | exact absurd rfl htag

theorem after (h : Registers history builder) (call : Builder.Call) :
    Registers (history.after builder call) (builder.after call) := by
  cases call with
  | raise => exact h.congr rfl rfl
  | take => rfl
  | event event =>
    cases event with
    | output bytes => exact (h.output bytes).congr rfl (Builder.requests_deliver builder _)
    | startTag name attributes =>
      rw [History.after, Builder.after, Builder.receive]
      cases Tag.ofName? name with
      | none => exact h
      | some tag => exact h.openTag tag attributes
    | endTag name =>
      rw [History.after, Builder.after, Builder.receive]
      cases Tag.ofName? name with
      | none => exact h
      | some tag =>
        exact h.congr (delivered_closeMany _ history) (Builder.requests_closeMany _ builder)

theorem foldl (h : Registers history builder) (calls : List Builder.Call) :
    Registers (calls.foldl observe (builder, history)).2
      (calls.foldl observe (builder, history)).1 := by
  induction calls generalizing builder history with
  | nil => exact h
  | cons call calls ih => exact ih (h.after call)

end Registers

/-- The page has no slot that was not delivered, and has its slots in that order. -/
theorem slots_kept_sublist (history : History) :
    (history.kept.filterMap Atom.slot?).Sublist history.slots := by
  rw [kept, List.filterMap_map]
  exact List.filter_sublist.filterMap _

end History

/-! ## Builders that came about -/

/-- The builder is one that a new builder becomes after some calls. -/
def Builder.Arises (builder : Builder) : Prop :=
  ∃ (silentErrors logTags : Bool) (calls : List Builder.Call),
    calls.foldl Builder.after (Builder.fresh silentErrors logTags) = builder

namespace Builder.Arises

variable {builder : Builder}

theorem fresh (silentErrors logTags : Bool) : (Builder.fresh silentErrors logTags).Arises :=
  ⟨silentErrors, logTags, [], rfl⟩

theorem after (h : builder.Arises) (call : Call) : (builder.after call).Arises := by
  obtain ⟨silentErrors, logTags, calls, rfl⟩ := h
  exact ⟨silentErrors, logTags, calls ++ [call], List.foldl_append⟩

theorem hear (h : builder.Arises) (events : List Event) : (builder.hear events).1.Arises := by
  induction events generalizing builder with
  | nil => exact h
  | cons event rest ih => exact ih (h.after (.event event))

/-- The slots of the page are numbers of its requests, in order. -/
theorem slots_sublist (h : builder.Arises) :
    builder.document.slots.Sublist (List.range builder.document.requests.length) := by
  obtain ⟨silentErrors, logTags, calls, rfl⟩ := h
  have hdescribes := (Describes.fresh silentErrors logTags).foldl calls
  have hnew : History.Registers {} (Builder.fresh silentErrors logTags) := rfl
  have hregisters := hnew.foldl calls
  rw [foldl_observe_fst] at hdescribes hregisters
  rw [Builder.requests_document, ← hregisters, Document.slots_eq, hdescribes.document_eq]
  refine (History.slots_kept_sublist _).trans ?_
  rw [History.slots, History.ended, History.delivered_closeMany]
  exact List.Sublist.refl _

theorem lt_length_requests (h : builder.Arises) {number : Nat}
    (hslot : number ∈ builder.document.slots) : number < builder.document.requests.length :=
  List.mem_range.mp (h.slots_sublist.subset hslot)

theorem pairwise_slots (h : builder.Arises) : builder.document.slots.Pairwise (· < ·) :=
  List.pairwise_lt_range.sublist h.slots_sublist

theorem pending_eq_slots (h : builder.Arises) :
    builder.document.pending = builder.document.slots :=
  Document.eraseDups_of_nodup (h.pairwise_slots.imp Nat.ne_of_lt)

theorem isSome_request? (h : builder.Arises) {number : Nat}
    (hpending : number ∈ builder.document.pending) :
    (builder.document.request? number).isSome := by
  rw [Document.request?, isSome_getElem?]
  exact h.lt_length_requests (Document.mem_pending_iff.mp hpending)

end Builder.Arises

/-! ## Intakes -/

namespace Intake

variable {intake : Intake}

theorem arises_take (h : intake.builder.Arises) (chunk : Bytes) (last : Bool) :
    (intake.take chunk last).intake.builder.Arises := by
  rw [take]
  split
  · exact h
  · dsimp only
    split
    · exact h
    · split
      · exact ((h.hear _).hear _).after .take
      · exact h.hear _

/-- The document that an intake hands over has a request for each of its slots. -/
theorem isSome_request?_of_complete (h : intake.builder.Arises) {chunk : Bytes} {last : Bool}
    {document : Document}
    (hcomplete : (intake.take chunk last).decision = some (.complete document)) {number : Nat}
    (hpending : number ∈ document.pending) :
    (document.request? number).isSome := by
  rw [take] at hcomplete
  split at hcomplete
  · cases hcomplete
  · dsimp only at hcomplete
    split at hcomplete
    · cases hcomplete
    · split at hcomplete
      · cases hcomplete
        exact ((h.hear _).hear _).isSome_request? hpending
      · cases hcomplete

end Intake
end Page
end EdgeIncludes
