/-
What a turn can come to.

A turn that completes a page, and one that answers a fetch, end in the same way: when no fetch
is on its way the page is put in its place, and otherwise it is waited for.  The ledger of an
onlooker and the table of the assembly agree on which fetches are on their way (`Tied`), so that
the stream is done just when an onlooker would say so.
-/
import EdgeIncludes.Proofs.Response.Fetching
import Std.Data.TreeMap.Lemmas

namespace EdgeIncludes

/-! ## Decisions on a body -/

/-- A chunk is followed by more, unless it ends the body or the body is given up. -/
theorem Page.Intake.take_cases (intake : Page.Intake) (chunk : Bytes) (last : Bool) :
    (∃ reason, (intake.take chunk last).decision = some (.skip reason)) ∨
      (last = true ∧ ∃ document, (intake.take chunk last).decision = some (.complete document)) ∨
      (last = false ∧ (intake.take chunk last).decision = some .more) := by
  rw [take]
  by_cases hcomplete : intake.complete
  · rw [if_pos hcomplete]
    exact Or.inl ⟨_, rfl⟩
  · rw [if_neg hcomplete]
    dsimp only
    split
    · exact Or.inl ⟨_, rfl⟩
    · cases last with
      | true => exact Or.inr (Or.inl ⟨rfl, _, rfl⟩)
      | false => exact Or.inr (Or.inr ⟨rfl, rfl⟩)

namespace Response

/-! ## Kinds of effects -/

namespace Effect

def isWrite : Effect → Bool
  | .replacesBody .. => true
  | _ => false

def isResume : Effect → Bool
  | .resumes => true
  | _ => false

/-- The effect is one of those that let the response go, with another body or as it is. -/
def isRelease (effect : Effect) : Bool :=
  effect.isWrite || effect.isResume

/-- The effect is felt outside the filter, and not only told of. -/
def touches : Effect → Bool
  | .removesHeader _ | .asks .. | .replacesBody .. | .resumes => true
  | _ => false

end Effect

/-- What is done about fragments lets nothing go. -/
def Keeps (effects : List Effect) : Prop :=
  ∀ effect ∈ effects, effect.isRelease = false

namespace Keeps

variable {front back : List Effect}

theorem append (h : Keeps front) (hback : Keeps back) : Keeps (front ++ back) :=
  List.forall_mem_append.mpr ⟨h, hback⟩

theorem any_isWrite (h : Keeps front) : front.any Effect.isWrite = false :=
  List.any_eq_false.mpr fun effect hmem =>
    Bool.not_eq_true _ ▸ (Bool.or_eq_false_iff.mp (h effect hmem)).1

theorem any_isResume (h : Keeps front) : front.any Effect.isResume = false :=
  List.any_eq_false.mpr fun effect hmem =>
    Bool.not_eq_true _ ▸ (Bool.or_eq_false_iff.mp (h effect hmem)).2

theorem countP_isWrite (h : Keeps front) : front.countP Effect.isWrite = 0 :=
  List.countP_eq_zero.mpr (List.any_eq_false.mp h.any_isWrite)

theorem countP_isResume (h : Keeps front) : front.countP Effect.isResume = 0 :=
  List.countP_eq_zero.mpr (List.any_eq_false.mp h.any_isResume)

end Keeps

namespace Stream

variable {stream : Stream} {request : Include.Request} {fetch : Fetch} {slot : Nat}
  {effects : List Effect}

/-- What can be done about fragments: one is asked for, or something is recorded of a slot, or
told. -/
inductive Handles (stream : Stream) : Effect → Prop where
  | asks (fetch : Fetch) (target : Include.Target) (reply : Reply) :
      Handles stream (.asks (stream.subRequest fetch target) reply)
  | records (slot : Nat) (record : Audit.Record) : Handles stream (.records (some slot) record)
  | tells (notice : Notice) : Handles stream (stream.notes notice)

theorem Asks.handles {sent : Bool} (h : Asks stream request fetch sent effects) :
    ∀ effect ∈ effects, stream.Handles effect := by
  cases h with
  | accepted token htarget =>
    exact List.forall_mem_cons.mpr ⟨.asks .., List.forall_mem_singleton.mpr (.records ..)⟩
  | denied denial htarget =>
    exact List.forall_mem_cons.mpr ⟨.asks .., List.forall_mem_singleton.mpr (.tells _)⟩
  | unresolved htarget => exact List.forall_mem_singleton.mpr (.tells _)
  | unnamed htarget => exact List.forall_mem_nil _

theorem farewell_handles (stream : Stream) (slot : Nat) (request : Include.Request)
    (failure : Failure) : ∀ effect ∈ stream.farewell slot request failure,
      stream.Handles effect := by
  rw [farewell]
  refine List.forall_mem_cons.mpr ⟨.records .., ?_⟩
  split
  · exact List.forall_mem_nil _
  · exact List.forall_mem_singleton.mpr (.tells _)

theorem Fetches.handles (h : Fetches stream request slot effects) :
    ∀ effect ∈ effects, stream.Handles effect := by
  cases h with
  | source h => exact h.handles
  | replacement hsource h => exact List.forall_mem_append.mpr ⟨hsource.handles, h.handles⟩
  | nothing hsource h =>
    exact List.forall_mem_append.mpr ⟨List.forall_mem_append.mpr ⟨hsource.handles, h.handles⟩,
      farewell_handles stream slot request .notDispatched⟩

theorem FetchesAll.handles {document : Page.Document} {slots : List Nat}
    (h : FetchesAll stream document slots effects) : ∀ effect ∈ effects, stream.Handles effect := by
  induction h with
  | nil => exact List.forall_mem_nil _
  | without hrequest h ih => exact ih
  | slot hrequest hslot h ih => exact List.forall_mem_append.mpr ⟨hslot.handles, ih⟩

theorem Recovers.handles {failure : Failure} (h : Recovers stream request fetch failure effects) :
    ∀ effect ∈ effects, stream.Handles effect := by
  cases h with
  | final h => exact farewell_handles stream fetch.slot request failure
  | replacement hfirst h => exact List.forall_mem_cons.mpr ⟨.records .., h.handles⟩
  | nothing hfirst h =>
    exact List.forall_mem_cons.mpr ⟨.records .., List.forall_mem_append.mpr
      ⟨h.handles, farewell_handles stream fetch.slot request failure⟩⟩

theorem Answers.handles {assembly after : Assembly} {status : Option String} {fragment : Bytes}
    (h : Answers stream assembly fetch status fragment effects after) :
    ∀ effect ∈ effects, stream.Handles effect := by
  cases h with
  | success h => exact List.forall_mem_nil _
  | without h hrequest => exact List.forall_mem_nil _
  | failure h hrequest hrecovers => exact hrecovers.handles

theorem keeps_of_handles (h : ∀ effect ∈ effects, stream.Handles effect) : Keeps effects := by
  intro effect hmem
  cases h effect hmem <;> rfl

/-! ## The ends of turns -/

/-- The page is put in its place, and that is recorded. -/
def finale (stream : Stream) (assembly : Assembly) : List Effect :=
  [.replacesBody assembly.bodySize assembly.render,
    .records none { Audit.Record.assembled assembly.render.length assembly.filled with
      requestPath := stream.path }]

theorem replaceBody_effects (stream : Stream) (round : Round) :
    (stream.replaceBody round).effects = round.effects ++ stream.finale round.assembly := by
  rw [replaceBody, finale, Round.also, Round.also, List.append_assoc]
  rfl

/-- A page whose slots have been seen to is put in its place, or its fragments are waited
for. -/
theorem assemble_eq (stream : Stream) (document : Page.Document) (size : Nat)
    (replies : Replies) :
    ∃ effects assembly, FetchesAll stream document document.pending effects ∧
      assembly = Assembly.followAll { document, bodySize := size } effects ∧
      stream.assemble document size replies =
        if assembly.isDone then { stream, effects := effects ++ stream.finale assembly }
        else
          { stream := { stream with assembly := some assembly }
            effects := effects ++ [stream.notes (.waiting assembly.outstanding.size)]
            action := .hold } := by
  obtain ⟨effects, hall, hadvances⟩ := foldl_fetchSlot stream document.pending
    { assembly := { document, bodySize := size }, replies }
  refine ⟨effects, _, hall, rfl, ?_⟩
  rw [assemble, replaceBody_effects, Round.also, hadvances.effects_eq, hadvances.assembly_eq]
  rfl

/-- The chunk that completes a document. -/
theorem body_of_complete {intake : Page.Intake} {document : Page.Document} {size : Nat}
    {read : Reading} {last : Bool} (hintake : stream.intake = some intake)
    (hcomplete : (intake.take (stream.unseen size read) last).decision = some (.complete document))
    (replies : Replies) :
    ∃ (notices : List Page.Notice) (effects : List Effect) (assembly : Assembly),
      FetchesAll { stream with bodySeen := size, intake := none } document document.pending
          effects ∧
        assembly = Assembly.followAll { document, bodySize := size } effects ∧
        stream.body size read last replies =
          if assembly.isDone then
            { stream := { stream with bodySeen := size, intake := none }
              effects := notices.map Effect.building ++ effects ++ stream.finale assembly }
          else
            { stream := { stream with
                bodySeen := size, intake := none, assembly := some assembly }
              effects := notices.map Effect.building ++ effects ++
                [stream.notes (.waiting assembly.outstanding.size)]
              action := .hold } := by
  obtain ⟨effects, assembly, hall, hfollow, hassemble⟩ :=
    assemble_eq { stream with bodySeen := size, intake := none } document size replies
  refine ⟨(intake.take (stream.unseen size read) last).notices, effects, assembly, hall, hfollow,
    ?_⟩
  rw [body, hintake]
  dsimp only
  rw [hcomplete]
  dsimp only
  rw [hassemble, List.append_assoc, List.append_assoc]
  split <;> rfl

/-- An answer that nobody waits for is ignored. -/
theorem answered_of_stray {token : Nat}
    (h : ∀ assembly, stream.assembly = some assembly → assembly.fetch? token = none)
    (status : Option String) (fragment : Bytes) (replies : Replies) :
    stream.answered token status fragment replies = { stream } := by
  rw [answered]
  cases hassembly : stream.assembly with
  | none => rfl
  | some assembly =>
    dsimp only
    rw [h assembly hassembly]

/-- The answer to a fetch that is on its way. -/
theorem answered_eq {assembly : Assembly} {token : Nat}
    (hassembly : stream.assembly = some assembly)
    (hfetch : assembly.fetch? token = some fetch) (status : Option String) (fragment : Bytes)
    (replies : Replies) :
    ∃ effects after, Answers stream (assembly.settle token) fetch status fragment effects after ∧
      stream.answered token status fragment replies =
        if after.isDone then
          { stream := { stream with assembly := none }
            effects := effects ++ stream.finale after ++ [.resumes] }
        else { stream := { stream with assembly := some after }, effects } := by
  obtain ⟨effects, hanswers, heffects⟩ := useAnswer_answers stream fetch status fragment
    { assembly := assembly.settle token, replies }
  refine ⟨effects, _, hanswers, ?_⟩
  rw [answered, hassembly]
  dsimp only
  rw [hfetch]
  dsimp only
  rw [Round.also, replaceBody_effects, heffects]
  rfl

end Stream

/-! ## The table of the assembly -/

/-- The table has the fetches that are on their way. -/
def Tied (outstanding : Std.TreeMap Nat Fetch) (inFlight : List (Nat × Fetch)) : Prop :=
  ∀ token, outstanding[token]? = inFlight.lookup token

namespace Tied

variable {assembly : Assembly} {ledger : Ledger}

theorem empty : Tied {} [] :=
  fun _ => Std.TreeMap.getElem?_emptyc

theorem isDone_iff (h : Tied assembly.outstanding ledger.inFlight) :
    assembly.isDone ↔ ledger.inFlight = [] := by
  rw [Assembly.isDone, Std.TreeMap.isEmpty_iff_forall_not_mem]
  constructor
  · intro hempty
    cases hflight : ledger.inFlight with
    | nil => rfl
    | cons entry rest =>
      have hfound : assembly.outstanding[entry.1]? = some entry.2 := by
        rw [h, hflight, List.lookup_cons, beq_self_eq_true]
      refine absurd (Std.TreeMap.mem_iff_isSome_getElem?.mpr ?_) (hempty entry.1)
      rw [hfound]
      rfl
  · intro hempty token hmem
    have hfound := Std.TreeMap.mem_iff_isSome_getElem?.mp hmem
    rw [h, hempty] at hfound
    cases hfound

theorem settle (h : Tied assembly.outstanding ledger.inFlight) (token : Nat) :
    Tied (assembly.settle token).outstanding (ledger.without token) := by
  intro other
  simp only [Assembly.settle, Std.TreeMap.getElem?_erase, Ledger.lookup_without, h other,
    Std.LawfulEqCmp.compare_eq_iff_eq]

theorem track (h : Tied assembly.outstanding ledger.inFlight) (token : Nat) (fetch : Fetch) :
    Tied (assembly.track token fetch).outstanding ((token, fetch) :: ledger.without token) := by
  intro other
  simp only [Assembly.track, Std.TreeMap.getElem?_insert, List.lookup_cons,
    Ledger.lookup_without, h other, Std.LawfulEqCmp.compare_eq_iff_eq]
  by_cases htoken : token = other
  · rw [if_pos htoken, htoken, beq_self_eq_true]
  · rw [if_neg htoken, if_neg htoken, beq_eq_false_iff_ne.mpr (Ne.symm htoken)]

theorem follow (h : Tied assembly.outstanding ledger.inFlight) (effect : Effect) :
    Tied (assembly.follow effect).outstanding (ledger.note (.did effect)).inFlight := by
  cases effect with
  | asks request reply =>
    cases reply with
    | accepted token => exact h.track token request.fetch
    | denied denial => exact h
  | records slot record =>
    cases slot with
    | none => exact h
    | some slot =>
      rw [Ledger.note]
      split <;> exact h
  | _ => exact h

/-- The assembly and the ledger follow the same effects. -/
theorem followAll (h : Tied assembly.outstanding ledger.inFlight) (effects : List Effect) :
    Tied (assembly.followAll effects).outstanding
      (ledger.noteAll (effects.map .did)).inFlight := by
  induction effects generalizing assembly ledger with
  | nil => exact h
  | cons effect rest ih => exact ih (h.follow effect)

end Tied

theorem Stream.Answers.tied {stream : Stream} {assembly after : Assembly} {fetch : Fetch}
    {status : Option String} {fragment : Bytes} {effects : List Effect} {ledger : Ledger}
    (h : Answers stream assembly fetch status fragment effects after)
    (htied : Tied assembly.outstanding ledger.inFlight) :
    Tied after.outstanding (ledger.noteAll (effects.map .did)).inFlight := by
  cases h with
  | success h => exact htied
  | without h hrequest => exact htied
  | failure h hrequest hrecovers => exact htied.followAll effects

end Response
end EdgeIncludes
