/-
Slots and requests in step.

The slots of a page are fetched in their order, and each of them is looked up among the requests
of the page.  For every page that a builder can hand over this finds the request of the include
that put the slot there (`slots_agree_with_requests`).
-/
import EdgeIncludes.Proofs.Page.Placement
import EdgeIncludes.Proofs.Response.Fetching

namespace EdgeIncludes
namespace Response

open Page (Builder Placed)

/-- While the slots of a page are fetched, the requests stay those of the page. -/
theorem Stream.request?_foldl_fetchSlot (stream : Stream) (slots : List Nat) (round : Round)
    (slot : Nat) :
    (slots.foldl stream.fetchSlot round).assembly.request? slot =
      round.assembly.request? slot := by
  obtain ⟨effects, -, hadvances⟩ := stream.foldl_fetchSlot slots round
  rw [Assembly.request?, Assembly.request?, hadvances.document_eq]

/-- Whatever is asked of a new builder, the slots of the page it would hand over are in the order
of their numbers, and each is the number of a request: the one that was read off the attributes
of the include that put the slot there, of which there is one.  These are the slots that are
pending, and each has its request when its turn comes to be fetched. -/
theorem slots_agree_with_requests (silentErrors logTags : Bool) (calls : List Builder.Call) :
    let start := Builder.fresh silentErrors logTags
    let document := (calls.foldl Builder.after start).document
    document.slots.Pairwise (· < ·) ∧
    (∀ slot ∈ document.slots, slot < document.requests.length ∧
      ∃ place name attributes request,
        (∀ other, Placed (start, {}) calls slot other ↔ other = place) ∧
        calls[place]? = some (.event (.startTag name attributes)) ∧
        Tag.ofName? name = some .inclusion ∧
        Include.Request.ofAttributes attributes = .ok request ∧
        document.request? slot = some request) ∧
    document.pending = document.slots ∧
    (document.pending = [] ↔ document.isStatic) ∧
    ∀ (stream : Stream) (size : Nat) (replies : Replies) (front back : List Nat) (slot : Nat),
      document.pending = front ++ slot :: back →
        let round := front.foldl stream.fetchSlot
          { assembly := { document, bodySize := size }, replies }
        (round.assembly.request? slot).isSome := by
  intro start document
  have harises : (calls.foldl Builder.after start).Arises := ⟨silentErrors, logTags, calls, rfl⟩
  have hpending : document.pending = document.slots := harises.pending_eq_slots
  refine ⟨harises.pairwise_slots, fun slot hslot => ⟨harises.lt_length_requests hslot, ?_⟩,
    hpending, ?_, ?_⟩
  · have hheld : (calls.foldl Page.observe (start, {})).1.Holds slot := by
      rw [Page.foldl_observe_fst]
      exact Builder.holds_of_mem_document hslot
    obtain ⟨place, hplaced⟩ :=
      Page.exists_placed (Builder.not_holds_fresh silentErrors logTags slot) hheld
    obtain ⟨name, attributes, request, hcall, hname, hread, hrequest⟩ := hplaced.request?
    refine ⟨place, name, attributes, request, fun other => ⟨hplaced.unique, ?_⟩, hcall, hname,
      hread, ?_⟩
    · rintro rfl
      exact hplaced
    · rw [Page.foldl_observe_fst] at hrequest
      rwa [Page.Document.request?, Builder.requests_document]
  · rw [hpending, Page.Document.isStatic_iff]
  · intro stream size replies front back slot hsplit round
    rw [stream.request?_foldl_fetchSlot]
    refine harises.isSome_request? ?_
    show slot ∈ document.pending
    rw [hsplit]
    exact List.mem_append_right front List.mem_cons_self

/-- The first include of the page is removed with what is around it, and the second one has the
next number all the same. -/
theorem slots_agree_with_requests_of_removed_include :
    let included (src : String) : List Builder.Call :=
      [.event (.startTag Tag.inclusion.name [⟨"src", src⟩]), .event (.endTag Tag.inclusion.name)]
    let calls : List Builder.Call := .event (.startTag Tag.remove.name []) :: included "/a" ++
      .event (.endTag Tag.remove.name) :: included "/b"
    let document := (calls.foldl Builder.after (.fresh false false)).document
    1 ∈ document.slots ∧ document.pending = [1] ∧
      ∃ (place : Nat) (name : Bytes) (attributes : List Markup.Attribute)
        (request : Include.Request), calls[place]? = some (.event (.startTag name attributes)) ∧
        Include.Request.ofAttributes attributes = .ok request ∧
        document.request? 1 = some request ∧ request.src = "/b" := by
  intro included calls document
  have hslot : 1 ∈ document.slots := by decide
  have hpending : document.pending = [1] := by decide
  have hsource : (document.request? 1).map Include.Request.src = some "/b" := by decide
  obtain ⟨-, hrequests, -⟩ := slots_agree_with_requests false false calls
  obtain ⟨-, place, name, attributes, request, -, hcall, -, hread, hrequest⟩ := hrequests 1 hslot
  rw [hrequest] at hsource
  exact ⟨hslot, hpending, place, name, attributes, request, hcall, hread, hrequest,
    Option.some.inj hsource⟩

end Response
end EdgeIncludes
