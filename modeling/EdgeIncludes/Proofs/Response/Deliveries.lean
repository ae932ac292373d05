/-
Deliveries of one body.

However a body is cut into parts, and wherever parts with nothing in them come in between, the
stream is handed the body once, what it replaces is all of it, and what comes of it is the same
(`deliveries_agree`).  In place of a body within the limit the client gets the page, once there is
one; a body past the limit it gets as it was.  Only what is said about tags on the way to the
limit depends on the parts, since a body is read no further than to the part that passes it.
-/
import EdgeIncludes.Proofs.Response.Reception

namespace EdgeIncludes
namespace Response

open Proxy (Arrival)

/-- A stream whose response's headers have come, and none of its body. -/
def Hosted.begun (number : Nat) (settings : Settings) (requested responded : Headers) : Hosted :=
  ⟨(Stream.fresh number settings).run [.requestHeaders requested, .responseHeaders responded], []⟩

/-- The response is to be processed. -/
def Processed (settings : Settings) (requested responded : Headers) : Prop :=
  skip? settings (depthOf (header? depthHeader requested)) (header? "content-type" responded)
    (header? "content-length" responded) = none

instance (settings : Settings) (requested responded : Headers) :
    Decidable (Processed settings requested responded) :=
  inferInstanceAs (Decidable (skip? _ _ _ _ = none))

/-- What the stream is before it knows that the response is to be processed. -/
def Stream.asked (number : Nat) (settings : Settings) (requested : Headers) : Stream :=
  ((Stream.fresh number settings).requestHeaders requested).stream

theorem Hosted.begun_taking (number : Nat) {settings : Settings} {requested responded : Headers}
    (h : Processed settings requested responded) :
    Taking (.asked number settings requested) (begun number settings requested responded) []
      { builder := .fresh settings.silentErrors settings.logTags } := by
  let base := Stream.asked number settings requested
  have hskip : skip? base.settings base.depth (header? "content-type" responded)
      (header? "content-length" responded) = none := h
  refine ⟨rfl, .fresh settings, .fresh settings, ?_⟩
  show (base.responseHeaders responded).stream = _
  rw [Stream.responseHeaders, hskip]
  rfl

/-! ## What a body comes to -/

namespace Taking

variable {base : Stream} {hosted : Hosted} {reader : Page.Reader} {body : Bytes}
  {later : List (Arrival × Replies)}

/-- Everything that is done about a body within the limit is settled by the body. -/
theorem settles (h : Taking base hosted [] reader) (hassembly : base.assembly = none)
    (number : Nat) (replies : Replies) (hlater : ∀ given ∈ later, given.1.isLater)
    (hfits : body.length ≤ base.settings.maxBodySize.toNat) :
    ∃ effects sent, ∀ transfer : Transfer, transfer.body = body →
      let receipts := hosted.receipts (transfer.arrivals number replies ++ later)
      Receipt.effects receipts = effects ∧ Receipt.sent receipts = sent ∧
        Receipt.chunks receipts = transfer.chunks ∧ Proceeds [] body receipts ∧
        Concludes body (hosted.run (transfer.arrivals number replies ++ later)) receipts := by
  cases hpage : reader.ending (body.map .byte) with
  | mk document notices =>
    let turn := base.completion document body replies
    obtain ⟨hrests, hcompletes⟩ : Rests body (turn.hosted body) ∧ turn.Completes body :=
      Stream.completion_completes hassembly document body replies
    refine ⟨notices.map .building ++ turn.effects ++
        Receipt.effects ((turn.hosted body).receipts later),
      (turn.sent? body).getD [] ++ Receipt.sent ((turn.hosted body).receipts later), ?_⟩
    intro transfer hbody receipts
    obtain ⟨hrun, heffects, hsent, hchunks, hproceeds⟩ :=
      h.whole hassembly transfer number replies hbody (by rw [hbody, hpage]) hfits
    have hafter := hrests.receipts hlater
    have hreceipts : receipts = hosted.receipts (transfer.arrivals number replies) ++
        (turn.hosted body).receipts later := by
      rw [← hrun, ← Hosted.receipts_append]
    have hfront : Concludes body (turn.hosted body)
        (hosted.receipts (transfer.arrivals number replies)) := by
      cases hcompletes with
      | waits hkeeps hnone hwaits => exact .waits hwaits (by rw [hsent, hnone]; rfl)
      | writes hwrites honly hpage hgone =>
        refine .writes hgone ?_
        rw [heffects, hsent, hpage]
        exact List.mem_append_right _ hwrites
    rw [Hosted.run_append, hrun, hreceipts]
    refine ⟨?_, ?_, ?_, hproceeds.append (fun receipt hmem => (hafter receipt hmem).2)
      fun receipt hmem => (hafter receipt hmem).1, hrests.concludes hfront hlater⟩
    · rw [Receipt.effects_append, heffects]
    · rw [Receipt.sent_append, hsent]
    · rw [Receipt.chunks, List.filterMap_append,
        List.filterMap_eq_nil_iff.mpr fun receipt hmem => (hafter receipt hmem).2, List.append_nil]
      exact hchunks

/-- A body past the limit comes to the client, and nothing else is done about it. -/
theorem yields (h : Taking base hosted [] reader) (hassembly : base.assembly = none)
    (number : Nat) (replies : Replies) (hlater : ∀ given ∈ later, given.1.isLater)
    (hover : base.settings.maxBodySize.toNat < body.length) (transfer : Transfer)
    (hbody : transfer.body = body) :
    let receipts := hosted.receipts (transfer.arrivals number replies ++ later)
    (Receipt.effects receipts).filter (!·.isBuilding) =
        base.overrun :: (later.flatMap (base.afterwards ·.1)).filter (!·.isBuilding) ∧
      Receipt.sent receipts = body ∧ Proceeds [] body receipts := by
  intro receipts
  obtain ⟨seen, hrun, heffects, hsent, hproceeds⟩ :=
    h.overruns transfer number replies hbody hover
  have hafter := (show Rests body (base.released seen) from .free hassembly).receipts hlater
  obtain ⟨hquiet, hnothing⟩ :=
    Hosted.receipts_idle (show (base.released seen).stream.assembly = none from hassembly) hlater
  have hreceipts : receipts = hosted.receipts (transfer.arrivals number replies) ++
      (base.released seen).receipts later := by
    rw [← hrun, ← Hosted.receipts_append]
  rw [hreceipts]
  refine ⟨?_, ?_, hproceeds.append (fun receipt hmem => (hafter receipt hmem).2)
    fun receipt hmem => (hafter receipt hmem).1⟩
  · rw [Receipt.effects_append, List.filter_append, heffects, hquiet]
    rfl
  · rw [Receipt.sent_append, hsent, hnothing, List.append_nil]

end Taking

/-- Two deliveries of the same body come to the same, with the body read once and replaced as a
whole in each.  Within the limit the client gets just what the body is replaced with, and past it
the client gets the body. -/
theorem deliveries_agree (number : Nat) {settings : Settings} {requested responded : Headers}
    (hprocessed : Processed settings requested responded) {transfer other : Transfer}
    (hbody : other.body = transfer.body) (replies : Replies) {later : List (Arrival × Replies)}
    (hlater : ∀ given ∈ later, given.1.isLater) :
    let begun := Hosted.begun number settings requested responded
    let receipts := begun.receipts (transfer.arrivals number replies ++ later)
    let others := begun.receipts (other.arrivals number replies ++ later)
    Proceeds [] transfer.body receipts ∧
      (Receipt.effects receipts).filter (!·.isBuilding) =
        (Receipt.effects others).filter (!·.isBuilding) ∧
      Receipt.sent receipts = Receipt.sent others ∧
      if transfer.body.length ≤ settings.maxBodySize.toNat then
        Receipt.chunks receipts = transfer.chunks ∧
          Receipt.effects receipts = Receipt.effects others ∧
          Concludes transfer.body (begun.run (transfer.arrivals number replies ++ later)) receipts
      else Receipt.sent receipts = transfer.body := by
  intro begun receipts others
  have htaking := Hosted.begun_taking number hprocessed
  split
  next hfits =>
    obtain ⟨effects, sent, hsettles⟩ := htaking.settles rfl number replies hlater hfits
    obtain ⟨heffects, hsent, hchunks, hproceeds, hconcludes⟩ := hsettles transfer rfl
    obtain ⟨hsame, hsentSame, -⟩ := hsettles other hbody
    have hagree : Receipt.effects receipts = Receipt.effects others := heffects.trans hsame.symm
    exact ⟨hproceeds, congrArg _ hagree, hsent.trans hsentSame.symm, hchunks, hagree, hconcludes⟩
  next hfits =>
    have hover := Nat.lt_of_not_le hfits
    obtain ⟨heffects, hsent, hproceeds⟩ :=
      htaking.yields rfl number replies hlater hover transfer rfl
    obtain ⟨hsame, hsentSame, -⟩ := htaking.yields rfl number replies hlater hover other hbody
    exact ⟨hproceeds, heffects.trans hsame.symm, hsent.trans hsentSame.symm, hsent⟩

/-- A tag that is cut, with parts in between and at the end that have nothing in them. -/
theorem deliveries_agree_of_cut_tag :
    let page := Ascii.lessThan :: Tag.inclusion.name ++
      [0x20, 0x73, 0x72, 0x63, 0x3D, 0x22, 0x2F, 0x22, 0x2F, Ascii.greaterThan]
    let requested : Headers := [(":authority", "host"), (":path", "/")]
    let responded : Headers := [("content-type", "text/html")]
    let replies : Replies := fun place => .accepted (place + 1)
    let cut : Transfer :=
      ⟨[([], replies), (page.take 4, replies), ([], replies), (page.drop 4, replies)], []⟩
    let whole : Transfer := ⟨[], page⟩
    let later : List (Arrival × Replies) :=
      [(.answer 1 (some "200") [0x62] none [], replies), (.log 2, replies)]
    let begun := Hosted.begun 2 {} requested responded
    let receipts := begun.receipts (cut.arrivals 2 replies ++ later)
    let others := begun.receipts (whole.arrivals 2 replies ++ later)
    Processed {} requested responded ∧ whole.body = cut.body ∧
      (∀ given ∈ later, given.1.isLater) ∧ Proceeds [] cut.body receipts ∧
      Receipt.effects receipts = Receipt.effects others ∧
      Concludes cut.body (begun.run (cut.arrivals 2 replies ++ later)) receipts ∧
      Receipt.sent receipts = [0x62] := by
  intro page requested responded replies cut whole later begun receipts others
  have hprocessed : Processed {} requested responded := by decide +kernel
  have hbody : whole.body = cut.body := by decide
  have hlater : ∀ given ∈ later, given.1.isLater :=
    List.forall_mem_cons.mpr ⟨rfl, List.forall_mem_singleton.mpr rfl⟩
  obtain ⟨hproceeds, -, -, hwithin⟩ := deliveries_agree 2 hprocessed hbody replies hlater
  rw [if_pos (by decide)] at hwithin
  exact ⟨hprocessed, hbody, hlater, hproceeds, hwithin.2.1, hwithin.2.2, by decide +kernel⟩

end Response
end EdgeIncludes
