/-
A body that comes in parts.

While a stream takes a body in, it has seen just what the host keeps of it (`Taking`), and so what
is new to it is the part that has come, be it empty or not.  When the body is complete, the page
and everything that is done about it depend on the body alone, and not on its parts
(`Taking.whole`).  When the body gets too long the stream lets it go as it came, and the client is
sent what came in the order in which it came (`Taking.overruns`).
-/
import EdgeIncludes.Proofs.Page.Delivery
import EdgeIncludes.Proofs.Response.Hosting

namespace EdgeIncludes

/-! ## Intakes -/

namespace Page.Intake

/-- The intake has counted the body so far, and the reader follows it. -/
structure Counts (settings : Settings) (intake : Intake) (sofar : Bytes) (reader : Reader) :
    Prop where
  reads : intake.Reads reader
  isOpen : intake.complete = false
  total_eq : intake.total = sofar.length
  limit_eq : intake.limit = settings.maxBodySize.toNat

namespace Counts

variable {settings : Settings} {intake : Intake} {sofar data : Bytes} {reader : Reader}

theorem fresh (settings : Settings) :
    (fresh settings).Counts settings []
      { builder := .fresh settings.silentErrors settings.logTags } :=
  ⟨fresh_reads settings, rfl, rfl, rfl⟩

theorem advance (h : intake.Counts settings sofar reader) (data : Bytes) :
    ∃ next : Intake, next.Counts settings (sofar ++ data) (reader.run (data.map .byte)).1 ∧
      { intake with total := intake.total + data.length }.advance data =
        (next, (reader.run (data.map .byte)).2) := by
  have hcounted : Reads { intake with total := intake.total + data.length } reader :=
    ⟨h.reads.ready, h.reads.builder⟩
  obtain ⟨scanner, hadvance, hready⟩ := hcounted.advance data
  let next : Intake :=
    { intake with
      scanner
      builder := (reader.run (data.map .byte)).1.builder
      total := intake.total + data.length }
  have hnext : next.Reads (reader.run (data.map .byte)).1 := ⟨hready, rfl⟩
  refine ⟨next, ⟨hnext, h.isOpen, ?_, h.limit_eq⟩, hadvance⟩
  show intake.total + data.length = (sofar ++ data).length
  rw [h.total_eq, List.length_append]

theorem take_more (h : intake.Counts settings sofar reader)
    (hfits : (sofar ++ data).length ≤ settings.maxBodySize.toNat) :
    ∃ next : Intake, next.Counts settings (sofar ++ data) (reader.run (data.map .byte)).1 ∧
      intake.take data false = ⟨next, some .more, (reader.run (data.map .byte)).2⟩ := by
  obtain ⟨next, hnext, hadvance⟩ := h.advance data
  have hroom : intake.total + data.length ≤ intake.limit := by
    rwa [h.total_eq, h.limit_eq, ← List.length_append]
  refine ⟨next, hnext, ?_⟩
  rw [take_of_le h.isOpen hroom, hadvance]
  rfl

theorem take_last (h : intake.Counts settings sofar reader)
    (hfits : (sofar ++ data).length ≤ settings.maxBodySize.toNat) :
    ∃ last : Intake, intake.take data true =
      ⟨last, some (.complete (reader.ending (data.map .byte)).1),
        (reader.ending (data.map .byte)).2⟩ := by
  obtain ⟨next, hnext, hadvance⟩ := h.advance data
  have hroom : intake.total + data.length ≤ intake.limit := by
    rwa [h.total_eq, h.limit_eq, ← List.length_append]
  obtain ⟨hdecision, hnotices, -⟩ := hnext.reads.conclude
  refine ⟨next.conclude.intake, ?_⟩
  rw [take_of_le h.isOpen hroom, hadvance, Reader.ending, ← hnotices, ← hdecision]
  rfl

theorem take_over (h : intake.Counts settings sofar reader)
    (hover : settings.maxBodySize.toNat < (sofar ++ data).length) (last : Bool) :
    ∃ next : Intake, intake.take data last = ⟨next, some (.skip .tooLong), []⟩ := by
  have hpast : intake.limit < intake.total + data.length := by
    rwa [h.total_eq, h.limit_eq, ← List.length_append]
  exact ⟨_, take_of_lt h.isOpen hpast last⟩

end Counts
end Page.Intake

namespace Response

open Proxy (Arrival bufferAfter)

/-! ## Bodies in parts -/

/-- Part of a body, from a host that shows the stream all that there is of it. -/
def Proxy.Arrival.part (number : Nat) (data : Bytes) (last : Bool) : Arrival :=
  .body number data last none false []

/-- A body as it comes, in parts of which the last one ends it.  What would be replied to
sub-requests is given with every part but the last. -/
structure Transfer where
  parts : List (Bytes × Replies)
  last : Bytes

namespace Transfer

def chunks (transfer : Transfer) : List Bytes :=
  transfer.parts.map Prod.fst ++ [transfer.last]

def body (transfer : Transfer) : Bytes :=
  transfer.chunks.flatten

def arrivals (transfer : Transfer) (number : Nat) (replies : Replies) : List (Arrival × Replies) :=
  transfer.parts.map (fun part => (.part number part.1 false, part.2)) ++
    [(.part number transfer.last true, replies)]

end Transfer

theorem Stream.unseen_part {stream : Stream} {sofar : Bytes}
    (hseen : stream.bodySeen = sofar.length) (data : Bytes) :
    stream.unseen (sofar ++ data).length (Proxy.Arrival.readFrom (sofar ++ data)) = data := by
  rw [unseen, hseen, List.length_append, Proxy.Arrival.readFrom, List.drop_left,
    Nat.add_sub_cancel_left, List.take_length]
  split
  · rfl
  · rename_i hfull
    exact (List.eq_nil_of_length_eq_zero (by omega)).symm

/-! ## Taking a body in -/

/-- The stream takes a body in, and has seen all that the host keeps of it. -/
structure Taking (base : Stream) (hosted : Hosted) (sofar : Bytes) (reader : Page.Reader) :
    Prop where
  buffer_eq : hosted.buffer = sofar
  exists_intake : ∃ intake : Page.Intake, intake.Counts base.settings sofar reader ∧
    hosted.stream = { base with bodySeen := sofar.length, intake := some intake }

/-- What the host is left with when the stream lets a body go as it came. -/
def Stream.released (base : Stream) (seen : Nat) : Hosted :=
  ⟨{ base with bodySeen := seen, intake := none }, []⟩

/-- What is recorded of a body that is too long. -/
def Stream.overrun (base : Stream) : Effect :=
  .records none { Audit.Record.skipped Skip.tooLong.text with requestPath := base.path }

/-- The turn in which the page of a body is put together. -/
def Stream.completion (base : Stream) (document : Page.Document) (body : Bytes)
    (replies : Replies) : Turn :=
  { base with bodySeen := body.length, intake := none }.assemble document body.length replies

/-- What the client is sent after the turn, if the response goes on. -/
def Turn.sent? (turn : Turn) (body : Bytes) : Option Bytes :=
  if turn.action == .proceed then some (turn.effects.foldl bufferAfter body) else none

/-- What the host is left with after the turn. -/
def Turn.hosted (turn : Turn) (body : Bytes) : Hosted :=
  ⟨turn.stream,
    if turn.action == .proceed then [] else turn.effects.foldl bufferAfter body⟩

/-- The turn, with something said before. -/
def Turn.saying (turn : Turn) (notices : List Page.Notice) : Turn :=
  { turn with effects := notices.map Effect.building ++ turn.effects }

/-- Something is said about tags. -/
def Effect.isBuilding : Effect → Bool
  | .building _ => true
  | _ => false

theorem filter_building (notices : List Page.Notice) :
    (notices.map Effect.building).filter (!·.isBuilding) = [] := by
  simp [Effect.isBuilding]

theorem keeps_building (notices : List Page.Notice) : Keeps (notices.map Effect.building) :=
  List.forall_mem_map.mpr fun _ _ => rfl

namespace Taking

variable {base : Stream} {hosted : Hosted} {sofar : Bytes} {reader : Page.Reader}

theorem shown (h : Taking base hosted sofar reader) (number : Nat) (data : Bytes) (last : Bool)
    (replies : Replies) :
    Receipt.shown ⟨hosted, .part number data last, replies⟩ = sofar ++ data := by
  show hosted.buffer ++ data = sofar ++ data
  rw [h.buffer_eq]

/-- What comes is what is handed over. -/
theorem chunk? (h : Taking base hosted sofar reader) (number : Nat) (data : Bytes) (last : Bool)
    (replies : Replies) :
    Receipt.chunk? ⟨hosted, .part number data last, replies⟩ = some data := by
  obtain ⟨intake, -, hstream⟩ := h.exists_intake
  have hseen : hosted.stream.bodySeen = sofar.length := by rw [hstream]
  show hosted.stream.intake.map (fun _ => hosted.stream.unseen (hosted.buffer ++ data).length
    (Proxy.Arrival.readFrom (hosted.buffer ++ data))) = some data
  rw [h.buffer_eq, Stream.unseen_part hseen, hstream]
  rfl

theorem proceeds (h : Taking base hosted sofar reader) {number : Nat} {data body : Bytes}
    {last : Bool} {replies : Replies} {rest : List Receipt}
    (hreplaces : Receipt.ReplacesAll body ⟨hosted, .part number data last, replies⟩)
    (hrest : Proceeds (sofar ++ data) body rest) :
    Proceeds sofar body (⟨hosted, .part number data last, replies⟩ :: rest) :=
  .cons (h.chunk? number data last replies) (h.shown number data last replies).symm hreplaces hrest

theorem turn_eq (h : Taking base hosted sofar reader) (number : Nat) (data : Bytes) (last : Bool)
    (replies : Replies) :
    ∃ intake : Page.Intake, intake.Counts base.settings sofar reader ∧
      Receipt.turn ⟨hosted, .part number data last, replies⟩ =
        let taken := intake.take data last
        match taken.decision with
        | some (.complete document) =>
          (base.completion document (sofar ++ data) replies).saying taken.notices
        | some (.skip reason) =>
          Turn.saying
            { stream := { base with bodySeen := (sofar ++ data).length, intake := none }
              effects := [.records none
                { Audit.Record.skipped reason.text with requestPath := base.path }] }
            taken.notices
        | some .more | none =>
          { stream := { base with
              bodySeen := (sofar ++ data).length, intake := some taken.intake }
            effects := taken.notices.map Effect.building, action := .hold } := by
  obtain ⟨intake, hcounts, hstream⟩ := h.exists_intake
  have hseen : hosted.stream.bodySeen = sofar.length := by rw [hstream]
  have hunseen := Stream.unseen_part hseen data
  refine ⟨intake, hcounts, ?_⟩
  show hosted.stream.body (hosted.buffer ++ data).length
    (Proxy.Arrival.readFrom (hosted.buffer ++ data)) last replies = _
  rw [h.buffer_eq, Stream.body, hunseen, hstream]
  rfl

/-- A part after which there is more to come. -/
theorem more (h : Taking base hosted sofar reader) (number : Nat) {data : Bytes}
    (hfits : (sofar ++ data).length ≤ base.settings.maxBodySize.toNat) (replies : Replies) :
    let receipt : Receipt := ⟨hosted, .part number data false, replies⟩
    Taking base receipt.after (sofar ++ data) (reader.run (data.map .byte)).1 ∧
      receipt.outcome.effects = (reader.run (data.map .byte)).2.map .building ∧
      receipt.outcome.sent = none ∧ ∀ body, receipt.ReplacesAll body := by
  intro receipt
  obtain ⟨intake, hcounts, hturn⟩ := h.turn_eq number data false replies
  obtain ⟨next, hnext, htake⟩ := hcounts.take_more hfits
  have hshown : receipt.shown = sofar ++ data := h.shown number data false replies
  rw [htake] at hturn
  have hheld : receipt.goes = false := by
    show (receipt.turn.action == .proceed) = false
    rw [hturn]
    rfl
  have hbody : receipt.body = sofar ++ data := by
    rw [Receipt.body, hturn, hshown]
    exact foldl_bufferAfter_of_keeps (keeps_building _) _
  have heffects : receipt.outcome.effects = (reader.run (data.map .byte)).2.map .building := by
    rw [receipt.effects_eq, hturn]
  refine ⟨⟨?_, next, hnext, ?_⟩, heffects, ?_, receipt.replacesAll_of_keeps ?_⟩
  · rw [receipt.after_eq, hheld]
    exact hbody
  · rw [receipt.after_eq, hturn]
  · rw [receipt.sent_eq, hheld]
    rfl
  · rw [heffects]
    exact keeps_building _

/-- A part that makes the body too long. -/
theorem exceeds (h : Taking base hosted sofar reader) (number : Nat) {data : Bytes}
    (hover : base.settings.maxBodySize.toNat < (sofar ++ data).length) (last : Bool)
    (replies : Replies) :
    let receipt : Receipt := ⟨hosted, .part number data last, replies⟩
    receipt.after = base.released (sofar ++ data).length ∧
      receipt.outcome.effects = [base.overrun] ∧ receipt.outcome.sent = some (sofar ++ data) ∧
      ∀ body, receipt.ReplacesAll body := by
  intro receipt
  obtain ⟨intake, hcounts, hturn⟩ := h.turn_eq number data last replies
  obtain ⟨next, htake⟩ := hcounts.take_over hover last
  have hshown : receipt.shown = sofar ++ data := h.shown number data last replies
  rw [htake] at hturn
  have hgoes : receipt.goes = true := by
    show (receipt.turn.action == .proceed) = true
    rw [hturn]
    rfl
  have heffects : receipt.outcome.effects = [base.overrun] := by
    rw [receipt.effects_eq, hturn]
    rfl
  refine ⟨?_, heffects, ?_, receipt.replacesAll_of_keeps ?_⟩
  · rw [receipt.after_eq, hgoes, hturn]
    rfl
  · rw [receipt.sent_eq, hgoes, Receipt.body, hturn, hshown]
    rfl
  · rw [heffects]
    exact List.forall_mem_singleton.mpr rfl

/-- The last part of a body. -/
theorem ends (h : Taking base hosted sofar reader) (number : Nat) {data : Bytes}
    (hfits : (sofar ++ data).length ≤ base.settings.maxBodySize.toNat) (replies : Replies) :
    let receipt : Receipt := ⟨hosted, .part number data true, replies⟩
    let page := reader.ending (data.map .byte)
    let turn := base.completion page.1 (sofar ++ data) replies
    receipt.after = turn.hosted (sofar ++ data) ∧
      receipt.outcome.effects = page.2.map .building ++ turn.effects ∧
      receipt.outcome.sent = turn.sent? (sofar ++ data) := by
  intro receipt page turn
  obtain ⟨intake, hcounts, hturn⟩ := h.turn_eq number data true replies
  obtain ⟨next, htake⟩ := hcounts.take_last hfits
  have hshown : receipt.shown = sofar ++ data := h.shown number data true replies
  rw [htake] at hturn
  replace hturn : receipt.turn = turn.saying page.2 := hturn
  clear_value turn
  have hgoes : receipt.goes = (turn.action == .proceed) := by
    show (receipt.turn.action == .proceed) = _
    rw [hturn]
    rfl
  have hbody : receipt.body = turn.effects.foldl bufferAfter (sofar ++ data) := by
    rw [Receipt.body, hturn, hshown]
    show (page.2.map Effect.building ++ turn.effects).foldl _ _ = _
    rw [List.foldl_append, foldl_bufferAfter_of_keeps (keeps_building page.2)]
  refine ⟨?_, ?_, ?_⟩
  · rw [receipt.after_eq, hgoes, hbody, hturn]
    rfl
  · rw [receipt.effects_eq, hturn]
    rfl
  · rw [receipt.sent_eq, hgoes, hbody]
    rfl

end Taking

/-- The turn leaves the page to be waited for, or it puts it in place of the body. -/
inductive Turn.Completes (turn : Turn) (body : Bytes) : Prop where
  | waits (hkeeps : Keeps turn.effects) (hsent : turn.sent? body = none)
      (hassembly : (turn.hosted body).stream.assembly.isSome)
  | writes {page : Bytes} (hwrites : .replacesBody body.length page ∈ turn.effects)
      (honly : ∀ size other, .replacesBody size other ∈ turn.effects →
        size = body.length ∧ other = page)
      (hsent : turn.sent? body = some page) (hassembly : (turn.hosted body).stream.assembly = none)

theorem Stream.completion_completes {base : Stream} (hassembly : base.assembly = none)
    (document : Page.Document) (body : Bytes) (replies : Replies) :
    Rests body ((base.completion document body replies).hosted body) ∧
      (base.completion document body replies).Completes body := by
  obtain ⟨effects, assembly, hall, hfollow, hturn⟩ := assemble_eq
    { base with bodySeen := body.length, intake := none } document body.length replies
  have hkeeps : Keeps effects := keeps_of_handles hall.handles
  have hsize : assembly.bodySize = body.length := by
    rw [hfollow]
    exact Assembly.bodySize_followAll _ effects
  rw [← completion] at hturn
  rw [hturn]
  cases assembly.isDone with
  | true =>
    have hsent := congrArg some
      (foldl_bufferAfter_finale hkeeps { base with bodySeen := body.length, intake := none } hsize)
    refine ⟨.free hassembly, .writes ?_ ?_ hsent hassembly⟩
    · rw [← hsize]
      exact List.mem_append_right _ List.mem_cons_self
    · intro size other hmem
      obtain ⟨rfl, rfl⟩ := eq_of_mem_finale hkeeps hmem
      exact ⟨hsize, rfl⟩
  | false =>
    have hwaits : Keeps (effects ++ [base.notes (.waiting assembly.outstanding.size)]) :=
      hkeeps.append (List.forall_mem_singleton.mpr rfl)
    exact ⟨.waiting rfl hsize (foldl_bufferAfter_of_keeps hwaits body), .waits hwaits rfl rfl⟩

/-! ## Bodies that are let go as they came -/

namespace Transfer

theorem body_cons (part : Bytes × Replies) (rest : List (Bytes × Replies)) (last : Bytes) :
    body ⟨part :: rest, last⟩ = part.1 ++ body ⟨rest, last⟩ := rfl

theorem receipts_nil (hosted : Hosted) (last : Bytes) (number : Nat) (replies : Replies) :
    hosted.receipts (arrivals ⟨[], last⟩ number replies) =
      [⟨hosted, .part number last true, replies⟩] := rfl

theorem receipts_cons (hosted : Hosted) (part : Bytes × Replies) (rest : List (Bytes × Replies))
    (last : Bytes) (number : Nat) (replies : Replies) :
    hosted.receipts (arrivals ⟨part :: rest, last⟩ number replies) =
      ⟨hosted, .part number part.1 false, part.2⟩ ::
        (Receipt.after ⟨hosted, .part number part.1 false, part.2⟩).receipts
          (arrivals ⟨rest, last⟩ number replies) := rfl

theorem body_nil (last : Bytes) : body ⟨[], last⟩ = last :=
  List.append_nil last

/-- What comes after the body was let go is sent as it comes. -/
theorem released (transfer : Transfer) (base : Stream) (seen number : Nat) (replies : Replies) :
    let receipts := (base.released seen).receipts (transfer.arrivals number replies)
    (base.released seen).run (transfer.arrivals number replies) = base.released seen ∧
      Receipt.effects receipts = [] ∧ Receipt.sent receipts = transfer.body ∧
      ∀ receipt ∈ receipts, receipt.outcome.effects = [] ∧ receipt.chunk? = none := by
  obtain ⟨parts, last⟩ := transfer
  induction parts with
  | nil => exact ⟨rfl, rfl, rfl, List.forall_mem_singleton.mpr ⟨rfl, rfl⟩⟩
  | cons part rest ih =>
    obtain ⟨hrun, heffects, hsent, hreceipts⟩ := ih
    exact ⟨hrun, heffects, congrArg (part.1 ++ ·) hsent,
      List.forall_mem_cons.mpr ⟨⟨rfl, rfl⟩, hreceipts⟩⟩

end Transfer

/-! ## Whole bodies -/

namespace Taking

variable {base : Stream} {hosted : Hosted} {sofar : Bytes} {reader : Page.Reader}

/-- A body within the limit comes to what it would come to in one part. -/
theorem whole (h : Taking base hosted sofar reader) (hassembly : base.assembly = none)
    (transfer : Transfer) (number : Nat) (replies : Replies) {body : Bytes}
    {document : Page.Document} {notices : List Page.Notice} (hbody : sofar ++ transfer.body = body)
    (hpage : reader.ending (transfer.body.map .byte) = (document, notices))
    (hfits : body.length ≤ base.settings.maxBodySize.toNat) :
    let receipts := hosted.receipts (transfer.arrivals number replies)
    let turn := base.completion document body replies
    hosted.run (transfer.arrivals number replies) = turn.hosted body ∧
      Receipt.effects receipts = notices.map .building ++ turn.effects ∧
      Receipt.sent receipts = (turn.sent? body).getD [] ∧
      Receipt.chunks receipts = transfer.chunks ∧
      Proceeds sofar body receipts := by
  obtain ⟨parts, last⟩ := transfer
  induction parts generalizing hosted sofar reader notices with
  | nil =>
    rw [Transfer.body_nil] at hbody hpage
    subst hbody
    obtain ⟨hafter, heffects, hsent⟩ := h.ends number hfits replies
    obtain ⟨-, hcompletes⟩ :=
      Stream.completion_completes hassembly document (sofar ++ last) replies
    rw [hpage] at hafter heffects hsent
    refine ⟨hafter, ?_, ?_, ?_, h.proceeds ?_ .nil⟩
    · rw [Transfer.receipts_nil, Receipt.effects_singleton, heffects]
    · rw [Transfer.receipts_nil, Receipt.sent_singleton, hsent]
    · exact List.filterMap_cons_some (h.chunk? number last true replies)
    · intro size content hmem
      refine ⟨h.shown number last true replies, ?_⟩
      rw [heffects] at hmem
      rcases List.mem_append.mp hmem with hmem | hmem
      · cases keeps_building _ _ hmem
      · cases hcompletes with
        | waits hkeeps hnone hwaits => cases hkeeps _ hmem
        | writes hwrites honly hpage hgone =>
          obtain ⟨hsize, rfl⟩ := honly size content hmem
          exact ⟨hsize, hsent.trans hpage⟩
  | cons part rest ih =>
    rw [Transfer.body_cons] at hbody hpage
    rw [← List.append_assoc] at hbody
    rw [List.map_append, reader.ending_append] at hpage
    obtain ⟨hdocument, rfl⟩ := Prod.mk.inj hpage
    have hroom : (sofar ++ part.1).length ≤ base.settings.maxBodySize.toNat := by
      rw [← hbody, List.length_append] at hfits
      omega
    obtain ⟨htaking, hsaid, hquiet, hreplaces⟩ := h.more number hroom part.2
    obtain ⟨hrun, heffects, hsent, hchunks, hproceeds⟩ :=
      ih htaking hbody (Prod.ext hdocument rfl)
    have hchunk := h.chunk? number part.1 false part.2
    refine ⟨hrun, ?_, ?_, ?_, h.proceeds (hreplaces body) hproceeds⟩
    · rw [Transfer.receipts_cons, Receipt.effects_cons, hsaid, heffects, List.map_append,
        List.append_assoc]
    · rw [Transfer.receipts_cons, Receipt.sent_cons, hquiet, hsent]
      rfl
    · exact (List.filterMap_cons_some hchunk).trans (congrArg (part.1 :: ·) hchunks)

/-- A body past the limit is let go, and what is let go is what came. -/
theorem overruns (h : Taking base hosted sofar reader) (transfer : Transfer) (number : Nat)
    (replies : Replies) {body : Bytes} (hbody : sofar ++ transfer.body = body)
    (hover : base.settings.maxBodySize.toNat < body.length) :
    let receipts := hosted.receipts (transfer.arrivals number replies)
    ∃ seen, hosted.run (transfer.arrivals number replies) = base.released seen ∧
      (Receipt.effects receipts).filter (!·.isBuilding) = [base.overrun] ∧
      Receipt.sent receipts = body ∧
      Proceeds sofar body receipts := by
  obtain ⟨parts, last⟩ := transfer
  induction parts generalizing hosted sofar reader with
  | nil =>
    rw [Transfer.body_nil] at hbody
    subst hbody
    obtain ⟨hafter, heffects, hsent, hreplaces⟩ := h.exceeds number hover true replies
    refine ⟨_, hafter, ?_, ?_, h.proceeds (hreplaces _) .nil⟩
    · rw [Transfer.receipts_nil, Receipt.effects_singleton, heffects]
      rfl
    · rw [Transfer.receipts_nil, Receipt.sent_singleton, hsent]
      rfl
  | cons part rest ih =>
    rw [Transfer.body_cons, ← List.append_assoc] at hbody
    by_cases hroom : (sofar ++ part.1).length ≤ base.settings.maxBodySize.toNat
    · obtain ⟨htaking, hsaid, hquiet, hreplaces⟩ := h.more number hroom part.2
      obtain ⟨seen, hrun, heffects, hsent, hproceeds⟩ := ih htaking hbody
      refine ⟨seen, hrun, ?_, ?_, h.proceeds (hreplaces body) hproceeds⟩
      · rw [Transfer.receipts_cons, Receipt.effects_cons, hsaid, List.filter_append, heffects,
          filter_building]
        rfl
      · rw [Transfer.receipts_cons, Receipt.sent_cons, hquiet, hsent]
        rfl
    · obtain ⟨hafter, heffects, hsent, hreplaces⟩ :=
        h.exceeds number (Nat.lt_of_not_le hroom) false part.2
      obtain ⟨hrun, hquiet, hrest, hnone⟩ :=
        Transfer.released ⟨rest, last⟩ base (sofar ++ part.1).length number replies
      rw [← hafter] at hrun hquiet hrest hnone
      refine ⟨_, hrun.trans hafter, ?_, ?_, h.proceeds (hreplaces body)
        (Proceeds.nil.append (fun receipt hmem => (hnone receipt hmem).2) fun receipt hmem => ?_)⟩
      · rw [Transfer.receipts_cons, Receipt.effects_cons, heffects, hquiet]
        rfl
      · rw [Transfer.receipts_cons, Receipt.sent_cons, hsent, hrest]
        exact hbody
      · refine Receipt.replacesAll_of_keeps ?_ _
        rw [(hnone receipt hmem).1]
        exact List.forall_mem_nil _

end Taking
end Response
end EdgeIncludes
