/-
How a body is delivered does not show in its page.

A delivery is a sequence of calls on an intake: chunks, of which the last one ends the body,
and exceptions raised between them.  It is read as marks, each of them a byte or an
exception, and marks know nothing of chunks (`outcome_of_reads`).  Of the exceptions only
their offsets matter: to raise one twice in the same place is to raise it once, and behind
the last byte it does nothing (`conclude_raise`).  So the marks can be exchanged for those
that the body and the offsets leave no choice about (`ending_eq_placed`), and two deliveries
with the same body and the same offsets come to the same page.
-/
import EdgeIncludes.Page.Intake
import EdgeIncludes.Proofs.Page.Builder
import EdgeIncludes.Proofs.Scan.Chunking
import Mathlib.Data.Finset.Dedup
import Mathlib.Data.Finset.Insert

namespace EdgeIncludes
namespace Page

open Markup (Event tokensEvents tokensEvents_append)
open Scan (Draft Scanner)

/-! ## Marks -/

inductive Mark where
  | byte (b : UInt8)
  | raise
deriving Repr, DecidableEq

namespace Mark

def byte? : Mark → Option UInt8
  | byte b => some b
  | raise => none

/-- The body that the marks are read from. -/
def body (marks : List Mark) : Bytes :=
  marks.filterMap byte?

/-- The offsets at which exceptions are raised, where `offset` is that of the next byte. -/
def raisedFrom (offset : Nat) : List Mark → List Nat
  | [] => []
  | byte _ :: rest => raisedFrom (offset + 1) rest
  | raise :: rest => offset :: raisedFrom offset rest

/-- The marks of a body with an exception in front of the bytes at the given offsets. -/
def placed (raised : Nat → Bool) (offset : Nat) : Bytes → List Mark
  | [] => []
  | b :: rest =>
    (if raised offset then [raise] else []) ++ byte b :: placed raised (offset + 1) rest

theorem le_of_mem_raisedFrom {marks : List Mark} {offset n : Nat}
    (h : n ∈ raisedFrom offset marks) : offset ≤ n := by
  induction marks generalizing offset with
  | nil => cases h
  | cons mark rest ih =>
    cases mark with
    | byte b => exact Nat.le_of_succ_le (ih h)
    | raise =>
      rcases List.mem_cons.mp h with rfl | hrest
      · exact Nat.le_refl _
      · exact ih hrest

theorem placed_congr {raised other : Nat → Bool} {offset : Nat}
    (h : ∀ n, offset ≤ n → raised n = other n) (body : Bytes) :
    placed raised offset body = placed other offset body := by
  induction body generalizing offset with
  | nil => rfl
  | cons b rest ih =>
    rw [placed, placed, h offset (Nat.le_refl _), ih fun n hn => h n (Nat.le_of_succ_le hn)]

end Mark

/-! ## Reading marks -/

/-- A builder that follows a body byte by byte, with the tag in hand. -/
structure Reader where
  draft : Draft := .text
  builder : Builder

namespace Reader

def raise (reader : Reader) : Reader :=
  { reader with builder := reader.builder.raise }

def read (reader : Reader) (b : UInt8) : Reader × List Notice :=
  let (draft, tokens) := reader.draft.step b
  let (builder, notices) := reader.builder.hear (tokensEvents tokens)
  (⟨draft, builder⟩, notices)

def run (reader : Reader) : List Mark → Reader × List Notice
  | [] => (reader, [])
  | .raise :: rest => reader.raise.run rest
  | .byte b :: rest =>
    let (next, notices) := reader.read b
    let (last, more) := next.run rest
    (last, notices ++ more)

/-- The page of a body that ends here, and what there is to say about its end. -/
def conclude (reader : Reader) : Document × List Notice :=
  let (builder, notices) := reader.builder.hear (tokensEvents reader.draft.release)
  (builder.document, notices ++ builder.notices .take)

/-- The page of a body that ends after the marks, and all that there is to say. -/
def ending (reader : Reader) (marks : List Mark) : Document × List Notice :=
  ((reader.run marks).1.conclude.1, (reader.run marks).2 ++ (reader.run marks).1.conclude.2)

theorem run_byte (reader : Reader) (b : UInt8) (rest : List Mark) :
    reader.run (.byte b :: rest) =
      (((reader.read b).1.run rest).1, (reader.read b).2 ++ ((reader.read b).1.run rest).2) := rfl

theorem run_append (reader : Reader) (front rest : List Mark) :
    reader.run (front ++ rest) =
      (((reader.run front).1.run rest).1,
        (reader.run front).2 ++ ((reader.run front).1.run rest).2) := by
  induction front generalizing reader with
  | nil => rfl
  | cons mark front ih =>
    cases mark with
    | raise => exact ih reader.raise
    | byte b => rw [List.cons_append, run_byte, ih, run_byte, List.append_assoc]

theorem ending_byte (reader : Reader) (b : UInt8) (rest : List Mark) :
    reader.ending (.byte b :: rest) =
      (((reader.read b).1.ending rest).1,
        (reader.read b).2 ++ ((reader.read b).1.ending rest).2) := by
  rw [ending, run_byte, ending, List.append_assoc]

theorem ending_append (reader : Reader) (front rest : List Mark) :
    reader.ending (front ++ rest) =
      (((reader.run front).1.ending rest).1,
        (reader.run front).2 ++ ((reader.run front).1.ending rest).2) := by
  rw [ending, run_append, ending, List.append_assoc]

/-- Bytes are read together as they are read one by one. -/
theorem run_bytes (reader : Reader) (bytes : Bytes) :
    reader.run (bytes.map .byte) =
      (⟨(reader.draft.run bytes).1,
          (reader.builder.hear (tokensEvents (reader.draft.run bytes).2)).1⟩,
        (reader.builder.hear (tokensEvents (reader.draft.run bytes).2)).2) := by
  induction bytes generalizing reader with
  | nil => rfl
  | cons b rest ih =>
    rw [List.map_cons, run_byte, ih, Draft.run_cons, tokensEvents_append, Builder.hear_append]
    rfl

/-! ## Exceptions -/

theorem raise_raise (reader : Reader) : reader.raise.raise = reader.raise := by
  rw [raise, raise, Builder.raise_raise]

/-- Where a body ends it is too late for an exception. -/
theorem conclude_raise (reader : Reader) : reader.raise.conclude = reader.conclude := by
  obtain ⟨draft, builder⟩ := reader
  by_cases hbytes : draft.bytes = []
  · have hrelease : draft.release = [] := if_pos hbytes
    simp only [conclude, raise, hrelease]
    show (builder.raise.document, builder.raise.notices .take) = _
    rw [builder.document_raise, builder.notices_take_raise]
    rfl
  · have hrelease : draft.release = [.text draft.bytes] := if_neg hbytes
    have houtput : builder.raise.receive (.output draft.bytes) =
        (builder.receive (.output draft.bytes)).raise :=
      builder.raise_deliver fun output => output.pushBytes draft.bytes
    simp only [conclude, raise, hrelease]
    show ((builder.raise.receive (.output draft.bytes)).document,
      (builder.raise.receive (.output draft.bytes)).notices .take) = _
    rw [houtput, Builder.document_raise, Builder.notices_take_raise]
    rfl

theorem ending_raises (reader : Reader) {marks : List Mark} (h : ∀ mark ∈ marks, mark = .raise) :
    reader.ending marks = reader.conclude := by
  induction marks generalizing reader with
  | nil => rfl
  | cons mark rest ih =>
    obtain ⟨rfl, hrest⟩ := List.forall_mem_cons.mp h
    exact (ih reader.raise hrest).trans reader.conclude_raise

/-- Of the exceptions only the offsets matter, and only those of bytes. -/
theorem ending_eq_placed {raised : Nat → Bool} {offset : Nat} (reader : Reader)
    (marks : List Mark)
    (h : ∀ n, offset ≤ n → raised n = decide (n ∈ Mark.raisedFrom offset marks)) :
    reader.ending marks = reader.ending (Mark.placed raised offset (Mark.body marks)) := by
  induction marks generalizing reader offset raised with
  | nil => rfl
  | cons mark rest ih =>
    cases mark with
    | byte b =>
      have hnot : raised offset = false := by
        rw [h offset (Nat.le_refl _), decide_eq_false_iff_not]
        intro hmem
        have hle : offset + 1 ≤ offset := Mark.le_of_mem_raisedFrom hmem
        omega
      have hrest := ih (reader.read b).1 fun n hn => h n (Nat.le_of_succ_le hn)
      have hplaced : Mark.placed raised offset (Mark.body (.byte b :: rest)) =
          .byte b :: Mark.placed raised (offset + 1) (Mark.body rest) := by
        show (if raised offset then _ else _) ++ _ = _
        rw [hnot]
        rfl
      rw [hplaced, ending_byte, ending_byte, hrest]
    | raise =>
      -- the exceptions raised later in the same place are the same one
      have hrest : reader.raise.ending rest = reader.raise.ending
          (Mark.placed (fun n => decide (n ∈ Mark.raisedFrom offset rest)) offset
            (Mark.body rest)) := ih reader.raise fun _ _ => rfl
      have hraised : raised offset = true := by
        rw [h offset (Nat.le_refl _), decide_eq_true_eq]
        exact List.mem_cons_self
      refine Eq.trans hrest ?_
      show reader.raise.ending (Mark.placed _ offset (Mark.body rest)) =
        reader.ending (Mark.placed raised offset (Mark.body rest))
      cases hbody : Mark.body rest with
      | nil => exact congrArg (fun last => (last.1, [] ++ last.2)) reader.conclude_raise
      | cons b bytes =>
        have hlater : Mark.placed (fun n => decide (n ∈ Mark.raisedFrom offset rest)) (offset + 1)
            bytes = Mark.placed raised (offset + 1) bytes := by
          refine Mark.placed_congr (fun n hn => ?_) bytes
          rw [h n (Nat.le_of_succ_le hn), decide_eq_decide]
          exact (List.mem_cons.trans (or_iff_right (Nat.ne_of_gt hn))).symm
        rw [Mark.placed, Mark.placed, hlater, hraised]
        split
        · exact congrArg (fun other : Reader => other.ending (.byte b :: _)) reader.raise_raise
        · rfl

end Reader

/-! ## Deliveries -/

namespace Intake

def Call.marks : Call → List Mark
  | .chunk bytes _ => bytes.map .byte
  | .raise => [.raise]
  | .reset => []

def marks (calls : List Call) : List Mark :=
  calls.flatMap Call.marks

/-- One chunk ends the body, and nothing but exceptions comes after it. -/
def endsOnce : List Call → Bool
  | [] => false
  | .chunk _ true :: rest => rest.all (· == .raise)
  | .chunk _ false :: rest | .raise :: rest => endsOnce rest
  | .reset :: _ => false

/-- The calls hand over the body, and raise exceptions at the given offsets in it. -/
structure Delivers (body : Bytes) (raised : Finset Nat) (calls : List Call) : Prop where
  endsOnce : endsOnce calls
  body_eq : Mark.body (marks calls) = body
  raised_eq : (Mark.raisedFrom 0 (marks calls)).toFinset = raised

/-- How much of the body is there after each of the chunks. -/
def totalsFrom (total : Nat) : List Call → List Nat
  | [] => []
  | .chunk bytes _ :: rest => (total + bytes.length) :: totalsFrom (total + bytes.length) rest
  | .raise :: rest | .reset :: rest => totalsFrom total rest

/-- What calls come to: the decisions on the chunks, and all that there is to say. -/
structure Outcome where
  decisions : List Decision := []
  notices : List Notice := []
deriving Repr, DecidableEq

def outcome (intake : Intake) : List Call → Outcome
  | [] => {}
  | call :: rest =>
    let turn := intake.turn call
    let later := turn.intake.outcome rest
    ⟨turn.decision.toList ++ later.decisions, turn.notices ++ later.notices⟩

/-- The last chunk completes the document, and before it there is more to come. -/
def Completes (document : Document) (totals : List Nat) (decisions : List Decision) : Prop :=
  ∃ front last, totals = front ++ [last] ∧
    decisions = front.map (fun _ => .more) ++ [.complete document]

/-- The first chunk that goes past the limit is too much, and all later ones come too
late. -/
def Overruns (limit : Nat) (totals : List Nat) (decisions : List Decision) : Prop :=
  ∃ within first later, totals = within ++ first :: later ∧
    (∀ total ∈ within, total ≤ limit) ∧ limit < first ∧
    decisions = within.map (fun _ => .more) ++
      .skip .tooLong :: later.map fun _ => .skip .alreadyDone

theorem marks_cons (call : Call) (rest : List Call) :
    marks (call :: rest) = call.marks ++ marks rest := rfl

theorem body_append (front rest : List Mark) :
    Mark.body (front ++ rest) = Mark.body front ++ Mark.body rest :=
  List.filterMap_append

theorem body_bytes (bytes : Bytes) : Mark.body (bytes.map .byte) = bytes := by
  rw [Mark.body, List.filterMap_map]
  exact List.filterMap_some

/-! ## Bodies within the limit -/

/-- The reader follows the intake. -/
structure Reads (intake : Intake) (reader : Reader) : Prop where
  ready : intake.scanner.Ready reader.draft
  builder : intake.builder = reader.builder

theorem fresh_reads (settings : Settings) :
    (fresh settings).Reads { builder := .fresh settings.silentErrors settings.logTags } :=
  ⟨Scanner.fresh_ready, rfl⟩

namespace Reads

variable {intake : Intake} {reader : Reader}

theorem raise (h : intake.Reads reader) : intake.raise.Reads reader.raise :=
  ⟨h.ready, congrArg Builder.raise h.builder⟩

theorem advance (h : intake.Reads reader) (chunk : Bytes) :
    ∃ scanner, intake.advance chunk =
        ({ intake with scanner, builder := (reader.run (chunk.map .byte)).1.builder },
          (reader.run (chunk.map .byte)).2) ∧
      scanner.Ready (reader.run (chunk.map .byte)).1.draft := by
  obtain ⟨scanner, hfeed, hready⟩ := Scanner.feed?_ready h.ready chunk
  have hadvance : intake.scanner.feed chunk =
      (scanner, Event.coalesce (tokensEvents (reader.draft.run chunk).2)) := by
    rw [Scanner.feed, hfeed, Option.getD_some]
  refine ⟨scanner, ?_, ?_⟩
  · simp only [Intake.advance, hadvance, h.builder, Reader.run_bytes, Builder.hear_coalesce]
  · rw [Reader.run_bytes]
    exact hready

theorem conclude (h : intake.Reads reader) :
    intake.conclude.decision = some (.complete reader.conclude.1) ∧
      intake.conclude.notices = reader.conclude.2 ∧ intake.conclude.intake.complete := by
  have hrelease := Scanner.release_of_holds h.ready.holds
  rw [Intake.conclude, Scanner.finish, hrelease, h.builder]
  exact ⟨rfl, rfl, rfl⟩

end Reads

theorem take_of_le {intake : Intake} {chunk : Bytes} (hopen : intake.complete = false)
    (hfits : intake.total + chunk.length ≤ intake.limit) (last : Bool) :
    intake.take chunk last =
      let (advanced, notices) := { intake with total := intake.total + chunk.length }.advance chunk
      if last then { advanced.conclude with notices := notices ++ advanced.conclude.notices }
      else { intake := advanced, decision := some .more, notices } := by
  rw [take, if_neg (by rw [hopen]; decide)]
  exact if_neg (Nat.not_lt.mpr hfits)

theorem take_of_lt {intake : Intake} {chunk : Bytes} (hopen : intake.complete = false)
    (hover : intake.limit < intake.total + chunk.length) (last : Bool) :
    intake.take chunk last =
      { intake := { intake with total := intake.total + chunk.length, complete := true }
        decision := some (.skip .tooLong) } := by
  rw [take, if_neg (by rw [hopen]; decide)]
  exact if_pos hover

/-- Once a body is complete, all that is said is that it is. -/
theorem outcome_of_complete {intake : Intake} {calls : List Call} (hdone : intake.complete)
    (hcalls : ∀ call ∈ calls, call ≠ .reset) (total : Nat) :
    intake.outcome calls = ⟨(totalsFrom total calls).map fun _ => .skip .alreadyDone, []⟩ := by
  induction calls generalizing intake total with
  | nil => rfl
  | cons call rest ih =>
    obtain ⟨hcall, hrest⟩ := List.forall_mem_cons.mp hcalls
    cases call with
    | reset => exact absurd rfl hcall
    | raise =>
      have hraise : intake.raise.complete := hdone
      rw [outcome, turn, ih hraise hrest total]
      rfl
    | chunk bytes last =>
      have htake : intake.take bytes last =
          { intake, decision := some (.skip .alreadyDone) } := if_pos hdone
      rw [outcome, turn, htake, ih hdone hrest (total + bytes.length)]
      rfl

theorem totalsFrom_raises {calls : List Call} (h : ∀ call ∈ calls, call = .raise) (total : Nat) :
    totalsFrom total calls = [] := by
  induction calls with
  | nil => rfl
  | cons call rest ih =>
    obtain ⟨rfl, hrest⟩ := List.forall_mem_cons.mp h
    exact ih hrest

theorem marks_raises {calls : List Call} (h : ∀ call ∈ calls, call = .raise) :
    ∀ mark ∈ marks calls, mark = .raise := by
  intro mark hmem
  obtain ⟨call, hcall, hmark⟩ := List.mem_flatMap.mp hmem
  rw [h call hcall] at hmark
  exact List.mem_singleton.mp hmark

theorem body_raises {marks : List Mark} (h : ∀ mark ∈ marks, mark = .raise) :
    Mark.body marks = [] := by
  rw [Mark.body, List.filterMap_eq_nil_iff]
  intro mark hmem
  rw [h mark hmem]
  rfl

theorem outcome_raises {intake : Intake} {calls : List Call} (h : ∀ call ∈ calls, call = .raise) :
    intake.outcome calls = {} := by
  induction calls generalizing intake with
  | nil => rfl
  | cons call rest ih =>
    obtain ⟨rfl, hrest⟩ := List.forall_mem_cons.mp h
    rw [outcome, turn, ih hrest]
    rfl

theorem forall_raise {calls : List Call} (h : calls.all (· == .raise)) :
    ∀ call ∈ calls, call = .raise :=
  fun call hmem => eq_of_beq (List.all_eq_true.mp h call hmem)

theorem ne_reset_of_endsOnce {calls : List Call} (h : endsOnce calls) :
    ∀ call ∈ calls, call ≠ .reset := by
  induction calls with
  | nil => exact List.forall_mem_nil _
  | cons call rest ih =>
    cases call with
    | reset => cases h
    | raise => exact List.forall_mem_cons.mpr ⟨by simp, ih h⟩
    | chunk bytes last =>
      cases last with
      | false => exact List.forall_mem_cons.mpr ⟨by simp, ih h⟩
      | true =>
        refine List.forall_mem_cons.mpr ⟨by simp, fun other hmem => ?_⟩
        rw [forall_raise h other hmem]
        simp

/-- A body within the limit comes to what the reader makes of its marks. -/
theorem outcome_of_reads {intake : Intake} {reader : Reader} {calls : List Call}
    (h : intake.Reads reader) (hopen : intake.complete = false) (hends : endsOnce calls)
    (hfits : intake.total + (Mark.body (marks calls)).length ≤ intake.limit) :
    Completes (reader.ending (marks calls)).1 (totalsFrom intake.total calls)
        (intake.outcome calls).decisions ∧
      (intake.outcome calls).notices = (reader.ending (marks calls)).2 := by
  induction calls generalizing intake reader with
  | nil => cases hends
  | cons call rest ih =>
    cases call with
    | reset => cases hends
    | raise => exact ih h.raise hopen hends hfits
    | chunk bytes last =>
      rw [marks_cons, body_append, List.length_append, Call.marks, body_bytes] at hfits
      have hchunk : intake.total + bytes.length ≤ intake.limit := by omega
      have hcounted : Reads { intake with total := intake.total + bytes.length } reader :=
        ⟨h.ready, h.builder⟩
      obtain ⟨scanner, hadvance, hready⟩ := hcounted.advance bytes
      have hread : Reads { intake with
          scanner
          builder := (reader.run (bytes.map .byte)).1.builder
          total := intake.total + bytes.length } (reader.run (bytes.map .byte)).1 :=
        ⟨hready, rfl⟩
      have htake := take_of_le hopen hchunk last
      rw [hadvance] at htake
      rw [outcome, turn, htake, marks_cons, Call.marks, Reader.ending_append, totalsFrom]
      cases last with
      | false =>
        obtain ⟨⟨front, total, htotals, hdecisions⟩, hnotices⟩ := ih hread hopen hends (by
          show intake.total + bytes.length + _ ≤ intake.limit
          omega)
        refine ⟨⟨(intake.total + bytes.length) :: front, total, ?_, ?_⟩, ?_⟩
        · exact congrArg _ htotals
        · exact congrArg (.more :: ·) hdecisions
        · exact congrArg _ hnotices
      | true =>
        have hraises := forall_raise hends
        obtain ⟨hdecision, hnotices, -⟩ := hread.conclude
        have hafter : ∀ later : Intake, later.outcome rest = {} := fun _ => outcome_raises hraises
        simp only [if_true, hafter, Reader.ending_raises _ (marks_raises hraises),
          totalsFrom_raises hraises, hdecision, hnotices, List.append_nil]
        exact ⟨⟨[], _, rfl, rfl⟩, trivial⟩

/-! ## Bodies past the limit -/

/-- A body past the limit is given up with the chunk that goes past it. -/
theorem outcome_of_overrun {intake : Intake} {calls : List Call}
    (hopen : intake.complete = false) (hends : endsOnce calls)
    (hfits : intake.total ≤ intake.limit)
    (hover : intake.limit < intake.total + (Mark.body (marks calls)).length) :
    Overruns intake.limit (totalsFrom intake.total calls) (intake.outcome calls).decisions := by
  induction calls generalizing intake with
  | nil => cases hends
  | cons call rest ih =>
    cases call with
    | reset => cases hends
    | raise =>
      have hraise : intake.raise.complete = false := hopen
      exact ih hraise hends hfits hover
    | chunk bytes last =>
      rw [outcome, turn, totalsFrom]
      rw [marks_cons, body_append, List.length_append, Call.marks, body_bytes] at hover
      by_cases hchunk : intake.total + bytes.length ≤ intake.limit
      · cases last with
        | true =>
          rw [body_raises (marks_raises (forall_raise hends))] at hover
          exact absurd hover (Nat.not_lt.mpr hchunk)
        | false =>
          have hadvanced :
              ({ intake with total := intake.total + bytes.length }.advance bytes).1.complete =
                false := hopen
          obtain ⟨within, first, later, htotals, hwithin, hfirst, hdecisions⟩ :=
            ih hadvanced hends hchunk (by
              show intake.limit < intake.total + bytes.length + _
              omega)
          rw [take_of_le hopen hchunk]
          refine ⟨(intake.total + bytes.length) :: within, first, later, ?_,
            List.forall_mem_cons.mpr ⟨hchunk, hwithin⟩, hfirst, ?_⟩
          · exact congrArg _ htotals
          · exact congrArg (.more :: ·) hdecisions
      · have hpast : intake.limit < intake.total + bytes.length := Nat.lt_of_not_le hchunk
        have hrest : ∀ call ∈ rest, call ≠ .reset :=
          (List.forall_mem_cons.mp (ne_reset_of_endsOnce hends)).2
        rw [take_of_lt hopen hpast, outcome_of_complete rfl hrest (intake.total + bytes.length)]
        exact ⟨[], _, _, rfl, List.forall_mem_nil _, hpast, rfl⟩

/-! ## Any two deliveries -/

/-- The page of a body with exceptions at the given offsets, and what there is to say. -/
def pageOf (settings : Settings) (body : Bytes) (raised : Finset Nat) : Document × List Notice :=
  Reader.ending { builder := .fresh settings.silentErrors settings.logTags }
    (Mark.placed (fun offset => decide (offset ∈ raised)) 0 body)

namespace Delivers

variable {settings : Settings} {body : Bytes} {raised : Finset Nat} {calls : List Call}

theorem completes (h : Delivers body raised calls)
    (hfits : body.length ≤ settings.maxBodySize.toNat) :
    Completes (pageOf settings body raised).1 (totalsFrom 0 calls)
        ((fresh settings).outcome calls).decisions ∧
      ((fresh settings).outcome calls).notices = (pageOf settings body raised).2 := by
  have hraised : ∀ offset, 0 ≤ offset →
      decide (offset ∈ raised) = decide (offset ∈ Mark.raisedFrom 0 (marks calls)) := by
    intro offset _
    rw [decide_eq_decide, ← h.raised_eq, List.mem_toFinset]
  have hplaced := Reader.ending_eq_placed
    { builder := .fresh settings.silentErrors settings.logTags } (marks calls) hraised
  rw [h.body_eq] at hplaced
  rw [pageOf, ← hplaced]
  refine outcome_of_reads (fresh_reads settings) rfl h.endsOnce ?_
  rw [h.body_eq, fresh, Nat.zero_add]
  exact hfits

theorem overruns (h : Delivers body raised calls)
    (hover : settings.maxBodySize.toNat < body.length) :
    Overruns settings.maxBodySize.toNat (totalsFrom 0 calls)
      ((fresh settings).outcome calls).decisions := by
  have hopen : (fresh settings).complete = false := rfl
  refine outcome_of_overrun hopen h.endsOnce (Nat.zero_le _) ?_
  rw [h.body_eq, fresh, Nat.zero_add]
  exact hover

end Delivers

/-- Two deliveries of a body with exceptions in the same places come to the same.  If the body
is within the limit, both complete the same document and have the same to say, and if it is
not, both give it up with the first chunk that goes past the limit. -/
theorem outcome_eq_of_delivers (settings : Settings) {body : Bytes} {raised : Finset Nat}
    {calls other : List Call} (h : Delivers body raised calls)
    (hother : Delivers body raised other) :
    (body.length ≤ settings.maxBodySize.toNat →
      ∃ document notices,
        Completes document (totalsFrom 0 calls) ((fresh settings).outcome calls).decisions ∧
        Completes document (totalsFrom 0 other) ((fresh settings).outcome other).decisions ∧
        ((fresh settings).outcome calls).notices = notices ∧
        ((fresh settings).outcome other).notices = notices) ∧
      (settings.maxBodySize.toNat < body.length →
        Overruns settings.maxBodySize.toNat (totalsFrom 0 calls)
          ((fresh settings).outcome calls).decisions ∧
        Overruns settings.maxBodySize.toNat (totalsFrom 0 other)
          ((fresh settings).outcome other).decisions) := by
  refine ⟨fun hfits => ?_, fun hover => ⟨h.overruns hover, hother.overruns hover⟩⟩
  obtain ⟨hcompletes, hnotices⟩ := h.completes hfits
  obtain ⟨hothers, hsaid⟩ := hother.completes hfits
  exact ⟨_, _, hcompletes, hothers, hnotices, hsaid⟩

/-- A failed group cut in two ways, within the tag that the exception is raised before, and
with a limit that its first bytes pass. -/
theorem outcome_eq_of_two_cuts :
    let opener := Ascii.lessThan :: Tag.tryBlock.name ++ [Ascii.greaterThan]
    let branch := Ascii.lessThan :: Tag.except.name ++ [Ascii.greaterThan, 0x61]
    let calls := [.chunk opener false, .raise, .chunk branch true]
    let other := [.chunk (opener.take 3) false, .chunk (opener.drop 3) false, .raise, .raise,
      .chunk (branch.take 6) false, .chunk (branch.drop 6) false, .chunk [] true]
    (∃ document notices,
        Completes document (totalsFrom 0 calls) ((fresh {}).outcome calls).decisions ∧
        Completes document (totalsFrom 0 other) ((fresh {}).outcome other).decisions ∧
        ((fresh {}).outcome calls).notices = notices ∧
        ((fresh {}).outcome other).notices = notices) ∧
      Overruns 4 (totalsFrom 0 calls) ((fresh { maxBodySize := 4 }).outcome calls).decisions ∧
      Overruns 4 (totalsFrom 0 other) ((fresh { maxBodySize := 4 }).outcome other).decisions := by
  intro opener branch calls other
  have hcalls : Delivers (opener ++ branch) {9} calls := ⟨by decide, by decide, by decide⟩
  have hother : Delivers (opener ++ branch) {9} other := ⟨by decide, by decide, by decide⟩
  exact ⟨(outcome_eq_of_delivers {} hcalls hother).1 (by decide),
    (outcome_eq_of_delivers { maxBodySize := 4 } hcalls hother).2 (by decide)⟩

end Intake
end Page
end EdgeIncludes
