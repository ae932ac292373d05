/-
An intake that is reset is a new one.

Not every part of an intake is put back by itself.  The tags that are still open are closed into a
page that nobody asks for, which empties the stack; the page is then taken away, and the numbers
of the slots with it; the two flags are put down.  Here this is done one thing after the other
(`Builder.handOver`, `Intake.restarted`), and what it leaves behind is compared with a new intake.
The settings are the one thing that is not put back, and no call changes them (`Configured.turn`).
What an intake reports of its calls is said by the intake and the calls, and so after a reset it
reports what a new one would.
-/
import EdgeIncludes.Page.Intake
import EdgeIncludes.Proofs.Page.Exceptions

namespace EdgeIncludes
namespace Page

open Markup (Attribute Event)

/-! ## What no call on a builder changes -/

namespace Builder

/-- What the builder was set up with. -/
def switches (builder : Builder) : Bool × Bool :=
  (builder.silentErrors, builder.logTags)

theorem switches_deliver (builder : Builder) (add : Fragment → Fragment) :
    (builder.deliver add).switches = builder.switches := by
  rw [deliver]
  split
  · rfl
  · split <;> rfl

theorem switches_register (builder : Builder) (attributes : List Attribute) :
    (builder.register attributes).switches = builder.switches := by
  rw [register]
  split
  · rw [switches_deliver]
    rfl
  · split <;> rfl

theorem switches_prepare (builder : Builder) (tag : Tag) (attributes : List Attribute) :
    (builder.prepare tag attributes).switches = builder.switches := by
  cases tag with
  | inclusion =>
    rw [prepare]
    split
    · rfl
    · exact builder.switches_register attributes
  | _ => rfl

theorem switches_closeTop (builder : Builder) :
    builder.closeTop.switches = builder.switches := by
  match hstack : builder.stack with
  | [] => rw [closeTop, hstack]
  | [closed] => rw [closeTop_eq_of_last hstack, switches, switches]
  | closed :: parent :: rest => rw [closeTop_eq_of_inner hstack, switches, switches]

theorem switches_closeMany (count : Nat) (builder : Builder) :
    (closeMany count builder).switches = builder.switches := by
  induction count generalizing builder with
  | zero => rfl
  | succ count ih => rw [closeMany, ih, switches_closeTop]

theorem switches_receive (builder : Builder) (event : Event) :
    (builder.receive event).switches = builder.switches := by
  cases event with
  | startTag name attributes =>
    rw [receive]
    split
    · exact builder.switches_prepare _ attributes
    · rfl
  | endTag name =>
    rw [receive]
    split
    · exact switches_closeMany _ builder
    · rfl
  | output bytes => exact builder.switches_deliver _

theorem switches_hear (builder : Builder) (events : List Event) :
    (builder.hear events).1.switches = builder.switches := by
  induction events generalizing builder with
  | nil => rfl
  | cons event rest ih => rw [hear_cons, ih, switches_receive]

/-! ## Handing a page over -/

theorem length_stack_closeTop (builder : Builder) :
    builder.closeTop.stack.length = builder.stack.length - 1 := by
  have htags := congrArg List.length builder.map_tag_closeTop
  rwa [List.length_map, List.length_tail, List.length_map] at htags

theorem length_stack_closeMany (count : Nat) (builder : Builder) :
    (closeMany count builder).stack.length = builder.stack.length - count := by
  induction count generalizing builder with
  | zero => rfl
  | succ count ih => rw [closeMany, ih, length_stack_closeTop, Nat.sub_sub, Nat.add_comm 1 count]

/-- No tag is left open. -/
theorem stack_closeAll (builder : Builder) : builder.closeAll.stack = [] := by
  rw [← List.length_eq_zero_iff, closeAll, length_stack_closeMany, Nat.sub_self]

/-- Close what is open, put the flags down, and take the page and its requests away. -/
def handOver (builder : Builder) : Document × Builder :=
  let closed := builder.closeAll
  let settled := { closed with exceptionRaised := false, ignoring := false }
  (.of settled.root settled.requests, { settled with root := .empty, requests := [] })

/-- What is left once the page is taken away is a new builder. -/
theorem handOver_eq (builder : Builder) :
    builder.handOver = (builder.document, builder.after .take) := by
  have hswitches : builder.closeAll.switches = builder.switches := builder.switches_closeMany _
  have hsilent : builder.closeAll.silentErrors = builder.silentErrors :=
    congrArg Prod.fst hswitches
  have hlog : builder.closeAll.logTags = builder.logTags := congrArg Prod.snd hswitches
  refine Prod.ext rfl ?_
  show Builder.mk builder.closeAll.stack .empty [] false false builder.closeAll.silentErrors
    builder.closeAll.logTags = fresh builder.silentErrors builder.logTags
  rw [stack_closeAll, hsilent, hlog]
  rfl

end Builder
end Page

namespace Scan

/-- Give up what is pending: the staged and the carried bytes, and the tag in hand. -/
def Scanner.restarted (scanner : Scanner) : Scanner :=
  { scanner.discharged with carry := none, previous := .text }

theorem Scanner.restarted_eq (scanner : Scanner) : scanner.restarted = .fresh := rfl

end Scan

namespace Page
namespace Intake

/-! ## Resetting -/

/-- Put everything back, one thing after the other.  The page that is handed over is dropped. -/
def restarted (intake : Intake) : Turn :=
  let (_, builder) := intake.builder.handOver
  { intake := { intake with
      scanner := intake.scanner.restarted
      builder
      total := 0
      complete := false }
    notices := intake.builder.notices .take }

theorem reset_eq (intake : Intake) : intake.turn .reset = intake.restarted := by
  rw [restarted, Builder.handOver_eq, Scan.Scanner.restarted_eq]
  rfl

/-- The intake has the settings. -/
structure Configured (settings : Settings) (intake : Intake) : Prop where
  limit : intake.limit = settings.maxBodySize.toNat
  switches : intake.builder.switches = (settings.silentErrors, settings.logTags)

namespace Configured

variable {settings : Settings} {intake : Intake}

theorem fresh (settings : Settings) : Configured settings (.fresh settings) :=
  ⟨rfl, rfl⟩

theorem advance (h : Configured settings intake) (chunk : Bytes) :
    Configured settings (intake.advance chunk).1 :=
  ⟨h.limit, (Builder.switches_hear _ _).trans h.switches⟩

theorem conclude (h : Configured settings intake) : Configured settings intake.conclude.intake :=
  ⟨h.limit, (Builder.switches_hear _ _).trans h.switches⟩

theorem take (h : Configured settings intake) (chunk : Bytes) (last : Bool) :
    Configured settings (intake.take chunk last).intake := by
  have hcounted : ∀ total, Configured settings { intake with total } :=
    fun _ => ⟨h.limit, h.switches⟩
  rw [Intake.take]
  split
  · exact h
  · dsimp only
    split
    · exact ⟨h.limit, h.switches⟩
    · split
      · exact ((hcounted _).advance chunk).conclude
      · exact (hcounted _).advance chunk

/-- No call changes the settings. -/
theorem turn (h : Configured settings intake) (call : Call) :
    Configured settings (intake.turn call).intake := by
  cases call with
  | chunk bytes last => exact h.take bytes last
  | raise => exact ⟨h.limit, h.switches⟩
  | reset => exact ⟨h.limit, h.switches⟩

/-- Of an intake that is reset nothing is left but its settings. -/
theorem intake_reset (h : Configured settings intake) :
    (intake.turn .reset).intake = .fresh settings := by
  have hsilent : intake.builder.silentErrors = settings.silentErrors :=
    congrArg Prod.fst h.switches
  have hlog : intake.builder.logTags = settings.logTags := congrArg Prod.snd h.switches
  show Intake.mk .fresh (.fresh intake.builder.silentErrors intake.builder.logTags) 0 intake.limit
    false = _
  rw [hsilent, hlog, h.limit]
  rfl

end Configured

/-! ## What is reported -/

/-- What a caller can see of a call: the decision, how much of the body there is, whether it has
ended, and the lines of the log. -/
structure Report where
  decision : Option Decision
  total : Nat
  complete : Bool
  lines : List Log.Line
deriving Repr, DecidableEq

def Turn.report (turn : Turn) : Report :=
  ⟨turn.decision, turn.intake.total, turn.intake.complete, turn.notices.map Notice.line⟩

/-- The reports of calls, one for each of them. -/
def reports (intake : Intake) : List Call → List Report
  | [] => []
  | call :: rest => (intake.turn call).report :: (intake.turn call).intake.reports rest

/-- The intake after calls. -/
def afterAll (intake : Intake) (calls : List Call) : Intake :=
  calls.foldl (fun intake call => (intake.turn call).intake) intake

theorem reports_append (intake : Intake) (front back : List Call) :
    intake.reports (front ++ back) = intake.reports front ++ (intake.afterAll front).reports back := by
  induction front generalizing intake with
  | nil => rfl
  | cons call front ih => exact congrArg ((intake.turn call).report :: ·) (ih _)

theorem Configured.afterAll {settings : Settings} {intake : Intake}
    (h : Configured settings intake) (calls : List Call) :
    Configured settings (intake.afterAll calls) := by
  induction calls generalizing intake with
  | nil => exact h
  | cons call calls ih => exact ih (h.turn call)

/-- Any calls on a new intake, and then a reset.  To put everything back one thing after the other
leaves a new intake, which numbers its slots from the beginning, and whatever is called later is
reported as it is of a new one. -/
theorem reset_starts_over (settings : Settings) (calls later : List Call) :
    let spent := (fresh settings).afterAll calls
    spent.turn .reset = spent.restarted ∧
      spent.restarted.intake = fresh settings ∧
      spent.restarted.intake.builder.nextNumber = 0 ∧
      (fresh settings).reports (calls ++ .reset :: later) =
        (fresh settings).reports calls ++
          spent.restarted.report :: (fresh settings).reports later := by
  intro spent
  have hconfigured : Configured settings spent := (Configured.fresh settings).afterAll calls
  have hreset := spent.reset_eq
  have hnew : spent.restarted.intake = fresh settings := hreset ▸ hconfigured.intake_reset
  refine ⟨hreset, hnew, by rw [hnew]; rfl, ?_⟩
  rw [reports_append, reports, hreset, hnew]

end Intake
end Page
end EdgeIncludes
