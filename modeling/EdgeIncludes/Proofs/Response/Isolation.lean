/-
Streams that do not notice each other.

The settings that the filter accepted last and those that it shares are the same after every
call, because both are written when a configuration is accepted and neither is written otherwise
(`accepted_foldl`, `shared_foldl`).  A stream gets a copy of them when it begins and never looks
at them again, and a call on one stream leaves every other one as it is (`lookup_after`).  Among
whatever else is called, a stream therefore does what it would do alone, with the settings of the
last configuration that was accepted before it began (`streams_isolated`).
-/
import EdgeIncludes.Proofs.Response.Recursion
import EdgeIncludes.Response.Proxy
import Mathlib.Data.List.Induction

namespace EdgeIncludes

theorem Settings.types_ne_nil_of_ofBytes {bytes : Bytes} {settings : Settings}
    (h : ofBytes bytes = .ok settings) : settings.types ≠ [] := by
  rw [ofBytes] at h
  split at h
  · cases h
  · split at h
    · cases h
    · split at h
      · cases h
      · rename_i hsome
        cases h
        rwa [List.isEmpty_iff] at hsome

namespace Response

/-! ## Settings of a stream -/

/-- A stream keeps its settings to its end. -/
theorem Stream.settings_turn (stream : Stream) (call : Call) :
    (stream.turn call).stream.settings = stream.settings := by
  cases call with
  | requestHeaders headers => rfl
  | responseHeaders headers =>
    rw [turn, responseHeaders]
    split <;> rfl
  | body size read last replies => exact (stream.goesOn_turn rfl).settings_eq
  | answered token status fragment replies => exact (stream.goesOn_turn rfl).settings_eq
  | finished => rfl

theorem Stream.settings_of_mem_steps {stream : Stream} {calls : List Call} {step : Step}
    (h : step ∈ stream.steps calls) : step.before.settings = stream.settings := by
  induction calls generalizing stream with
  | nil => exact absurd h List.not_mem_nil
  | cons call rest ih =>
    rcases List.mem_cons.mp h with rfl | h
    · rfl
    · exact (ih h).trans (stream.settings_turn call)

namespace Filter

/-! ## Calls -/

namespace Call

/-- The settings that the filter accepts with the call, if it is offered any. -/
def accepted? : Call → Option Settings
  | .configure (some bytes) => (Settings.ofBytes bytes).toOption
  | _ => none

/-- What the stream is told with the call, if it is told anything. -/
def told? (number : Nat) : Call → Option Stream.Call
  | .turn other call => if other = number then some call else none
  | _ => none

end Call

/-- The settings of the last configuration that was accepted, or those that there are without
one. -/
def lastAccepted (calls : List Call) : Settings :=
  (calls.filterMap Call.accepted?).getLastD .initial

/-- The turns that a stream takes while the calls are made on the filter. -/
def turns (number : Nat) (filter : Filter) : List Call → List Turn
  | [] => []
  | call :: rest =>
    ((call.told? number).bind (filter.turn? number)).toList ++ turns number (filter.after call) rest

variable {filter : Filter} {call : Call} {calls : List Call} {number : Nat} {stream : Stream}

theorem turns_append (number : Nat) (filter : Filter) (front back : List Call) :
    turns number filter (front ++ back) =
      turns number filter front ++ turns number (front.foldl after filter) back := by
  induction front generalizing filter with
  | nil => rfl
  | cons call rest ih => rw [List.cons_append, turns, turns, ih, List.append_assoc, List.foldl_cons]

/-! ## Configurations -/

/-- A configuration that is rejected changes nothing. -/
theorem after_of_rejected {configuration : Option Bytes} {rejection : Settings.Rejection}
    (h : filter.configure configuration = .error rejection) :
    filter.after (.configure configuration) = filter := by
  rw [after, h]

theorem accept_some (filter : Filter) (bytes : Bytes) :
    filter.accept (some bytes) =
      (Settings.ofBytes bytes).map fun accepted => { filter with accepted } := rfl

theorem accepted_create (filter : Filter) (number : Nat) :
    (filter.create number).accepted = filter.accepted ∧
      (filter.create number).shared = filter.shared := by
  rw [create]
  split <;> exact ⟨rfl, rfl⟩

theorem accepted_after (filter : Filter) (call : Call) :
    (filter.after call).accepted = call.accepted?.getD filter.accepted := by
  cases call with
  | create number => exact (filter.accepted_create number).1
  | turn number call =>
    rw [after]
    split <;> rfl
  | configure configuration =>
    cases configuration with
    | none => rfl
    | some bytes =>
      rw [after, configure, accept_some, Call.accepted?]
      cases Settings.ofBytes bytes <;> rfl

theorem shared_after (h : filter.shared = filter.accepted) (call : Call) :
    (filter.after call).shared = (filter.after call).accepted := by
  cases call with
  | create number =>
    rw [after, (filter.accepted_create number).1, (filter.accepted_create number).2, h]
  | turn number call =>
    rw [after]
    split <;> exact h
  | configure configuration =>
    rw [after, configure]
    cases filter.accept configuration with
    | ok accepted => rfl
    | error rejection => exact h

theorem lastAccepted_snoc (calls : List Call) (call : Call) :
    lastAccepted (calls ++ [call]) = call.accepted?.getD (lastAccepted calls) := by
  rw [lastAccepted, List.filterMap_append, lastAccepted]
  cases haccepted : call.accepted? with
  | none => simp [haccepted]
  | some settings => simp [haccepted]

theorem accepted_foldl (calls : List Call) :
    (calls.foldl after fresh).accepted = lastAccepted calls := by
  induction calls using List.reverseRecOn with
  | nil => rfl
  | append_singleton calls call ih =>
    rw [List.foldl_append, List.foldl_cons, List.foldl_nil, accepted_after, ih, lastAccepted_snoc]

theorem shared_foldl (calls : List Call) :
    (calls.foldl after fresh).shared = lastAccepted calls := by
  rw [← accepted_foldl]
  induction calls using List.reverseRecOn with
  | nil => rfl
  | append_singleton calls call ih =>
    rw [List.foldl_append, List.foldl_cons, List.foldl_nil]
    exact shared_after ih call

/-- Settings that are in force name at least one content type. -/
theorem types_lastAccepted (calls : List Call) : (lastAccepted calls).types ≠ [] := by
  induction calls using List.reverseRecOn with
  | nil => exact List.cons_ne_nil _ _
  | append_singleton calls call ih =>
    rw [lastAccepted_snoc]
    match call with
    | .create number => exact ih
    | .turn number call => exact ih
    | .configure none => exact ih
    | .configure (some bytes) =>
      rw [Call.accepted?]
      cases hread : Settings.ofBytes bytes with
      | error rejection => exact ih
      | ok settings => exact Settings.types_ne_nil_of_ofBytes hread

/-! ## Streams among others -/

theorem lookup_keep (filter : Filter) (other : Nat) (stream : Stream) (number : Nat) :
    (filter.keep other stream).streams[number]? =
      if other = number then some stream else filter.streams[number]? := by
  rw [keep, Std.TreeMap.getElem?_insert]
  simp only [compare_eq_iff_eq]

theorem streams_configure (filter : Filter) (configuration : Option Bytes) :
    (filter.after (.configure configuration)).streams = filter.streams := by
  cases configuration with
  | none => rfl
  | some bytes =>
    rw [after, configure, accept_some]
    cases Settings.ofBytes bytes <;> rfl

/-- A stream is changed by what it is told and by nothing else. -/
theorem lookup_after (h : filter.streams[number]? = some stream) (call : Call) :
    (filter.after call).streams[number]? =
      some (((call.told? number).map fun told => (stream.turn told).stream).getD stream) := by
  cases call with
  | configure configuration =>
    rw [streams_configure]
    exact h
  | create other =>
    rw [after, create]
    split
    · exact h
    · rename_i hfree
      rw [lookup_keep, if_neg, h]
      · rfl
      · rintro rfl
        rw [Std.TreeMap.contains_eq_isSome_getElem?, h] at hfree
        exact hfree rfl
  | turn other call =>
    rw [after, turn?, Call.told?]
    by_cases hother : other = number
    · subst hother
      rw [h, if_pos rfl]
      dsimp only [Option.map_some]
      rw [lookup_keep, if_pos rfl]
      rfl
    · rw [if_neg hother]
      split
      · rw [lookup_keep, if_neg hother, h]
        rfl
      · exact h

theorem told?_bind_turn? (h : filter.streams[number]? = some stream) (call : Call) :
    (call.told? number).bind (filter.turn? number) = (call.told? number).map stream.turn := by
  cases call.told? number with
  | none => rfl
  | some told => rw [Option.bind_some, turn?, h]; rfl

/-- From any place in a run on, a stream does what it would do alone. -/
theorem turns_of_lookup (h : filter.streams[number]? = some stream) (calls : List Call) :
    (calls.foldl after filter).streams[number]? =
        some (stream.run (calls.filterMap (Call.told? number))) ∧
      turns number filter calls =
        (stream.steps (calls.filterMap (Call.told? number))).map Step.turn := by
  induction calls generalizing filter stream with
  | nil => exact ⟨h, rfl⟩
  | cons call rest ih =>
    obtain ⟨hlast, hturns⟩ := ih (lookup_after h call)
    rw [List.foldl_cons, hlast, turns, told?_bind_turn? h, hturns, List.filterMap_cons]
    cases call.told? number <;> exact ⟨rfl, rfl⟩

/-- Before it is begun, there is no stream of a number. -/
theorem turns_of_not_mem (h : filter.streams[number]? = none) (hcalls : .create number ∉ calls) :
    (calls.foldl after filter).streams[number]? = none ∧ turns number filter calls = [] := by
  induction calls generalizing filter with
  | nil => exact ⟨h, rfl⟩
  | cons call rest ih =>
    obtain ⟨hcall, hrest⟩ := not_or.mp (List.mem_cons.not.mp hcalls)
    have hafter : (filter.after call).streams[number]? = none := by
      cases call with
      | configure configuration => rw [streams_configure, h]
      | create other =>
        rw [after, create]
        split
        · exact h
        · rw [lookup_keep, if_neg, h]
          rintro rfl
          exact hcall rfl
      | turn other call =>
        rw [after]
        split
        · rename_i hturn
          rw [lookup_keep, if_neg, h]
          rintro rfl
          rw [turn?, h] at hturn
          cases hturn
        · exact h
    have hnone : (call.told? number).bind (filter.turn? number) = none := by
      cases call.told? number with
      | none => rfl
      | some told => rw [Option.bind_some, turn?, h]; rfl
    obtain ⟨hlast, hturns⟩ := ih hafter hrest
    exact ⟨hlast, by rw [turns, hnone, hturns]; rfl⟩

/-- Whatever is called, the filter has one and the same settings in both places, those of the last
configuration that was accepted, and they name a content type.  A configuration that is rejected
changes nothing.  And a stream, from its beginning on, takes the turns that it would take alone,
with the settings of the last configuration that was accepted before it began. -/
theorem streams_isolated (calls : List Call) :
    let last := calls.foldl after fresh
    last.accepted = lastAccepted calls ∧ last.shared = lastAccepted calls ∧
    (lastAccepted calls).types ≠ [] ∧
    (∀ configuration rejection, last.configure configuration = .error rejection →
      last.after (.configure configuration) = last) ∧
    last.effects (.configure none) = [.installed (lastAccepted calls)] ∧
    ∀ (earlier later : List Call) (number : Nat),
      calls = earlier ++ .create number :: later → .create number ∉ earlier →
        let stream := Stream.fresh number (lastAccepted earlier)
        let told := later.filterMap (Call.told? number)
        last.streams[number]? = some (stream.run told) ∧
        turns number fresh calls = (stream.steps told).map Step.turn ∧
        (∀ step ∈ stream.steps told, step.before.settings = lastAccepted earlier) ∧
        (lastAccepted earlier).types ≠ [] := by
  intro last
  refine ⟨accepted_foldl calls, shared_foldl calls, types_lastAccepted calls,
    fun configuration rejection => after_of_rejected, ?_, ?_⟩
  · rw [← accepted_foldl calls]
    rfl
  · rintro earlier later number rfl hnew stream told
    have hempty : fresh.streams[number]? = none := rfl
    obtain ⟨hnone, hturns⟩ := turns_of_not_mem hempty hnew
    have hbegun : ((earlier.foldl after fresh).after (.create number)).streams[number]? =
        some stream := by
      rw [after, create, if_neg, lookup_keep, if_pos rfl, shared_foldl]
      rw [Std.TreeMap.contains_eq_isSome_getElem?, hnone]
      exact Bool.false_ne_true
    obtain ⟨hlast, hturn⟩ := turns_of_lookup hbegun later
    refine ⟨?_, ?_, fun step hmem => Stream.settings_of_mem_steps hmem,
      types_lastAccepted earlier⟩
    · show ((earlier ++ .create number :: later).foldl after fresh).streams[number]? = _
      rw [List.foldl_append, List.foldl_cons]
      exact hlast
    · rw [turns_append, hturns, List.nil_append, turns, hturn]
      rfl

/-- A stream begins when the filter was disabled, and goes on as it began when that is undone,
which only the next stream gets to know. -/
theorem streams_isolated_of_two_streams :
    let disabling : Bytes := [0x5B, 0x66, 0x61, 0x6C, 0x73, 0x65, 0x5D]
    let earlier : List Call := [.configure (some disabling), .configure (some [0x5B])]
    let later : List Call := [.configure (some [0x5B, 0x5D]), .create 3, .turn 3 .finished,
      .turn 2 (.responseHeaders []), .turn 2 .finished]
    let calls := earlier ++ .create 2 :: later
    let disabled : Settings := { enabled := false }
    .create 2 ∉ earlier ∧ lastAccepted earlier = disabled ∧
      lastAccepted (earlier ++ .create 2 :: later.take 1) = .initial ∧
      turns 2 fresh calls =
        ((Stream.fresh 2 disabled).steps [.responseHeaders [], .finished]).map Step.turn ∧
      turns 3 fresh calls = ((Stream.fresh 3 .initial).steps [.finished]).map Step.turn := by
  intro disabling earlier later calls disabled
  have hearlier : lastAccepted earlier = disabled := by decide +kernel
  have hlater : lastAccepted (earlier ++ .create 2 :: later.take 1) = .initial := by decide +kernel
  have hfirst : .create 2 ∉ earlier := by simp [earlier]
  have hsecond : .create 3 ∉ earlier ++ .create 2 :: later.take 1 := by simp [earlier, later]
  obtain ⟨-, -, -, -, -, hisolated⟩ := streams_isolated calls
  obtain ⟨-, hturns, -⟩ := hisolated earlier later 2 rfl hfirst
  obtain ⟨-, hothers, -⟩ := hisolated (earlier ++ .create 2 :: later.take 1) (later.drop 2) 3 rfl
    hsecond
  rw [hearlier] at hturns
  rw [hlater] at hothers
  exact ⟨hfirst, hearlier, hlater, hturns, hothers⟩

end Filter

/-! ## Proxies -/

namespace Proxy

/-- A proxy does nothing to its filter but call it. -/
theorem exists_filter_call {proxy after : Proxy} {call : Call} {outcome : Outcome}
    (h : proxy.call call = .ok (after, outcome)) :
    ∃ made, after.filter = proxy.filter.after made ∧
      outcome.effects = proxy.filter.effects made := by
  cases call with
  | configure buffer =>
    cases h
    exact ⟨.configure (reported? buffer), rfl, rfl⟩
  | create number =>
    rw [Proxy.call, create] at h
    split at h
    · cases h
    · cases h
      exact ⟨.create number, rfl, rfl⟩
  | deliver arrival =>
    rw [Proxy.call, deliver] at h
    cases haddressee : proxy.addressee arrival with
    | error misuse =>
      rw [haddressee] at h
      cases h
    | ok number =>
      cases hstream : proxy.filter.streams[number]? with
      | none =>
        have hhosted : proxy.hosted number = .error .unknownContext := by rw [hosted, hstream]
        simp only [haddressee, hhosted, bind, Except.bind] at h
        cases h
      | some stream =>
        have hhosted : proxy.hosted number = .ok ⟨stream, proxy.buffers.getD number []⟩ := by
          rw [hosted, hstream]
        simp only [haddressee, hhosted, bind, Except.bind, pure, Except.pure] at h
        cases h
        refine ⟨.turn number (arrival.told (arrival.buffered (proxy.buffers.getD number []))
          (proxy.replies arrival.denials)), ?_, ?_⟩
        · rw [Filter.after, Filter.turn?, hstream]
          cases arrival <;> rfl
        · rw [Filter.effects, Filter.turn?, hstream]
          rfl

/-- A call that cannot be carried out changes nothing. -/
def after (proxy : Proxy) (call : Call) : Proxy :=
  match proxy.call call with
  | .ok (after, _) => after
  | .error _ => proxy

/-- What is done with a proxy comes to calls on its filter. -/
theorem exists_filter_calls (calls : List Call) :
    ∃ made : List Filter.Call,
      (calls.foldl after fresh).filter = made.foldl Filter.after .fresh := by
  induction calls using List.reverseRecOn with
  | nil => exact ⟨[], rfl⟩
  | append_singleton calls call ih =>
    obtain ⟨made, hmade⟩ := ih
    rw [List.foldl_append, List.foldl_cons, List.foldl_nil, after]
    cases hcall : (calls.foldl after fresh).call call with
    | error misuse => exact ⟨made, hmade⟩
    | ok answer =>
      obtain ⟨last, hlast, -⟩ := exists_filter_call hcall
      refine ⟨made ++ [last], ?_⟩
      rw [List.foldl_append, List.foldl_cons, List.foldl_nil, ← hmade, ← hlast]

end Proxy
end Response
end EdgeIncludes
