/-
How deep pages include pages.

A request for a fragment states in a header how deep the fragment is included, and the filter
that the request comes to reads its depth from there.  So along a chain of requests, each of
them made while the response to the one before was processed, the depth goes up by one every
time.  A response is processed only if its depth is less than the limit, and thus the chain
comes to an end at the limit, whatever the first request of it states (`recursion_bounded`).

A stream takes in a body or waits for fragments only if its depth was found to be less than the
limit (`Stream.Within`), and it asks for fragments only in these two cases.
-/
import EdgeIncludes.Proofs.Response.Rules
import EdgeIncludes.Proofs.Text.Numeral
import Mathlib.Data.List.Chain

namespace EdgeIncludes
namespace Response

/-! ## The header -/

theorem header?_depthHeader (request : SubRequest) :
    header? depthHeader request.headers = some (toString request.depth) := rfl

/-- A depth that is stated in the header is read back. -/
theorem depthOf_toString {depth : Nat} (h : depth < UInt32.size) :
    depthOf (some (toString depth)) = depth := by
  rw [depthOf, Option.bind_some, Text.number?_toString h, Option.getD_some]

theorem lt_maxDepth_of_skip? {settings : Settings} {depth : Nat}
    {contentType contentLength : Option String}
    (h : skip? settings depth contentType contentLength = none) :
    depth < settings.maxDepth.toNat := by
  rcases Nat.lt_or_ge depth settings.maxDepth.toNat with hlt | hdeep
  · exact hlt
  · rw [skip?, if_pos hdeep] at h
    split at h <;> cases h

namespace Stream

/-! ## One call -/

/-- The stream takes in a body or waits for fragments. -/
def IsActive (stream : Stream) : Prop :=
  stream.intake.isSome ∨ stream.assembly.isSome

def Call.isRequestHeaders : Call → Bool
  | .requestHeaders _ => true
  | _ => false

/-- The call tells headers, of the request or of the response. -/
def Call.isHeaders : Call → Bool
  | .requestHeaders _ | .responseHeaders _ => true
  | _ => false

variable {stream : Stream} {request : SubRequest} {reply : Reply}

theorem Handles.depth_eq (h : stream.Handles (.asks request reply)) :
    request.depth = stream.depth + 1 := by
  cases h
  rfl

theorem asks_notMem_building (notices : List Page.Notice) :
    .asks request reply ∉ notices.map Effect.building := by
  intro hmem
  obtain ⟨notice, -, hnotice⟩ := List.mem_map.mp hmem
  cases hnotice

theorem asks_of_body {size : Nat} {read : Reading} {last : Bool} {replies : Replies}
    (h : .asks request reply ∈ (stream.body size read last replies).effects) :
    stream.IsActive ∧ request.depth = stream.depth + 1 := by
  cases hintake : stream.intake with
  | none =>
    rw [body, hintake] at h
    cases h
  | some intake =>
    refine ⟨Or.inl (Option.isSome_of_mem hintake), ?_⟩
    rcases hdecision : (intake.take (stream.unseen size read) last).decision with
      _ | _ | document | reason
    rotate_left 2
    · obtain ⟨notices, effects, assembly, hall, -, hbody⟩ :=
        body_of_complete hintake hdecision replies
      have hmem : .asks request reply ∈ effects := by
        rw [hbody] at h
        split at h
        · simpa [finale, asks_notMem_building] using h
        · simpa [notes, asks_notMem_building] using h
      exact (hall.handles _ hmem).depth_eq
    all_goals
      rw [body, hintake] at h
      dsimp only at h
      rw [hdecision] at h
    · rcases List.mem_append.mp h with h | h
      · exact absurd h (asks_notMem_building _)
      · cases List.mem_singleton.mp h
    · exact absurd h (asks_notMem_building _)
    · exact absurd h (asks_notMem_building _)

theorem asks_of_answered {token : Nat} {status : Option String} {fragment : Bytes}
    {replies : Replies}
    (h : .asks request reply ∈ (stream.answered token status fragment replies).effects) :
    stream.IsActive ∧ request.depth = stream.depth + 1 := by
  cases hassembly : stream.assembly with
  | none =>
    rw [answered, hassembly] at h
    cases h
  | some assembly =>
    refine ⟨Or.inr (Option.isSome_of_mem hassembly), ?_⟩
    cases hfetch : assembly.fetch? token with
    | none =>
      rw [answered, hassembly] at h
      dsimp only at h
      rw [hfetch] at h
      cases h
    | some fetch =>
      obtain ⟨effects, after, hanswers, hturn⟩ :=
        answered_eq hassembly hfetch status fragment replies
      have hmem : .asks request reply ∈ effects := by
        rw [hturn] at h
        split at h
        · simpa [finale] using h
        · exact h
      exact (hanswers.handles _ hmem).depth_eq

/-- Fragments are asked for by an active stream only, and one deeper than the stream is. -/
theorem asks_of_turn {call : Call} (h : .asks request reply ∈ (stream.turn call).effects) :
    stream.IsActive ∧ request.depth = stream.depth + 1 := by
  cases call with
  | requestHeaders headers => exact absurd (List.mem_singleton.mp h) nofun
  | responseHeaders headers =>
    rw [turn, responseHeaders] at h
    split at h
    · rcases List.mem_cons.mp h with h | h
      · cases h
      · split at h
        · exact absurd (List.mem_singleton.mp h) nofun
        · cases h
    · exact absurd (List.mem_singleton.mp h) nofun
  | body size read last replies => exact asks_of_body h
  | answered token status fragment replies => exact asks_of_answered h
  | finished => exact absurd (List.mem_singleton.mp h) nofun

/-- What a stream becomes when no headers are told: its settings and its depth stay, and it does
not become active. -/
structure GoesOn (stream after : Stream) : Prop where
  settings_eq : after.settings = stream.settings
  depth_eq : after.depth = stream.depth
  active : after.IsActive → stream.IsActive

theorem GoesOn.refl (stream : Stream) : stream.GoesOn stream :=
  ⟨rfl, rfl, id⟩

theorem GoesOn.trans {middle after : Stream} (h : stream.GoesOn middle)
    (hmore : middle.GoesOn after) : stream.GoesOn after :=
  ⟨hmore.settings_eq.trans h.settings_eq, hmore.depth_eq.trans h.depth_eq,
    fun hactive => h.active (hmore.active hactive)⟩

theorem goesOn_body (stream : Stream) (size : Nat) (read : Reading) (last : Bool)
    (replies : Replies) : stream.GoesOn (stream.body size read last replies).stream := by
  rw [body]
  cases hintake : stream.intake with
  | none => exact .refl stream
  | some intake =>
    have hactive : stream.IsActive := Or.inl (Option.isSome_of_mem hintake)
    dsimp only
    split
    · rw [assemble]
      split <;> exact ⟨rfl, rfl, fun _ => hactive⟩
    all_goals exact ⟨rfl, rfl, fun _ => hactive⟩

theorem goesOn_answered (stream : Stream) (token : Nat) (status : Option String)
    (fragment : Bytes) (replies : Replies) :
    stream.GoesOn (stream.answered token status fragment replies).stream := by
  rw [answered]
  cases hassembly : stream.assembly with
  | none => exact .refl stream
  | some assembly =>
    have hactive : stream.IsActive := Or.inr (Option.isSome_of_mem hassembly)
    dsimp only
    split
    · exact .refl stream
    · split <;> exact ⟨rfl, rfl, fun _ => hactive⟩

theorem goesOn_turn (stream : Stream) {call : Call} (hcall : call.isHeaders = false) :
    stream.GoesOn (stream.turn call).stream := by
  cases call with
  | requestHeaders headers => cases hcall
  | responseHeaders headers => cases hcall
  | body size read last replies => exact goesOn_body stream size read last replies
  | answered token status fragment replies =>
    exact goesOn_answered stream token status fragment replies
  | finished => exact .refl stream

/-! ## Streams at a depth -/

/-- The stream has the settings and the depth, and if it is active the depth is less than the
limit. -/
structure Within (settings : Settings) (depth : Nat) (stream : Stream) : Prop where
  settings_eq : stream.settings = settings
  depth_eq : stream.depth = depth
  lt_of_active : stream.IsActive → depth < settings.maxDepth.toNat

variable {settings : Settings} {depth : Nat}

theorem Within.goesOn {after : Stream} (h : Within settings depth stream)
    (hafter : stream.GoesOn after) : Within settings depth after :=
  ⟨hafter.settings_eq.trans h.settings_eq, hafter.depth_eq.trans h.depth_eq,
    fun hactive => h.lt_of_active (hafter.active hactive)⟩

/-- Whatever is called after the request's headers, the stream stays within the limit. -/
theorem Within.turn (h : Within settings depth stream) {call : Call}
    (hcall : call.isRequestHeaders = false) : Within settings depth (stream.turn call).stream := by
  cases call with
  | requestHeaders headers => cases hcall
  | responseHeaders headers =>
    rw [Stream.turn, responseHeaders]
    split
    · exact h
    · rename_i hskip
      rw [h.settings_eq, h.depth_eq] at hskip
      exact ⟨h.settings_eq, h.depth_eq, fun _ => lt_maxDepth_of_skip? hskip⟩
  | body size read last replies => exact h.goesOn (goesOn_turn stream rfl)
  | answered token status fragment replies => exact h.goesOn (goesOn_turn stream rfl)
  | finished => exact h

/-! ## Runs -/

theorem effects_steps_cons (stream : Stream) (call : Call) (rest : List Call) :
    effects (stream.steps (call :: rest)) =
      (stream.turn call).effects ++ effects ((stream.turn call).stream.steps rest) := rfl

theorem effects_steps_append (stream : Stream) (front rest : List Call) :
    effects (stream.steps (front ++ rest)) =
      effects (stream.steps front) ++ effects ((stream.run front).steps rest) := by
  induction front generalizing stream with
  | nil => rfl
  | cons call front ih =>
    rw [List.cons_append, effects_steps_cons, ih, effects_steps_cons, List.append_assoc]
    rfl

/-- Before it is told any headers a stream is not active, and so it asks for nothing. -/
theorem run_of_no_headers {calls : List Call} (hactive : ¬ stream.IsActive)
    (hcalls : ∀ call ∈ calls, call.isHeaders = false) :
    stream.GoesOn (stream.run calls) ∧
      ∀ request reply, .asks request reply ∉ effects (stream.steps calls) := by
  induction calls generalizing stream with
  | nil => exact ⟨.refl stream, nofun⟩
  | cons call rest ih =>
    obtain ⟨hcall, hrest⟩ := List.forall_mem_cons.mp hcalls
    have hgoes := stream.goesOn_turn hcall
    obtain ⟨hlast, hnone⟩ := ih (fun hafter => hactive (hgoes.active hafter)) hrest
    refine ⟨hgoes.trans hlast, fun request reply hmem => ?_⟩
    rw [effects_steps_cons] at hmem
    rcases List.mem_append.mp hmem with hmem | hmem
    · exact hactive (asks_of_turn hmem).1
    · exact hnone request reply hmem

/-- A stream that is within the limit asks for fragments one deeper than it is, and does so only
if its depth is less than the limit. -/
theorem Within.run {calls : List Call} (h : Within settings depth stream)
    (hcalls : ∀ call ∈ calls, call.isRequestHeaders = false) :
    Within settings depth (stream.run calls) ∧
      ∀ request reply, .asks request reply ∈ effects (stream.steps calls) →
        request.depth = depth + 1 ∧ depth < settings.maxDepth.toNat := by
  induction calls generalizing stream with
  | nil => exact ⟨h, nofun⟩
  | cons call rest ih =>
    obtain ⟨hcall, hrest⟩ := List.forall_mem_cons.mp hcalls
    obtain ⟨hlast, hlater⟩ := ih (h.turn hcall) hrest
    refine ⟨hlast, fun request reply hmem => ?_⟩
    rw [effects_steps_cons] at hmem
    rcases List.mem_append.mp hmem with hmem | hmem
    · obtain ⟨hactive, hdepth⟩ := asks_of_turn hmem
      exact ⟨h.depth_eq ▸ hdepth, h.lt_of_active hactive⟩
    · exact hlater request reply hmem

end Stream

/-! ## Chains of requests -/

/-- A request that comes to a filter, and all that its host calls for it.  The request's headers
come once, and before those of the response. -/
structure Visit where
  number : Nat
  early : List Stream.Call
  headers : Headers
  late : List Stream.Call
  early_headers : ∀ call ∈ early, call.isHeaders = false
  late_headers : ∀ call ∈ late, call.isRequestHeaders = false

namespace Visit

def calls (visit : Visit) : List Stream.Call :=
  visit.early ++ .requestHeaders visit.headers :: visit.late

/-- The depth that the request states. -/
def depth (visit : Visit) : Nat :=
  depthOf (header? depthHeader visit.headers)

/-- While the response to the request is processed, another request is made. -/
def Asks (settings : Settings) (visit : Visit) (request : SubRequest) : Prop :=
  ∃ reply, .asks request reply ∈ effects ((Stream.fresh visit.number settings).steps visit.calls)

/-- The next request is made while the response to this one is processed, and its header comes
to the next filter as it was sent. -/
def LeadsTo (settings : Settings) (visit next : Visit) : Prop :=
  ∃ request, visit.Asks settings request ∧
    header? depthHeader next.headers = header? depthHeader request.headers

/-- The depth that the filter works with once all is called. -/
def finalDepth (settings : Settings) (visit : Visit) : Nat :=
  ((Stream.fresh visit.number settings).run visit.calls).depth

/-- The filter takes the depth that the request states for its own, and what it asks for is one
deeper. -/
theorem depth_of_asks (settings : Settings) (visit : Visit) :
    visit.finalDepth settings = visit.depth ∧ ∀ request, visit.Asks settings request →
      request.depth = visit.depth + 1 ∧ visit.depth < settings.maxDepth.toNat := by
  have hfresh : ¬ (Stream.fresh visit.number settings).IsActive := by
    rintro (h | h) <;> cases h
  obtain ⟨hgoes, hnone⟩ := Stream.run_of_no_headers hfresh visit.early_headers
  have hwithin : Stream.Within settings visit.depth
      ((((Stream.fresh visit.number settings).run visit.early).turn
        (.requestHeaders visit.headers)).stream) :=
    ⟨hgoes.settings_eq, rfl, fun hactive => absurd (hgoes.active hactive) hfresh⟩
  obtain ⟨hlast, hasks⟩ := hwithin.run visit.late_headers
  refine ⟨?_, ?_⟩
  · rw [finalDepth, calls, Stream.run, List.foldl_append]
    exact hlast.depth_eq
  · rintro request ⟨reply, hmem⟩
    rw [calls, Stream.effects_steps_append, Stream.effects_steps_cons] at hmem
    rcases List.mem_append.mp hmem with hmem | hmem
    · exact absurd hmem (hnone request reply)
    · rcases List.mem_append.mp hmem with hmem | hmem
      · exact absurd (List.mem_singleton.mp hmem) nofun
      · exact hasks request reply hmem

theorem succ_lt_size {settings : Settings} {depth : Nat} (h : depth < settings.maxDepth.toNat) :
    depth + 1 < UInt32.size := by
  have hsize : settings.maxDepth.toNat < UInt32.size := settings.maxDepth.toNat_lt
  omega

/-- From one request to the next the depth goes up by one. -/
theorem depth_of_leadsTo {settings : Settings} {visit next : Visit}
    (h : visit.LeadsTo settings next) :
    next.depth = visit.depth + 1 ∧ visit.depth < settings.maxDepth.toNat := by
  obtain ⟨request, hasks, hheader⟩ := h
  obtain ⟨hdepth, hlt⟩ := (visit.depth_of_asks settings).2 request hasks
  have hsmall : request.depth < UInt32.size := hdepth ▸ succ_lt_size hlt
  refine ⟨?_, hlt⟩
  rw [depth, hheader, header?_depthHeader, depthOf_toString hsmall, hdepth]

end Visit

/-- Along a chain of requests, each of them made for a fragment of the response to the one before
it, every filter reads the depth that its request states, and asks for fragments one deeper, a
depth that the header can hold.  So the depth goes up by one from request to request, and after
the first request there are not more of them than are left to the limit. -/
theorem recursion_bounded {settings : Settings} {first : Visit} {rest : List Visit}
    (h : (first :: rest).IsChain (Visit.LeadsTo settings)) :
    (∀ visit ∈ first :: rest, visit.finalDepth settings = visit.depth ∧
        ∀ request, visit.Asks settings request →
          request.depth = visit.depth + 1 ∧ request.depth < UInt32.size) ∧
      (first :: rest).IsChain (fun visit next => next.depth = visit.depth + 1) ∧
      rest.length ≤ settings.maxDepth.toNat - first.depth := by
  refine ⟨fun visit _ => ?_, h.imp fun _ _ hleads => (Visit.depth_of_leadsTo hleads).1, ?_⟩
  · obtain ⟨hfinal, hasked⟩ := visit.depth_of_asks settings
    refine ⟨hfinal, fun request hasks => ?_⟩
    obtain ⟨hdepth, hlt⟩ := hasked request hasks
    exact ⟨hdepth, hdepth ▸ Visit.succ_lt_size hlt⟩
  · induction rest generalizing first with
    | nil => exact Nat.zero_le _
    | cons next rest ih =>
      obtain ⟨hleads, hrest⟩ := List.isChain_cons_cons.mp h
      obtain ⟨hdepth, hlt⟩ := Visit.depth_of_leadsTo hleads
      have hle := ih hrest
      rw [List.length_cons]
      omega

/-- A request for a page that includes itself, with a depth in its header. -/
def selfIncluding (depth : String) : Visit :=
  let page := Ascii.lessThan :: Tag.inclusion.name ++
    [0x20, 0x73, 0x72, 0x63, 0x3D, 0x22, 0x2F, 0x22, 0x2F, Ascii.greaterThan]
  { number := 2
    early := []
    headers := [(":authority", "host"), (":path", "/"), (depthHeader, depth)]
    late := [.responseHeaders [("content-type", "text/html")],
      .body page.length (fun start length => (page.drop start).take length) true
        fun place => .accepted (place + 1),
      .answered 1 (some "200") [0x61] fun place => .accepted (place + 2)]
    early_headers := nofun
    late_headers := by decide }

/-- A header that is no number states no depth.  The page is included twice from there, which is
the limit, and the last request makes no more of them. -/
theorem recursion_bounded_of_self_including :
    let settings : Settings := { maxDepth := 2 }
    let chain := [selfIncluding "- 1", selfIncluding "1", selfIncluding "2"]
    chain.IsChain (Visit.LeadsTo settings) ∧
      chain.IsChain (fun visit next => next.depth = visit.depth + 1) ∧
      2 ≤ settings.maxDepth.toNat - (selfIncluding "- 1").depth ∧
      (effects ((Stream.fresh 2 settings).steps (selfIncluding "2").calls)).length = 3 := by
  intro settings chain
  let request (depth : Nat) : SubRequest :=
    { fetch := ⟨0, false⟩, cluster := "esi_upstream", target := ⟨"host", "/"⟩, depth,
      timeoutMs := 5000 }
  have hfirst : (selfIncluding "- 1").Asks settings (request 1) :=
    ⟨.accepted 1, by decide +kernel⟩
  have hsecond : (selfIncluding "1").Asks settings (request 2) :=
    ⟨.accepted 1, by decide +kernel⟩
  have hchain : chain.IsChain (Visit.LeadsTo settings) :=
    .cons_cons ⟨request 1, hfirst, by decide +kernel⟩
      (.cons_cons ⟨request 2, hsecond, by decide +kernel⟩ (.singleton _))
  obtain ⟨-, hdepths, hlength⟩ := recursion_bounded hchain
  exact ⟨hchain, hdepths, hlength, by decide +kernel⟩

end Response
end EdgeIncludes
