/-
What is noted under watch.

A watched scanner that has a draft in hand remembers of the key and of the value what the
draft says about them, each at its place in the stream (`Draft.keyMemory`,
`Draft.valueMemory`).  Since the buffer is the end of the stream and the places in it move
together with the offsets (`place_reach`), a span still denotes at the closing quote what it
was set on, wherever the chunks were cut in between.  So noting a byte under watch never
fails a check, and it notes what is noted without (`exists_notes`).
-/
import EdgeIncludes.Proofs.Scan.Reading
import EdgeIncludes.Proofs.Scan.Watch

namespace EdgeIncludes
namespace Scan

open Ascii Markup

/-! ## What a draft remembers -/

namespace Draft

/-- What the draft's key was, if `past` bytes of the stream stand before the draft. -/
def keyMemory (past : Nat) : Draft → Option Memory
  | .inTag letters pieces (.beforeValue key _)
  | .inTag letters pieces (.inValue key ..)
  | .inTag letters pieces (.escaped key ..) =>
    some ⟨past + (opener false ++ letters ++ piecesBytes pieces).length, key⟩
  | _ => none

/-- What stood from the draft's `=` up to its opening quote. -/
def valueMemory (past : Nat) : Draft → Option Memory
  | .inTag letters pieces (.inValue key gap quote _)
  | .inTag letters pieces (.escaped key gap quote _) =>
    some ⟨past + (opener false ++ letters ++ piecesBytes pieces).length + key.length,
      equals :: (gap ++ [quote])⟩
  | _ => none

/-- A byte that sets no bound changes nothing that is remembered. -/
theorem memory_stage {draft : Draft} {b : UInt8} {next : State}
    (hnone : draft.state.delimits? b = none) (h : Leads draft.state b next) (past : Nat) :
    (draft.stage b next).keyMemory past = draft.keyMemory past ∧
      (draft.stage b next).valueMemory past = draft.valueMemory past := by
  cases draft with
  | inTag letters pieces tail =>
    cases tail <;> cases h <;>
      first
      | exact ⟨rfl, rfl⟩
      | exact absurd hnone (by simp [state, Tail.state, State.delimits?, *])
  | _ => cases h <;> exact ⟨rfl, rfl⟩

/-- After a byte that stages nothing nothing is remembered. -/
theorem memory_step {draft : Draft} {b : UInt8} (h : ∀ next, draft.state.move b ≠ .staged next)
    (past : Nat) :
    (draft.step b).1.keyMemory past = none ∧ (draft.step b).1.valueMemory past = none := by
  rw [step]
  cases hmove : draft.state.move b with
  | staged next => exact absurd hmove (h next)
  | _ => exact ⟨rfl, rfl⟩

/-- Where the last part of a start tag starts, if the kept bytes start at `base`. -/
def reach (base : Nat) (letters : Bytes) (pieces : List Piece) : Nat :=
  nameStop base letters + (piecesBytes pieces).length

theorem length_head (before letters : Bytes) (pieces : List Piece) :
    (before ++ (namespaceBytes ++ letters ++ piecesBytes pieces)).length =
      reach before.length letters pieces := by
  simp only [reach, nameStop, List.length_append, Nat.add_assoc]

theorem length_inTag (before letters : Bytes) (pieces : List Piece) (tail : Tail) :
    (before ++ (inTag letters pieces tail).kept).length =
      reach before.length letters pieces + tail.written.length := by
  rw [← length_head]
  simp only [kept, List.length_append, Nat.add_assoc]

end Draft

/-- The bytes that set a bound, each in the state that it is read in. -/
theorem State.delimits?_cases {state : State} {b : UInt8} {part : Part}
    (h : state.delimits? b = some part) :
    (∃ closing, state = .inName closing ∧ part = .nameEnd closing) ∨
    (state = .inKey ∧ b = equals ∧ part = .keyEnd) ∨
    (state = .beforeValue ∧ isQuote b ∧ part = .valueStart) ∨
    (state = .inValue b ∧ part = .valueEnd) := by
  cases state <;> grind [State.delimits?]

namespace Watch

/-- What is remembered is what the draft says, if `past` bytes of the stream stand before it. -/
structure Remembers (watch : Watch) (draft : Draft) (past : Nat) : Prop where
  key : watch.key = draft.keyMemory past
  value : watch.value = draft.valueMemory past

/-- The watched scanner has read `past` and the draft of the stream and has `rest` of it
before it, and the draft's kept bytes stand behind `before` in the buffer. -/
structure Reads (watch : Watch) (buffer : Bytes) (draft : Draft) (past before rest : Bytes) :
    Prop where
  holds : watch.scanner.Holds draft before.length
  valid : draft.Valid
  layout : buffer = before ++ draft.kept ++ rest
  taken : watch.stream = past ++ draft.bytes ++ rest
  suffix : buffer <:+ watch.stream
  memory : watch.Remembers draft past.length

section
variable {watch : Watch} {buffer : Bytes} {draft : Draft} {past before rest : Bytes}

theorem Reads.place_eq (reads : watch.Reads buffer draft past before rest) (offset : Nat) :
    watch.place buffer (before.length + offset) = past.length + draft.bracket.length + offset := by
  have hbytes := congrArg List.length draft.bracket_append_kept
  have hbuffer := congrArg List.length reads.layout
  have hstream := congrArg List.length reads.taken
  have hle := reads.suffix.length_le
  simp only [List.length_append] at hbytes hbuffer hstream
  rw [place]
  omega

theorem Reads.offset_le {b : UInt8} (reads : watch.Reads buffer draft past before (b :: rest)) :
    (before ++ draft.kept).length ≤ buffer.length := by
  rw [reads.layout, @List.length_append _ _ (b :: rest)]
  exact Nat.le_add_right _ _

section
variable {letters : Bytes} {pieces : List Piece} {tail : Tail}

theorem Reads.place_reach
    (reads : watch.Reads buffer (.inTag letters pieces tail) past before rest) (offset : Nat) :
    watch.place buffer (Draft.reach before.length letters pieces + offset) =
      past.length + (opener false ++ letters ++ piecesBytes pieces).length + offset := by
  have hplace := reads.place_eq
    ((namespaceBytes ++ letters ++ piecesBytes pieces).length + offset)
  rw [← Nat.add_assoc, ← List.length_append, Draft.length_head] at hplace
  rw [hplace]
  simp only [Draft.bracket, opener, Bool.false_eq_true, if_false, List.length_append,
    List.length_cons, List.length_nil]
  omega

/-- Bytes of the last part stand in the buffer as far behind its start as in the part. -/
theorem Reads.range?_reach
    (reads : watch.Reads buffer (.inTag letters pieces tail) past before rest)
    (front part : Bytes) {back : Bytes} (h : tail.written ++ rest = front ++ part ++ back) :
    range? buffer (Draft.reach before.length letters pieces + front.length)
      (Draft.reach before.length letters pieces + front.length + part.length) = some part := by
  have hlayout : buffer =
      before ++ (namespaceBytes ++ letters ++ piecesBytes pieces) ++ front ++ part ++ back := by
    rw [reads.layout, List.append_assoc _ front, List.append_assoc _ _ back, ← h]
    simp only [Draft.kept, List.append_assoc]
  rw [hlayout, ← Draft.length_head, ← List.length_append, ← List.length_append]
  exact range?_middle _ part back

theorem Reads.slice?_key
    (reads : watch.Reads buffer (.inTag letters pieces tail) past before rest) {key back : Bytes}
    (h : tail.written ++ rest = key ++ back) :
    Span.slice? ⟨Draft.reach before.length letters pieces, key.length⟩ buffer = some key := by
  rw [Span.slice?_eq_range?]
  exact reads.range?_reach [] key h

end

/-- What is in the buffer is in the stream, at its place. -/
theorem range?_place {start stop : Nat} {bytes : Bytes} (hsuffix : buffer <:+ watch.stream)
    (h : range? buffer start stop = some bytes) :
    range? watch.stream (watch.place buffer start) (watch.place buffer stop) = some bytes := by
  obtain ⟨lost, hlost⟩ := hsuffix
  have hplace : ∀ offset, watch.place buffer offset = lost.length + offset := by
    intro offset
    rw [place, ← hlost, List.length_append, Nat.add_sub_cancel]
  rw [range?] at h
  split at h
  · rename_i hin
    cases h
    rw [hplace, hplace, ← hlost, range?, if_pos]
    · rw [List.take_length_add_append, List.drop_length_add_append]
    · rw [List.length_append]
      omega
  · cases h

/-! ## Noting -/

def noted? (buffer : Bytes) (offset : Nat) (b : UInt8) (watch : Watch) : Option Watch :=
  match watch.scanner.state.delimits? b with
  | none => some watch
  | some part => watch.note? buffer offset part

/-- What is noted under watch is what is noted without, and what is remembered is what the
draft says once the byte is behind it. -/
structure Notes (watch : Watch) (buffer : Bytes) (draft : Draft) (past : Nat) (offset : Nat)
    (b : UInt8) (noted : Watch) : Prop where
  run : watch.noted? buffer offset b = some noted
  scanner : watch.scanner.noted? buffer offset b = some noted.scanner
  stream : noted.stream = watch.stream
  memory : ∀ next, Leads draft.state b next → noted.Remembers (draft.stage b next) past

theorem notes_of_inner {b : UInt8} (reads : watch.Reads buffer draft past before (b :: rest))
    (hnone : draft.state.delimits? b = none) (offset : Nat) :
    Notes watch buffer draft past.length offset b watch where
  run := by rw [noted?, reads.holds.state, hnone]
  scanner := by rw [Scanner.noted?, reads.holds.state, hnone]
  stream := rfl
  memory next h := by
    obtain ⟨hkey, hvalue⟩ := Draft.memory_stage hnone h past.length
    exact ⟨reads.memory.key.trans hkey.symm, reads.memory.value.trans hvalue.symm⟩

/-- A part that is noted with the same outcome and remembered as the draft says. -/
theorem notes_of_part {b : UInt8} {part : Part} {offset : Nat} {noted : Watch}
    (reads : watch.Reads buffer draft past before (b :: rest))
    (hpart : draft.state.delimits? b = some part)
    (hnoted : watch.note? buffer offset part = some noted ∧
      watch.scanner.note? buffer offset part = some noted.scanner ∧ noted.stream = watch.stream)
    (hmemory : ∀ next, Leads draft.state b next →
      noted.Remembers (draft.stage b next) past.length) :
    Notes watch buffer draft past.length offset b noted where
  run := by
    rw [noted?, reads.holds.state, hpart]
    exact hnoted.1
  scanner := by rw [Scanner.noted?_of_part reads.holds.state hpart, hnoted.2.1]
  stream := hnoted.2.2
  memory := hmemory

/-- The name ends behind the mark and its bracket. -/
theorem exists_notes_nameEnd {closing : Bool} {letters : Bytes} {b : UInt8}
    (reads : watch.Reads buffer (.inName closing letters) past before (b :: rest))
    (hpart : (State.inName closing).delimits? b = some (.nameEnd closing)) :
    ∃ noted, Notes watch buffer (.inName closing letters) past.length
      (before ++ (Draft.inName closing letters).kept).length b noted := by
  have hmark : watch.scanner.cursors.mark = some before.length := by
    rw [reads.holds.cursors]
    rfl
  have hle : before.length + Scanner.bracketLength closing ≤
      (before ++ (Draft.inName closing letters).kept).length := by
    cases closing <;> simp [Scanner.bracketLength, Draft.kept, Draft.bytes, opener]
  have hin := reads.offset_le
  rw [← Span.stop_between hle] at hin
  obtain ⟨name, hname⟩ := Span.exists_trim? hin
  refine ⟨watch.withCursors { watch.scanner.cursors with
    mark := some (before ++ (Draft.inName closing letters).kept).length, name := some name },
    notes_of_part reads hpart ⟨?_, ?_, rfl⟩ ?_⟩
  · rw [note?]
    simp only [hmark, Option.bind_eq_bind, Option.bind_some, Span.ordered?_of_le hle,
      Span.trimmed?_eq_trim? hin, hname]
  · rw [Scanner.note?]
    simp only [hmark, Option.bind_eq_bind, Option.bind_some, hname]
    rfl
  · intro next h
    refine ⟨reads.memory.key.trans ?_, reads.memory.value.trans ?_⟩ <;> cases h <;> rfl

/-- If a key is noted, it is remembered with the bytes it is noted for. -/
theorem note?_keyEnd {offset mark : Nat} {after : Scanner} {key : Span} {bytes : Bytes}
    (hmark : watch.scanner.cursors.mark = some mark) (hle : mark ≤ offset)
    (hin : offset ≤ buffer.length)
    (hafter : watch.scanner.note? buffer offset .keyEnd = some after)
    (hkey : after.cursors.key = some key) (hslice : key.slice? buffer = some bytes) :
    watch.note? buffer offset .keyEnd = some { watch with
      scanner := after
      key := some ⟨watch.place buffer key.start, bytes⟩ } := by
  rw [← Span.stop_between hle] at hin
  obtain ⟨found, hfound⟩ := Span.exists_trim? hin
  rw [Scanner.note?, hmark] at hafter
  simp only [Option.bind_eq_bind, Option.bind_some, hfound, Option.some.injEq] at hafter
  subst hafter
  cases hkey
  rw [note?]
  simp only [hmark, Option.bind_eq_bind, Option.bind_some, Span.ordered?_of_le hle,
    Span.trimmed?_eq_trim? hin, hfound, hslice]
  rfl

/-- The `=` finds the key between the mark and itself. -/
theorem exists_notes_keyEnd {letters key : Bytes} {pieces : List Piece}
    (reads : watch.Reads buffer (.inTag letters pieces (.inKey key)) past before (equals :: rest)) :
    ∃ noted, Notes watch buffer (.inTag letters pieces (.inKey key)) past.length
      (before ++ (Draft.inTag letters pieces (.inKey key)).kept).length equals noted := by
  obtain ⟨-, hpieces, hkey, -⟩ := reads.valid
  obtain ⟨after, hafter⟩ := Scanner.notes_of_keyEnd reads.holds hpieces hkey rest
  have hnote := hafter.run
  rw [← reads.layout, Scanner.noted?_of_part reads.holds.state rfl] at hnote
  have hspan : after.cursors.key =
      some ⟨Draft.reach before.length letters pieces, key.length⟩ := by
    rw [hafter.cursors]
    rfl
  have hmark : watch.scanner.cursors.mark =
      some (Draft.nameStop before.length letters + (marked pieces).1.length) := by
    rw [reads.holds.cursors]
    rfl
  have hle : Draft.nameStop before.length letters + (marked pieces).1.length ≤
      (before ++ (Draft.inTag letters pieces (.inKey key)).kept).length := by
    have hmarked := congrArg List.length (marked_bytes pieces)
    rw [List.length_append] at hmarked
    rw [Draft.length_inTag, Draft.reach]
    omega
  have hwatched := note?_keyEnd hmark hle reads.offset_le hnote hspan (reads.slice?_key rfl)
  refine ⟨_, notes_of_part reads rfl ⟨hwatched, hnote, rfl⟩ fun next h => ?_⟩
  cases h with
  | keyByte h => exact absurd h (by decide)
  | keyEnd =>
    exact ⟨congrArg (fun place => some (Memory.mk place key)) (reads.place_reach 0),
      reads.memory.value⟩

/-- The opening quote leaves the span of the value on the mark, which is the `=`. -/
theorem exists_notes_valueStart {letters key gap : Bytes} {pieces : List Piece} {b : UInt8}
    (reads : watch.Reads buffer (.inTag letters pieces (.beforeValue key gap)) past before
      (b :: rest)) (hb : isQuote b) :
    ∃ noted, Notes watch buffer (.inTag letters pieces (.beforeValue key gap)) past.length
      (before ++ (Draft.inTag letters pieces (.beforeValue key gap)).kept).length b noted := by
  have hpart : State.beforeValue.delimits? b = some .valueStart := if_pos hb
  have hmark : watch.scanner.cursors.mark =
      some (Draft.reach before.length letters pieces + key.length) := by
    rw [reads.holds.cursors]
    rfl
  have hwritten : (Tail.beforeValue key gap).written ++ b :: rest =
      key ++ equals :: (gap ++ [b]) ++ rest := by simp [Tail.written]
  have hrange := reads.range?_reach key _ hwritten
  have hstop : (before ++ (Draft.inTag letters pieces (.beforeValue key gap)).kept).length + 1 =
      Draft.reach before.length letters pieces + key.length + (equals :: (gap ++ [b])).length := by
    rw [Draft.length_inTag]
    simp only [Tail.written, List.length_append, List.length_cons, List.length_nil]
    omega
  refine ⟨{ watch.withCursors { watch.scanner.cursors with
      value := some ⟨Draft.reach before.length letters pieces + key.length, 0⟩ } with
    value := some ⟨watch.place buffer (Draft.reach before.length letters pieces + key.length),
      equals :: (gap ++ [b])⟩ }, notes_of_part reads hpart ⟨?_, ?_, rfl⟩ ?_⟩
  · rw [note?]
    simp only [hmark, Option.bind_eq_bind, Option.bind_some, hstop, hrange]
  · rw [Scanner.note?]
    simp only [hmark, Option.bind_eq_bind, Option.bind_some]
    rfl
  · intro next h
    cases h with
    | valueSpace h => exact absurd hb (by grind [isSpace, isQuote])
    | valueStart h =>
      exact ⟨reads.memory.key,
        congrArg (fun place => some (Memory.mk place (equals :: (gap ++ [b]))))
          (reads.place_reach key.length)⟩

/-- If the key and the value are where they were set, both are found. -/
theorem exists_note?_valueEnd {offset : Nat} {keySpan valueSpan : Span} {key raw opening : Bytes}
    (hkey : watch.scanner.cursors.key = some keySpan)
    (hvalue : watch.scanner.cursors.value = some valueSpan)
    (hslice : keySpan.slice? buffer = some key) (hle : valueSpan.start ≤ offset)
    (hraw : range? buffer valueSpan.start offset = some raw)
    (hkeyMemory : watch.key = some ⟨watch.place buffer keySpan.start, key⟩)
    (hvalueMemory : watch.value = some ⟨watch.place buffer valueSpan.start, opening⟩)
    (hopening : opening <+: raw) :
    ∃ noted, watch.note? buffer offset .valueEnd = some noted ∧
      watch.scanner.note? buffer offset .valueEnd = some noted.scanner ∧
      noted.stream = watch.stream ∧ noted.key = none ∧ noted.value = none := by
  have hbetween : (Span.between valueSpan.start offset).slice? buffer = some raw := by
    rw [Span.slice?_eq_range?, Span.stop_between hle]
    exact hraw
  obtain ⟨trimmed, htrimmed, hbytes⟩ := Span.exists_trimmedValue? hbetween
  refine ⟨{ watch with
    scanner := { watch.scanner with
      cursors := { watch.scanner.cursors with key := none, value := none, mark := some offset }
      attributes := watch.scanner.attributes ++ [Attribute.ofBytes key (valueBytes raw)] }
    key := none
    value := none }, ?_, ?_, rfl, rfl, rfl⟩
  · rw [note?]
    simp only [hkey, hvalue, Option.bind_eq_bind, Option.bind_some, hslice, hbetween,
      Span.ordered?_of_le hle, htrimmed, hbytes, hvalueMemory, require_of hkeyMemory,
      true_and, require_of hopening]
    rfl
  · rw [Scanner.note?]
    simp only [hkey, hvalue, Option.bind_eq_bind, Option.bind_some, hslice, hbetween]

/-- The closing quote finds the key and the value, and both where they were set. -/
theorem exists_notes_valueEnd {letters key gap : Bytes} {pieces : List Piece} {quote : UInt8}
    {content : List EscapeUnit}
    (reads : watch.Reads buffer (.inTag letters pieces (.inValue key gap quote content)) past
      before (quote :: rest)) :
    ∃ noted, Notes watch buffer (.inTag letters pieces (.inValue key gap quote content)) past.length
      (before ++ (Draft.inTag letters pieces (.inValue key gap quote content)).kept).length quote
      noted := by
  have hpart : (State.inValue quote).delimits? quote = some .valueEnd := if_pos rfl
  have hquote : quote ≠ backslash := by
    rintro rfl
    exact absurd reads.valid.2.2.1.2.2.1 (by decide)
  have hwritten : (Tail.inValue key gap quote content).written =
      key ++ equals :: (gap ++ quote :: contentBytes content) := rfl
  have hkey : watch.scanner.cursors.key =
      some ⟨Draft.reach before.length letters pieces, key.length⟩ := by
    rw [reads.holds.cursors]
    rfl
  have hvalue : watch.scanner.cursors.value =
      some ⟨Draft.reach before.length letters pieces + key.length, 0⟩ := by
    rw [reads.holds.cursors]
    rfl
  have hbehind : (Tail.inValue key gap quote content).written ++ quote :: rest =
      key ++ equals :: (gap ++ quote :: contentBytes content) ++ quote :: rest := by rw [hwritten]
  have hslice := reads.slice?_key (hbehind.trans (List.append_assoc _ _ _))
  have hraw := reads.range?_reach key _ hbehind
  have hkeyMemory := reads.memory.key.trans
    (congrArg (fun place => some (Memory.mk place key)) (reads.place_reach 0).symm)
  have hvalueMemory := reads.memory.value.trans
    (congrArg (fun place => some (Memory.mk place (equals :: (gap ++ [quote]))))
      (reads.place_reach key.length).symm)
  rw [Draft.length_inTag, hwritten, List.length_append, ← Nat.add_assoc]
  obtain ⟨noted, hwatched, hscanner, hstream, hnokey, hnovalue⟩ :=
    exists_note?_valueEnd hkey hvalue hslice (Nat.le_add_right _ _) hraw hkeyMemory hvalueMemory
      ⟨contentBytes content, by simp⟩
  refine ⟨noted, notes_of_part reads hpart ⟨hwatched, hscanner, hstream⟩ fun next h => ?_⟩
  cases h with
  | backslash => exact absurd rfl hquote
  | valueByte hb hq => exact absurd rfl hq
  | valueEnd h => exact ⟨hnokey, hnovalue⟩

/-- Noting under watch goes through, whatever the byte is. -/
theorem exists_notes {b : UInt8} (reads : watch.Reads buffer draft past before (b :: rest)) :
    ∃ noted, Notes watch buffer draft past.length (before ++ draft.kept).length b noted := by
  cases hpart : draft.state.delimits? b with
  | none => exact ⟨watch, notes_of_inner reads hpart _⟩
  | some part =>
    obtain ⟨closing, hstate, rfl⟩ | ⟨hstate, rfl, rfl⟩ | ⟨hstate, hb, rfl⟩ | ⟨hstate, rfl⟩ :=
      State.delimits?_cases hpart
    · cases draft with
      | inName _ letters =>
        cases hstate
        exact exists_notes_nameEnd reads hpart
      | inTag letters pieces tail => cases tail <;> cases hstate
      | _ => cases hstate
    · cases draft with
      | inTag letters pieces tail =>
        cases tail <;> cases hstate
        exact exists_notes_keyEnd reads
      | _ => cases hstate
    · cases draft with
      | inTag letters pieces tail =>
        cases tail <;> cases hstate
        exact exists_notes_valueStart reads hb
      | _ => cases hstate
    · cases draft with
      | inTag letters pieces tail =>
        cases tail <;> cases hstate
        exact exists_notes_valueEnd reads
      | _ => cases hstate

end
end Watch
end Scan
end EdgeIncludes
