/-
The search is a shortcut.

Outside of tags a chunk is searched first, and what comes before the first place where a tag could
start is let out unread.  Here is the scanner without the search (`feedClosely?`): it reads the
chunk from its first byte on, and on the way it begins drafts that come to nothing.  Both end with
the same draft in hand, and what a scanner keeps between two chunks is all said by its draft
(`Ready.eq_of_previous`).  The one thing that is not is the state before the last byte that was
read closely, because the two do not read the same bytes closely.

The search itself is exact in a sense that does not mention the scanner: it finds the least
offset at which a tag could start (`tagStart?_eq_some_iff`).
-/
import EdgeIncludes.Proofs.Scan.Chunking
import Mathlib.Data.Nat.Find

namespace EdgeIncludes
namespace Markup

open Ascii

/-! ## Where a tag could start -/

/-- At the offset there is a `<`, and from there on the bytes begin with an opener, or they are
the beginning of one and there are no more. -/
def StartsAt (bytes : Bytes) (offset : Nat) : Prop :=
  bytes[offset]? = some lessThan ∧
    ∃ opener ∈ [startOpener, endOpener],
      opener <+: bytes.drop offset ∨ bytes.drop offset <+: opener

theorem startsAt_zero_iff {b : UInt8} {rest : Bytes} :
    StartsAt (b :: rest) 0 ↔ mayOpen (b :: rest) := by
  have hopeners : (∃ opener ∈ [startOpener, endOpener],
      opener <+: b :: rest ∨ b :: rest <+: opener) ↔ mayOpen (b :: rest) := by
    simp only [mayOpen, comparable, Bool.or_eq_true, List.isPrefixOf_iff_prefix, List.mem_cons,
      List.not_mem_nil, or_false, exists_eq_or_imp, exists_eq_left]
  rw [StartsAt, List.drop_zero, hopeners]
  constructor
  · exact And.right
  · intro hopen
    obtain rfl := eq_lessThan_of_mayOpen hopen
    exact ⟨rfl, hopen⟩

theorem startsAt_succ_iff {b : UInt8} {rest : Bytes} {offset : Nat} :
    StartsAt (b :: rest) (offset + 1) ↔ StartsAt rest offset := by
  rw [StartsAt, StartsAt, List.getElem?_cons_succ, List.drop_succ_cons]

theorem tagStart?_cons (b : UInt8) (rest : Bytes) :
    tagStart? (b :: rest) =
      if mayOpen (b :: rest) then some 0 else (tagStart? rest).map (· + 1) := by
  rw [tagStart?, tagStartFrom?, tagStartFrom?_eq, Nat.zero_add]

/-- The search finds the least offset at which a tag could start. -/
theorem tagStart?_eq_some_iff {bytes : Bytes} {offset : Nat} :
    tagStart? bytes = some offset ↔
      StartsAt bytes offset ∧ ∀ earlier < offset, ¬ StartsAt bytes earlier := by
  induction bytes generalizing offset with
  | nil =>
    refine iff_of_false (by simp [tagStart?, tagStartFrom?]) ?_
    rintro ⟨⟨hbyte, -⟩, -⟩
    simp at hbyte
  | cons b rest ih =>
    rw [tagStart?_cons]
    by_cases hopen : mayOpen (b :: rest)
    · rw [if_pos hopen, Option.some_inj]
      have hstart := startsAt_zero_iff.mpr hopen
      constructor
      · rintro rfl
        exact ⟨hstart, fun earlier h => absurd h (Nat.not_lt_zero earlier)⟩
      · rintro ⟨-, hleast⟩
        rcases Nat.eq_zero_or_pos offset with hzero | hpos
        · exact hzero.symm
        · exact absurd hstart (hleast 0 hpos)
    · rw [if_neg hopen, Option.map_eq_some_iff]
      have hstart := mt startsAt_zero_iff.mp hopen
      constructor
      · rintro ⟨found, hfound, rfl⟩
        obtain ⟨hfound, hleast⟩ := ih.mp hfound
        refine ⟨startsAt_succ_iff.mpr hfound, ?_⟩
        intro earlier hearlier
        cases earlier with
        | zero => exact hstart
        | succ earlier => exact mt startsAt_succ_iff.mp (hleast earlier (by omega))
      · rintro ⟨hfound, hleast⟩
        cases offset with
        | zero => exact absurd hfound hstart
        | succ found =>
          refine ⟨found, ih.mpr ⟨startsAt_succ_iff.mp hfound, ?_⟩, rfl⟩
          intro earlier hearlier
          exact mt startsAt_succ_iff.mpr (hleast (earlier + 1) (by omega))

/-- The search finds nothing just if a tag could start nowhere. -/
theorem tagStart?_eq_none_iff {bytes : Bytes} :
    tagStart? bytes = none ↔ ∀ offset, ¬ StartsAt bytes offset := by
  constructor
  · intro hnone offset hstart
    classical
    have hexists : ∃ offset, StartsAt bytes offset := ⟨offset, hstart⟩
    have hfound : tagStart? bytes = some (Nat.find hexists) :=
      tagStart?_eq_some_iff.mpr ⟨Nat.find_spec hexists, fun _ h => Nat.find_min hexists h⟩
    rw [hnone] at hfound
    cases hfound
  · intro hnone
    rw [Option.eq_none_iff_forall_ne_some]
    intro offset hfound
    exact hnone offset (tagStart?_eq_some_iff.mp hfound).1

end Markup

namespace Scan
namespace Scanner

open Markup Event

/-! ## Reading without a search -/

/-- Take the next chunk without a search, outside of tags: read it from its first byte on, and keep
at its end what is still needed. -/
def feedClosely? (scanner : Scanner) (chunk : Bytes) : Option (Scanner × List Event) := do
  let (after, events) ← scanner.scan? chunk 0 chunk
  let kept ← after.retain? chunk
  some (kept, coalesce events)

theorem feedClosely?_ready {scanner : Scanner} (ready : scanner.Ready .text) (chunk : Bytes) :
    ∃ after,
      scanner.feedClosely? chunk =
        some (after, coalesce (tokensEvents (Draft.text.run chunk).2)) ∧
      after.Ready (Draft.text.run chunk).1 := by
  have held : scanner.Holds .text ([] : Bytes).length := ready.holds
  obtain ⟨after, kept, hscan, hretain, hkept⟩ := scan?_retain? held trivial chunk
  have hbuffer : [] ++ Draft.text.kept ++ chunk = chunk := rfl
  have hoffset : ([] ++ Draft.text.kept : Bytes).length = 0 := rfl
  rw [hbuffer, hoffset] at hscan
  rw [hbuffer] at hretain
  refine ⟨kept, ?_, hkept⟩
  simp only [feedClosely?, hscan, hretain, Option.bind_eq_bind, Option.bind_some]

/-- Between two calls the draft in hand says all that is kept, but for the previous state. -/
theorem Ready.eq_of_previous {scanner other : Scanner} {draft : Draft}
    (ready : scanner.Ready draft) (hother : other.Ready draft) :
    { scanner with previous := other.previous } = other := by
  have hstate : scanner.state = other.state := ready.holds.state.trans hother.holds.state.symm
  have hbytes : scanner.staging.bytes = other.staging.bytes :=
    Array.toList_inj.mp (ready.holds.staging.trans hother.holds.staging.symm)
  have hcarry : scanner.carry = other.carry := ready.carry.trans hother.carry.symm
  have hcursors : scanner.cursors = other.cursors :=
    ready.holds.cursors.trans hother.holds.cursors.symm
  have hattributes : scanner.attributes = other.attributes :=
    ready.holds.attributes.trans hother.holds.attributes.symm
  have hstaging : scanner.staging = other.staging := by
    cases hfirst : scanner.staging with
    | mk bytes =>
      cases hsecond : other.staging with
      | mk others =>
        rw [hfirst, hsecond] at hbytes
        exact congrArg Staging.mk hbytes
  rw [hstate, hstaging, hcarry, hcursors, hattributes]

/-- The search finds the least offset at which a tag could start, and nothing just if there is
none.  After any calls that leave a new scanner outside of tags, the chunk that is searched first
comes to what it comes to when it is read from its first byte on: the events are the same, and so
are the state, the staged bytes, the attributes, the carried bytes and the offsets into them. -/
theorem feed?_agrees_feedClosely? (calls : List Call) (chunk : Bytes) :
    (∀ offset, tagStart? chunk = some offset ↔
        StartsAt chunk offset ∧ ∀ earlier < offset, ¬ StartsAt chunk earlier) ∧
      (tagStart? chunk = none ↔ ∀ offset, ¬ StartsAt chunk offset) ∧
      ∃ scanner told, fresh.run? calls = some (scanner, told) ∧
        (scanner.state = .text →
          ∃ searched closely events,
            scanner.feed? chunk = some (searched, events) ∧
            scanner.feedClosely? chunk = some (closely, events) ∧
            searched.state = closely.state ∧ searched.staging = closely.staging ∧
            searched.attributes = closely.attributes ∧ searched.carry = closely.carry ∧
            searched.cursors = closely.cursors) := by
  refine ⟨fun offset => tagStart?_eq_some_iff, tagStart?_eq_none_iff, ?_⟩
  obtain ⟨scanner, told, hrun, -, hready⟩ := run?_ready fresh_ready calls
  refine ⟨scanner, told, hrun, ?_⟩
  intro hstate
  have htext : (Draft.text.calls calls).1 = .text :=
    Draft.state_eq_text_iff.mp (hready.holds.state.symm.trans hstate)
  rw [htext] at hready
  obtain ⟨searched, hsearched, hfirst⟩ := feed?_text hready chunk
  obtain ⟨closely, hclosely, hsecond⟩ := feedClosely?_ready hready chunk
  have hsame := hfirst.eq_of_previous hsecond
  refine ⟨searched, closely, _, hsearched, hclosely, ?_⟩
  rw [← hsame]
  exact ⟨rfl, rfl, rfl, rfl, rfl⟩

/-- `<<e</es<em></esi:a`: on the way to the tag the automaton begins four others.  The search goes
past them, and both have the same tag in hand, its name not yet ended. -/
theorem feed?_agrees_feedClosely?_of_lookalikes :
    let chunk : Bytes := [0x3C, 0x3C, 0x65, 0x3C, 0x2F, 0x65, 0x73, 0x3C, 0x65, 0x6D, 0x3E, 0x3C,
      0x2F, 0x65, 0x73, 0x69, 0x3A, 0x61]
    tagStart? chunk = some 11 ∧
      ∃ searched closely events,
        fresh.feed? chunk = some (searched, events) ∧
        fresh.feedClosely? chunk = some (closely, events) ∧
        searched.state = closely.state ∧ searched.staging = closely.staging ∧
        searched.attributes = closely.attributes ∧ searched.carry = closely.carry ∧
        searched.cursors = closely.cursors := by
  intro chunk
  obtain ⟨-, -, scanner, told, hrun, hagree⟩ := feed?_agrees_feedClosely? [] chunk
  cases hrun
  exact ⟨by decide, hagree rfl⟩

end Scanner
end Scan
end EdgeIncludes
