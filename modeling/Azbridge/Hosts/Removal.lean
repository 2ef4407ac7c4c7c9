import Azbridge.Hosts.Blocks

/-!
# What removing a block leaves

`removeBlock` passes over a text once. The places of the lines that it writes are tracked here, so
that each line of the result is the line of one place.
-/

namespace Azbridge.Hosts
open Lines Text

def BeginsAt (tag : List Char) (ls : List (List Char)) (i : Nat) : Prop :=
  ∃ line, ls[i]? = some line ∧ trimList line = beginMarker tag

def EndsAt (tag : List Char) (ls : List (List Char)) (i : Nat) : Prop :=
  ∃ line, ls[i]? = some line ∧ trimList line = endMarker tag

/-- Strictly between a begin marker and a later end marker. -/
def Enclosed (tag : List Char) (ls : List (List Char)) (i : Nat) : Prop :=
  ∃ a b, a < i ∧ i < b ∧ BeginsAt tag ls a ∧ EndsAt tag ls b

def isMarker (tag line : List Char) : Bool := trimList line = beginMarker tag || trimList line = endMarker tag

def restoredAt (tag : List Char) (ls : List (List Char)) (i : Nat) : List Char := restore tag (ls.getD i [])

/-- The places of the lines that are written, empty ones at the end too. -/
def places (tag : List Char) (inside : Bool) (ls : List (List Char)) : List Nat :=
  (List.range ls.length).filter fun i => !insideAfter tag inside (ls.take i) && !isMarker tag (ls.getD i [])

/-- Each line outside the tag's blocks is written at its turn, restored; only empty ones at the end are not. -/
structure DeletesOnlyBlocks (text tag : List Char) : Prop where
  ordered : (places tag false (lines text)).Pairwise (· < ·)
  result : removeBlock text tag =
    unlines (newlineOf text) (popEmpty ((places tag false (lines text)).map (restoredAt tag (lines text))))
  complete : ∀ i < (lines text).length, ¬ BeginsAt tag (lines text) i → ¬ EndsAt tag (lines text) i →
    ¬ Enclosed tag (lines text) i → i ∈ places tag false (lines text) ∨
      restoredAt tag (lines text) i = [] ∧
        ∀ j ∈ places tag false (lines text), i < j → restoredAt tag (lines text) j = []

/-- After a begin marker without a later end marker there is nothing but more of them and empty lines. -/
def Terminated (text tag : List Char) : Prop :=
  ∀ a, BeginsAt tag (lines text) a → (∃ b, a < b ∧ EndsAt tag (lines text) b) ∨
    ∀ i, a < i → i < (lines text).length → BeginsAt tag (lines text) i ∨ restoredAt tag (lines text) i = []

section Scanning
variable {tag : List Char} {inside : Bool} {ls : List (List Char)} {i : Nat}

theorem withoutBlock_places (ls : List (List Char)) :
    withoutBlock tag inside ls = (places tag inside ls).map (restoredAt tag ls) := by
  induction ls generalizing inside with
  | nil => rfl
  | cons line rest ih =>
    have later : (((List.range rest.length).map Nat.succ).filter fun i =>
        !insideAfter tag inside ((line :: rest).take i) && !isMarker tag ((line :: rest).getD i [])) =
        (places tag (insideNext tag inside line) rest).map Nat.succ := by
      rw [List.filter_map]
      rfl
    have shifted : (((places tag (insideNext tag inside line) rest).map Nat.succ).map (restoredAt tag (line :: rest))) =
        withoutBlock tag (insideNext tag inside line) rest := by
      rw [List.map_map, ih]
      rfl
    have first : places tag inside (line :: rest) =
        (if !inside && !isMarker tag line then [0] else []) ++
          (places tag (insideNext tag inside line) rest).map Nat.succ := by
      rw [← later]
      unfold places
      rw [List.length_cons, List.range_succ_eq_map, List.filter_cons]
      split <;> split <;> simp_all [insideAfter]
    rw [withoutBlock, first, List.map_append, shifted]
    unfold insideNext isMarker
    by_cases begins : trimList line = beginMarker tag
    · simp [begins]
    · by_cases ends : trimList line = endMarker tag
      · simp [ends, (beginMarker_ne_endMarker tag tag).symm]
      · cases inside <;> simp [begins, ends, restoredAt]

theorem mem_places : i ∈ places tag false ls ↔
    i < ls.length ∧ insideAfter tag false (ls.take i) = false ∧ ¬ BeginsAt tag ls i ∧ ¬ EndsAt tag ls i := by
  have marked (within : i < ls.length) : isMarker tag (ls.getD i []) = true ↔ BeginsAt tag ls i ∨ EndsAt tag ls i := by
    simp [isMarker, BeginsAt, EndsAt, within]
  unfold places
  rw [List.mem_filter, List.mem_range]
  constructor
  · rintro ⟨within, kept⟩
    rw [Bool.and_eq_true, Bool.not_eq_true', Bool.not_eq_true'] at kept
    have plain := mt (marked within).mpr (Bool.eq_false_iff.mp kept.2)
    exact ⟨within, kept.1, not_or.mp plain⟩
  · rintro ⟨within, outside, plain⟩
    have unmarked : isMarker tag (ls.getD i []) = false :=
      Bool.eq_false_iff.mpr (mt (marked within).mp (not_or.mpr plain))
    exact ⟨within, by rw [outside, unmarked]; rfl⟩

theorem insideAfter_iff (within : i ≤ ls.length) : insideAfter tag false (ls.take i) = true ↔
    ∃ a < i, BeginsAt tag ls a ∧ ∀ b, a < b → b < i → ¬ EndsAt tag ls b := by
  induction i with
  | zero => simp [insideAfter]
  | succ i ih =>
    have before := ih (by omega)
    have here : ls[i]? = some ls[i] := List.getElem?_eq_getElem within
    have step : insideAfter tag false (ls.take (i + 1)) = insideNext tag (insideAfter tag false (ls.take i)) ls[i] := by
      rw [List.take_add_one, here, insideAfter_append]
      rfl
    rw [step]
    by_cases begins : trimList ls[i] = beginMarker tag
    · rw [insideNext_begin begins]
      have opened : ∃ a < i + 1, BeginsAt tag ls a ∧ ∀ b, a < b → b < i + 1 → ¬ EndsAt tag ls b :=
        ⟨i, by omega, ⟨_, here, begins⟩, fun b after before => by omega⟩
      simpa using opened
    · have elsewhere : ¬ BeginsAt tag ls i := by
        rintro ⟨line, held, marker⟩
        rw [here] at held
        cases held
        exact begins marker
      by_cases ends : trimList ls[i] = endMarker tag
      · rw [insideNext_end ends]
        constructor
        · rintro ⟨⟩
        · rintro ⟨a, less, opened, open_⟩
          have other : a ≠ i := fun same => elsewhere (same ▸ opened)
          exact absurd ⟨_, here, ends⟩ (open_ i (by omega) (by omega))
      · have goesOn : ¬ EndsAt tag ls i := by
          rintro ⟨line, held, marker⟩
          rw [here] at held
          cases held
          exact ends marker
        have same : insideNext tag (insideAfter tag false (ls.take i)) ls[i] = insideAfter tag false (ls.take i) := by
          simp [insideNext, begins, ends]
        rw [same, before]
        constructor
        · rintro ⟨a, less, opened, open_⟩
          refine ⟨a, by omega, opened, fun b after before => ?_⟩
          by_cases last : b = i
          · exact last ▸ goesOn
          · exact open_ b after (by omega)
        · rintro ⟨a, less, opened, open_⟩
          have other : a ≠ i := fun same => elsewhere (same ▸ opened)
          exact ⟨a, by omega, opened, fun b after before => open_ b after (by omega)⟩

end Scanning

theorem deletes_only_blocks_iff (text tag : List Char) : DeletesOnlyBlocks text tag ↔ Terminated text tag := by
  constructor
  · intro spares a begins
    by_cases closed : ∃ b, a < b ∧ EndsAt tag (lines text) b
    · exact .inl closed
    · refine .inr fun i after within => ?_
      have open_ : ∀ b, a < b → ¬ EndsAt tag (lines text) b := fun b later ends => closed ⟨b, later, ends⟩
      by_cases again : BeginsAt tag (lines text) i
      · exact .inl again
      · have free : ¬ Enclosed tag (lines text) i := by
          rintro ⟨_, b, _, later, _, ends⟩
          exact open_ b (by omega) ends
        rcases spares.complete i within again (open_ i after) free with written | blank
        · have outside := (mem_places.mp written).2.1
          have inside := (insideAfter_iff (Nat.le_of_lt within)).mpr ⟨a, after, begins, fun b later _ => open_ b later⟩
          rw [outside] at inside
          cases inside
        · exact .inr blank.1
  · intro terminated
    refine ⟨(List.pairwise_lt_range).filter _, ?_, fun i within noBegin noEnd free => ?_⟩
    · rw [removeBlock_eq, withoutBlock_places]
    · cases state : insideAfter tag false ((lines text).take i) with
      | false => exact .inl (mem_places.mpr ⟨within, state, noBegin, noEnd⟩)
      | true =>
        obtain ⟨a, less, begins, open_⟩ := (insideAfter_iff (Nat.le_of_lt within)).mp state
        -- The block that is open here has no end: before the line none, and after it the line would be enclosed.
        have unclosed : ∀ b, a < b → ¬ EndsAt tag (lines text) b := by
          intro b after ends
          rcases Nat.lt_trichotomy b i with before | rfl | later
          · exact open_ b after before ends
          · exact noEnd ends
          · exact free ⟨a, b, less, later, begins, ends⟩
        rcases terminated a begins with ⟨b, after, ends⟩ | nothing
        · exact absurd ends (unclosed b after)
        · refine .inr ⟨(nothing i less within).resolve_left noBegin, fun j written later => ?_⟩
          obtain ⟨there, outside, _⟩ := mem_places.mp written
          have inside := (insideAfter_iff (Nat.le_of_lt there)).mpr
            ⟨a, by omega, begins, fun b after _ => unclosed b after⟩
          rw [outside] at inside
          cases inside

def danglingText : List Char := "127.0.0.1 localhost\n# >>> azbridge client >>>\n10.0.0.1 db\n".toList

theorem unterminated_marker_deletes_rest :
    removeBlock danglingText localTag = "127.0.0.1 localhost\n".toList ∧ ¬ DeletesOnlyBlocks danglingText localTag := by
  refine ⟨by decide +kernel, fun spares => ?_⟩
  have read : lines danglingText =
      ["127.0.0.1 localhost".toList, "# >>> azbridge client >>>".toList, "10.0.0.1 db".toList] := by decide +kernel
  have written : places localTag false (lines danglingText) = [0] := by decide +kernel
  have plain : ∀ line, (lines danglingText)[2]? = some line → line = "10.0.0.1 db".toList := by
    intro line held
    rw [read] at held
    exact (Option.some.inj held).symm
  have noBegin : ¬ BeginsAt localTag (lines danglingText) 2 := by
    rintro ⟨line, held, marker⟩
    rw [plain line held] at marker
    exact absurd marker (by decide +kernel)
  have noEnd : ¬ EndsAt localTag (lines danglingText) 2 := by
    rintro ⟨line, held, marker⟩
    rw [plain line held] at marker
    exact absurd marker (by decide +kernel)
  have free : ¬ Enclosed localTag (lines danglingText) 2 := by
    rintro ⟨_, b, _, after, _, line, held, _⟩
    obtain ⟨within, _⟩ := List.getElem?_eq_some_iff.mp held
    rw [read] at within
    have short : b < 3 := within
    omega
  rcases spares.complete 2 (by rw [read]; decide) noBegin noEnd free with here | ⟨blank, _⟩
  · rw [written] at here
    cases here with
    | tail _ later => cases later
  · exact absurd blank (by decide +kernel)

end Azbridge.Hosts
