import Azbridge.Hosts.RoundTrip

/-!
# Blocks of a hosts file

A block is the lines from a begin marker up to the end marker of the same tag. In a well formed file
every block is terminated and none begins inside another.
-/

namespace Azbridge.Hosts
open Lines Text

/-- Whether a block of the tag is open after the line. -/
def insideNext (tag : List Char) (inside : Bool) (line : List Char) : Bool :=
  if trimList line = beginMarker tag then true
  else if trimList line = endMarker tag then false
  else inside

def insideAfter (tag : List Char) (inside : Bool) (ls : List (List Char)) : Bool := ls.foldl (insideNext tag) inside

/-- The lines of the tag's blocks: each begin marker and the lines up to the end marker. -/
def inBlocks (tag : List Char) : Bool → List (List Char) → List (List Char)
  | _, [] => []
  | inside, line :: rest =>
    if insideNext tag inside line then line :: inBlocks tag true rest else inBlocks tag false rest

def outsideBlocks (tag : List Char) : Bool → List (List Char) → List (List Char)
  | _, [] => []
  | inside, line :: rest =>
    if insideNext tag inside line then outsideBlocks tag true rest
    else if trimList line = endMarker tag then outsideBlocks tag false rest
    else line :: outsideBlocks tag false rest

/-- The tag whose block begins at the line. -/
def opening (line : List Char) : Option (List Char) :=
  let trimmed := trimList line
  let tag := (trimmed.drop 15).take (trimmed.length - 19)
  if validateTag tag = true ∧ trimmed = beginMarker tag then some tag else none

def nextBlock (state : Option (List Char)) (line : List Char) : Option (List Char) :=
  match state with
  | none => opening line
  | some tag => if trimList line = endMarker tag then none else some tag

/-- The block that is open goes on, or ends, and no other begins meanwhile. -/
def goesOn (state : Option (List Char)) (line : List Char) : Bool :=
  match state with
  | none => true
  | some tag => trimList line = endMarker tag || (opening line).isNone

def wellFormed : Option (List Char) → List (List Char) → Bool
  | state, [] => state.isNone
  | state, line :: rest => goesOn state line && wellFormed (nextBlock state line) rest

/-! ### Lines of one tag -/

section Scanning
variable {tag : List Char} {inside : Bool}

theorem insideNext_begin {line : List Char} (h : trimList line = beginMarker tag) : insideNext tag inside line = true := by
  simp [insideNext, h]

theorem insideNext_end {line : List Char} (h : trimList line = endMarker tag) : insideNext tag inside line = false := by
  have different := (beginMarker_ne_endMarker tag tag).symm
  simp [insideNext, h, different]

theorem inBlocks_append (ls ls' : List (List Char)) :
    inBlocks tag inside (ls ++ ls') = inBlocks tag inside ls ++ inBlocks tag (insideAfter tag inside ls) ls' := by
  induction ls generalizing inside with
  | nil => rfl
  | cons line rest ih =>
    unfold insideAfter at ih ⊢
    simp only [List.cons_append, inBlocks, List.foldl_cons]
    split
    · next opened => rw [opened, ih, List.cons_append]
    · next other => rw [Bool.not_eq_true] at other; rw [other, ih]

theorem mem_inBlocks {line : List Char} {ls : List (List Char)} : line ∈ inBlocks tag inside ls ↔
    ∃ before after, ls = before ++ line :: after ∧ insideNext tag (insideAfter tag inside before) line = true := by
  constructor
  · intro member
    induction ls generalizing inside with
    | nil => cases member
    | cons l rest ih =>
      have later : ∀ {open_}, insideNext tag inside l = open_ → line ∈ inBlocks tag open_ rest → ∃ before after,
          l :: rest = before ++ line :: after ∧ insideNext tag (insideAfter tag inside before) line = true := by
        rintro _ rfl tail
        obtain ⟨before, after, same, opened⟩ := ih tail
        exact ⟨l :: before, after, by rw [same]; rfl, opened⟩
      rw [inBlocks] at member
      split at member
      · next opened =>
        rcases List.mem_cons.mp member with rfl | tail
        · exact ⟨[], rest, rfl, opened⟩
        · exact later opened tail
      · next other => exact later (Bool.eq_false_iff.mpr other) member
  · rintro ⟨before, after, rfl, opened⟩
    rw [inBlocks_append, inBlocks, if_pos opened]
    exact List.mem_append_right _ (.head _)

theorem inBlocks_eq_nil {tag : List Char} {ls : List (List Char)} (none_ : ∀ line ∈ ls, trimList line ≠ beginMarker tag) :
    inBlocks tag false ls = [] := by
  induction ls with
  | nil => rfl
  | cons line rest ih =>
    have tail := ih fun l member => none_ l (.tail _ member)
    simpa [inBlocks, insideNext, none_ line (.head _)] using tail

theorem insideAfter_append (ls ls' : List (List Char)) :
    insideAfter tag inside (ls ++ ls') = insideAfter tag (insideAfter tag inside ls) ls' := List.foldl_append

theorem withoutBlock_eq (ls : List (List Char)) :
    withoutBlock tag inside ls = (outsideBlocks tag inside ls).map (restore tag) := by
  induction ls generalizing inside with
  | nil => rfl
  | cons line rest ih =>
    have different := beginMarker_ne_endMarker tag tag
    unfold withoutBlock outsideBlocks insideNext
    dsimp only
    by_cases begins : trimList line = beginMarker tag
    · simp [begins, ih]
    · by_cases ends : trimList line = endMarker tag
      · simp [ends, different.symm, ih]
      · cases inside <;> simp [begins, ends, ih]

theorem outsideBlocks_subset (ls : List (List Char)) : outsideBlocks tag inside ls ⊆ ls := by
  induction ls generalizing inside with
  | nil => exact List.Subset.refl _
  | cons line rest ih =>
    rw [outsideBlocks]
    split
    · exact List.subset_cons_of_subset _ ih
    · split
      · exact List.subset_cons_of_subset _ ih
      · exact List.cons_subset_cons _ ih

theorem not_begin_of_outside {ls : List (List Char)} {line : List Char} (h : line ∈ outsideBlocks tag inside ls) :
    trimList line ≠ beginMarker tag := by
  induction ls generalizing inside with
  | nil => cases h
  | cons l rest ih =>
    rw [outsideBlocks] at h
    split at h
    · exact ih h
    · next closed =>
      split at h
      · exact ih h
      · rcases List.mem_cons.mp h with rfl | later
        · exact fun begins => closed (insideNext_begin begins)
        · exact ih later

theorem readEntries_eq (ls : List (List Char)) (entries : Existing) :
    readEntries tag inside ls entries =
      ((inBlocks tag inside ls).filter fun line => trimList line ≠ beginMarker tag).foldl
        (fun (es : Existing) line => addEntry es (trimList line)) entries := by
  induction ls generalizing inside entries with
  | nil => rfl
  | cons line rest ih =>
    have different := beginMarker_ne_endMarker tag tag
    unfold readEntries inBlocks insideNext
    dsimp only
    by_cases begins : trimList line = beginMarker tag
    · simp [begins, ih]
    · by_cases ends : trimList line = endMarker tag
      · simp [ends, different.symm, ih]
      · cases inside <;> simp [begins, ends, ih]

theorem existingEntries_eq {text text' : List Char} (h : inBlocks tag false (lines text') = inBlocks tag false (lines text)) :
    existingEntries text' tag = existingEntries text tag := by
  rw [existingEntries, existingEntries, readEntries_eq, readEntries_eq, h]

/-- The lines are changed, but not the markers of the tag among them. -/
def KeepsMarkers (tag : List Char) (change : List Char → List Char) : Prop :=
  ∀ line, (trimList (change line) = beginMarker tag ↔ trimList line = beginMarker tag) ∧
    (trimList (change line) = endMarker tag ↔ trimList line = endMarker tag)

variable {change : List Char → List Char}

theorem KeepsMarkers.insideNext (h : KeepsMarkers tag change) (line : List Char) :
    insideNext tag inside (change line) = insideNext tag inside line := by
  simp only [Hosts.insideNext, h line]

theorem KeepsMarkers.inBlocks (h : KeepsMarkers tag change) (ls : List (List Char)) :
    inBlocks tag inside (ls.map change) = (inBlocks tag inside ls).map change := by
  induction ls generalizing inside with
  | nil => rfl
  | cons line rest ih =>
    rw [List.map_cons, Hosts.inBlocks, Hosts.inBlocks, h.insideNext, ih, ih]
    split <;> rfl

theorem KeepsMarkers.insideAfter (h : KeepsMarkers tag change) (ls : List (List Char)) :
    insideAfter tag inside (ls.map change) = insideAfter tag inside ls := by
  induction ls generalizing inside with
  | nil => rfl
  | cons line rest ih =>
    unfold Hosts.insideAfter at ih ⊢
    rw [List.map_cons, List.foldl_cons, List.foldl_cons, h.insideNext, ih]

theorem keepsMarkers_settle (tag newline : List Char) : KeepsMarkers tag (settle newline) := by
  intro line
  simp [trimList_settle]

end Scanning

theorem opening_eq_some {line tag : List Char} :
    opening line = some tag ↔ validateTag tag = true ∧ trimList line = beginMarker tag := by
  have named : ∀ t, trimList line = beginMarker t → ((trimList line).drop 15).take ((trimList line).length - 19) = t := by
    intro t same
    have size : (beginMarker t).length - 19 = t.length := by simp [beginMarker, azbridge]
    have start : (beginMarker t).drop 15 = t ++ [' ', '>', '>', '>'] := by simp [beginMarker, azbridge]
    rw [same, size, start, List.take_left]
  simp only [opening]
  constructor
  · intro h
    split at h
    · next found => exact Option.some.inj h ▸ found
    · cases h
  · rintro ⟨valid, same⟩
    rw [named tag same, if_pos ⟨valid, same⟩]

/-- The scan for one tag follows the scan for all of them. -/
theorem insideNext_state {state : Option (List Char)} {line tag : List Char} (valid : validateTag tag = true)
    (step : goesOn state line = true) : insideNext tag (state = some tag) line = decide (nextBlock state line = some tag) := by
  have different := beginMarker_ne_endMarker
  cases state with
  | none =>
    simp only [nextBlock, insideNext, opening_eq_some, valid, true_and]
    split <;> simp_all
  | some other =>
    simp only [goesOn, Bool.or_eq_true, decide_eq_true_eq, Option.isNone_iff_eq_none] at step
    simp only [nextBlock, insideNext, Option.some.injEq]
    by_cases ended : trimList line = endMarker other
    · have unopened : endMarker other ≠ beginMarker tag := (different tag other).symm
      by_cases same : other = tag
      · simp [ended, same, (different tag tag).symm]
      · simp [ended, same, unopened]
    · have unopened : trimList line ≠ beginMarker tag := by
        intro begins
        have found := opening_eq_some.mpr ⟨valid, begins⟩
        rw [step.resolve_left ended] at found
        cases found
      by_cases same : other = tag
      · subst same
        simp [unopened, ended]
      · simp [unopened, ended, same]

/-! ### Markers among other lines -/

theorem words_comment {line rest : List Char} (h : trimList line = '#' :: rest) :
    splitWhitespace (line.takeWhile (· != '#')) = [] := by
  have blank : ∃ before after, line = before ++ '#' :: after ∧ ∀ c ∈ before, isWhitespace c = true := by
    have cut : ∀ cs : List Char, (cs.reverse.dropWhile isWhitespace).reverse = '#' :: rest → ∃ after, cs = '#' :: after := by
      intro cs same
      cases cs with
      | nil => cases same
      | cons c cs =>
        obtain ⟨tail, back⟩ := List.dropWhile_suffix (l := (c :: cs).reverse) isWhitespace
        have front := congrArg List.reverse back
        rw [List.reverse_append, same, List.reverse_reverse] at front
        simp only [List.cons_append, List.cons.injEq] at front
        exact ⟨cs, by rw [front.1]⟩
    obtain ⟨after, same⟩ := cut _ h
    refine ⟨line.takeWhile isWhitespace, after, ?_, fun c member => ?_⟩
    · rw [← same, List.takeWhile_append_dropWhile]
    · exact List.all_eq_true.mp List.all_takeWhile c member
  obtain ⟨before, after, rfl, blank⟩ := blank
  have other : ∀ c ∈ before, (c != '#') = true := by
    intro c member
    have space := blank c member
    simp only [bne_iff_ne, ne_eq]
    rintro rfl
    cases space
  have words : splitWhitespace before = [] := by
    clear other h
    unfold splitWhitespace
    induction before with
    | nil => rfl
    | cons c cs ih =>
      have tail := ih fun d member => blank d (.tail _ member)
      rw [List.splitOnP_cons_eq_if_modifyHead, if_pos (blank c (.head _))]
      simpa using tail
  simpa [List.takeWhile_append_of_pos other] using words

theorem words_marker {tag line : List Char} (h : trimList line = beginMarker tag ∨ trimList line = endMarker tag) :
    splitWhitespace (line.takeWhile (· != '#')) = [] := by
  rcases h with begins | ends
  · obtain ⟨rest, same⟩ := beginMarker_eq tag
    exact words_comment (begins.trans same)
  · obtain ⟨rest, same⟩ := endMarker_eq tag
    exact words_comment (ends.trans same)

theorem words_disabled (tag rest : List Char) :
    splitWhitespace ((disabledMarker tag ++ rest).takeWhile (· != '#')) = [] := by
  obtain ⟨start, same⟩ := disabledMarker_eq tag
  simp [same, splitWhitespace]

theorem mapsAny_marker {tag line : List Char} {names : List (List Char)}
    (h : trimList line = beginMarker tag ∨ trimList line = endMarker tag) : mapsAny names line = false := by
  simp [mapsAny, mappedNames, words_marker h]

theorem mapsAny_disabled (tag rest : List Char) (names : List (List Char)) : mapsAny names (disabledMarker tag ++ rest) = false := by
  simp [mapsAny, mappedNames, words_disabled]

theorem keepsMarkers_disable (tag other : List Char) (names : List (List Char)) :
    KeepsMarkers other (disable tag names) := by
  intro line
  unfold disable
  split
  · next maps =>
    have marked := disabled_ne_marker tag other line
    have plain : ¬ (trimList line = beginMarker other ∨ trimList line = endMarker other) := fun h => by
      rw [mapsAny_marker h] at maps
      cases maps
    simp only [marked, false_iff]
    exact ⟨fun h => plain (.inl h), fun h => plain (.inr h)⟩
  · simp

theorem restore_marker {tag other line : List Char}
    (h : trimList line = beginMarker other ∨ trimList line = endMarker other) : restore tag line = line := by
  refine restore_other fun disabled => ?_
  obtain ⟨rest, rfl⟩ := disabled
  have marked := disabled_ne_marker tag other rest
  exact h.elim marked.1 marked.2

/-! ### Blank lines and line endings -/

theorem trimList_nil_ne (tag : List Char) : trimList [] ≠ beginMarker tag ∧ trimList [] ≠ endMarker tag := by
  simp [trimList, beginMarker, endMarker]

/-- Blank lines at the end are in no block, unless one is still open. -/
theorem inBlocks_blank {tag : List Char} {inside : Bool} {ls blanks : List (List Char)} (blank : ∀ line ∈ blanks, line = [])
    (closed : insideAfter tag inside (ls ++ blanks) = false) :
    inBlocks tag inside ls = inBlocks tag inside (ls ++ blanks) ∧ insideAfter tag inside ls = false := by
  rw [insideAfter_append] at closed
  have same : ∀ open_, insideAfter tag open_ blanks = open_ := by
    intro open_
    clear closed
    induction blanks with
    | nil => rfl
    | cons line rest ih =>
      obtain rfl := blank line (.head _)
      have tail := ih fun l member => blank l (.tail _ member)
      simpa [insideAfter, insideNext, trimList_nil_ne] using tail
  rw [same] at closed
  have none_ : inBlocks tag false blanks = [] := by
    clear closed same
    induction blanks with
    | nil => rfl
    | cons line rest ih =>
      obtain rfl := blank line (.head _)
      have tail := ih fun l member => blank l (.tail _ member)
      simpa [inBlocks, insideNext, trimList_nil_ne] using tail
  exact ⟨by rw [inBlocks_append, closed, none_, List.append_nil], closed⟩

theorem popEmpty_blank (ls : List (List Char)) : ∃ blanks, (∀ line ∈ blanks, line = []) ∧ ls = popEmpty ls ++ blanks := by
  refine ⟨(ls.reverse.takeWhile List.isEmpty).reverse, fun line member => ?_, ?_⟩
  · exact List.isEmpty_iff.mp (List.all_eq_true.mp List.all_takeWhile line (List.mem_reverse.mp member))
  · rw [popEmpty, ← List.reverse_append, List.takeWhile_append_dropWhile, List.reverse_reverse]

theorem dropEmptyLast_blank (ls : List (List Char)) :
    ∃ blanks, (∀ line ∈ blanks, line = []) ∧ ls = dropEmptyLast ls ++ blanks := by
  unfold dropEmptyLast
  split
  · next last =>
    obtain ⟨before, rfl⟩ := List.getLast?_eq_some_iff.mp last
    exact ⟨[[]], by simp, by simp⟩
  · exact ⟨[], nofun, by simp⟩

theorem insideAfter_wellFormed {state : Option (List Char)} {ls : List (List Char)} {tag : List Char}
    (valid : validateTag tag = true) (formed : wellFormed state ls = true) : insideAfter tag (state = some tag) ls = false := by
  induction ls generalizing state with
  | nil =>
    rw [wellFormed, Option.isNone_iff_eq_none] at formed
    simp [formed, insideAfter]
  | cons line rest ih =>
    rw [wellFormed, Bool.and_eq_true] at formed
    have tail := ih formed.2
    rw [insideAfter, List.foldl_cons, insideNext_state valid formed.1]
    exact tail

theorem closed_of_wellFormed {ls : List (List Char)} {tag : List Char} (valid : validateTag tag = true)
    (formed : wellFormed none ls = true) : insideAfter tag false ls = false := insideAfter_wellFormed valid formed

theorem length_settle (newline line : List Char) : (settle newline line).length ≤ line.length := by
  unfold settle chomp
  split
  · exact Nat.le_refl _
  · split
    · simp
    · exact Nat.le_refl _

theorem settle_inBlocks {text tag : List Char} (closed : insideAfter tag false (lines text) = false) :
    ∀ line ∈ inBlocks tag false (lines text), settle (newlineOf text) line = line := by
  intro line member
  rcases newlineOf_cases text with ⟨-, same⟩ | ⟨plain, same⟩
  · rw [same, settle_crlf]
    rfl
  · rw [same, settle_lf]
    rcases List.eq_nil_or_concat (lines text) with none_ | ⟨before, last, split⟩
    · rw [none_] at member
      cases member
    · rw [List.concat_eq_append] at split
      rw [split, insideAfter_append, insideAfter, List.foldl_cons, List.foldl_nil] at closed
      rw [split, inBlocks_append, List.mem_append, inBlocks, if_neg (Bool.eq_false_iff.mp closed)] at member
      rcases member with inner | impossible
      · obtain ⟨front, back, rfl, -⟩ := mem_inBlocks.mp inner
        exact chomp_of_getLast (getLast_of_not_crlf plain split line (by simp))
      · cases impossible

/-! ### Blocks of other tags when one is removed -/

theorem nextBlock_leaves {other line : List Char} (h : nextBlock (some other) line ≠ some other) :
    nextBlock (some other) line = none ∧ trimList line = endMarker other := by
  by_cases ended : trimList line = endMarker other
  · exact ⟨if_pos ended, ended⟩
  · exact absurd (if_neg ended) h

/-- A line after which no block of another tag is open was in none before, if it is not the end of one. -/
theorem outside_before {state : Option (List Char)} {other line : List Char} (h : nextBlock state line ≠ some other)
    (going : nextBlock state line ≠ none ∨ trimList line ≠ endMarker other) : decide (state = some other) = false := by
  rw [decide_eq_false_iff_not]
  rintro rfl
  obtain ⟨closed, ended⟩ := nextBlock_leaves h
  exact going.elim (absurd closed) (absurd ended)

section Removing
variable {tag other : List Char} (valid : validateTag tag = true) (validOther : validateTag other = true) (different : other ≠ tag)
include valid validOther different

/-- Removing restores lines in the blocks of another tag and leaves those blocks closed. -/
theorem inBlocks_withoutBlock {state : Option (List Char)} {ls : List (List Char)} (formed : wellFormed state ls = true)
    (inner : ∀ line ∈ inBlocks other (state = some other) ls, trimList line ≠ endMarker tag ∧
      (disabledMarker tag <+: line → trimList (restore tag line) ≠ endMarker other))
    (outer : ∀ line ∈ outsideBlocks tag (state = some tag) ls,
      disabledMarker tag <+: line → trimList (restore tag line) ≠ beginMarker other) :
    inBlocks other (state = some other) (withoutBlock tag (state = some tag) ls) =
      (inBlocks other (state = some other) ls).map (restore tag) ∧
    insideAfter other (state = some other) (withoutBlock tag (state = some tag) ls) = false := by
  rw [withoutBlock_eq]
  induction ls generalizing state with
  | nil =>
    rw [wellFormed, Option.isNone_iff_eq_none] at formed
    simp [formed, outsideBlocks, inBlocks, insideAfter]
  | cons line rest ih =>
    rw [wellFormed, Bool.and_eq_true] at formed
    obtain ⟨step, formed⟩ := formed
    have tail := ih formed
    have scanned := @insideNext_state state line other validOther step
    rw [inBlocks, scanned] at inner ⊢
    rw [outsideBlocks, insideNext_state valid step] at outer ⊢
    by_cases mine : nextBlock state line = some tag
    · -- the line goes with this tag's block
      have apart : nextBlock state line ≠ some other := by simp [mine, different.symm]
      have opened : nextBlock state line ≠ none := by simp [mine]
      have before := outside_before apart (.inl opened)
      simp only [mine, Option.some.injEq, different.symm, decide_true, if_true, decide_false, Bool.false_eq_true, if_false]
        at inner outer tail ⊢
      rw [before]
      exact tail inner outer
    · simp only [mine, decide_false, Bool.false_eq_true, if_false] at outer tail ⊢
      by_cases ended : trimList line = endMarker tag
      · -- an end marker of this tag goes, and is in no block of another
        have apart : nextBlock state line ≠ some other := by
          intro theirs
          simp only [theirs, decide_true, if_true] at inner
          exact (inner line (.head _)).1 ended
        have notEnd : trimList line ≠ endMarker other := fun same => different (endMarker_injective (same.symm.trans ended))
        have before := outside_before apart (.inr notEnd)
        simp only [ended, if_true, apart, decide_false, Bool.false_eq_true, if_false] at inner outer tail ⊢
        rw [before]
        exact tail inner outer
      · simp only [ended, if_false, List.map_cons] at outer ⊢
        have outerRest : ∀ l ∈ outsideBlocks tag false rest,
            disabledMarker tag <+: l → trimList (restore tag l) ≠ beginMarker other := fun l member => outer l (.tail _ member)
        have here := outer line (.head _)
        rw [inBlocks, insideAfter, List.foldl_cons]
        by_cases theirs : nextBlock state line = some other
        · simp only [theirs, decide_true, if_true] at inner tail scanned ⊢
          have stays : insideNext other (state = some other) (restore tag line) = true := by
            by_cases disabled : disabledMarker tag <+: line
            · have plain : trimList line ≠ beginMarker other ∧ trimList line ≠ endMarker other := by
                obtain ⟨l, rfl⟩ := disabled
                exact disabled_ne_marker tag other l
              simp only [insideNext, plain, if_false] at scanned
              simp only [insideNext, here disabled, (inner line (.head _)).2 disabled, if_false, scanned]
            · rw [restore_other disabled, scanned]
          have same := tail (fun l member => inner l (.tail _ member)) outerRest
          rw [stays]
          exact ⟨congrArg (restore tag line :: ·) same.1, same.2⟩
        · simp only [theirs, decide_false, Bool.false_eq_true, if_false] at inner tail scanned ⊢
          have leaves : insideNext other (state = some other) (restore tag line) = false := by
            by_cases disabled : disabledMarker tag <+: line
            · have notEnd : trimList line ≠ endMarker other := by
                obtain ⟨l, rfl⟩ := disabled
                exact (disabled_ne_marker tag other l).2
              have before := outside_before theirs (.inr notEnd)
              simp [insideNext, here disabled, before]
            · rw [restore_other disabled, scanned]
          rw [leaves]
          exact tail inner outerRest

end Removing

theorem lines_removeBlock (text tag : List Char) :
    lines (removeBlock text tag) = (popEmpty (withoutBlock tag false (lines text))).map (settle (newlineOf text)) := by
  rw [removeBlock_eq, lines_unlines]
  intro line member
  exact newline_not_mem_withoutBlock (fun _ => newline_not_mem) line ((popEmpty_front _).subset member)

theorem inBlocks_blockLines {tag other : List Char} {addresses : Addresses} (different : other ≠ tag) (plain : ∀ entry ∈ addresses, Plain entry) :
    inBlocks other false (blockLines tag addresses) = [] := by
  have apart : ∀ line ∈ blockLines tag addresses, trimList line ≠ beginMarker other := by
    intro line member
    simp only [blockLines, List.cons_append, List.mem_cons, List.mem_append, List.mem_map, List.not_mem_nil, or_false] at member
    rcases member with rfl | ⟨entry, listed, rfl⟩ | rfl
    · rw [trimList_beginMarker]
      exact fun same => different (beginMarker_injective same).symm
    · exact ((plain entry listed).not_marker other).1
    · rw [trimList_endMarker]
      exact (beginMarker_ne_endMarker other tag).symm
  exact inBlocks_eq_nil apart

/-! ### Files stay well formed -/

theorem opening_eq_none {line : List Char} (h : ∀ tag, trimList line ≠ beginMarker tag) : opening line = none := by
  rw [Option.eq_none_iff_forall_ne_some]
  exact fun tag opened => h tag (opening_eq_some.mp opened).2

theorem opening_congr {line line' : List Char} (same : ∀ tag, trimList line' = beginMarker tag ↔ trimList line = beginMarker tag) :
    opening line' = opening line := by
  refine Option.ext fun tag => ?_
  rw [opening_eq_some, opening_eq_some, same]

theorem wellFormed_map {change : List Char → List Char} (keeps : ∀ tag, KeepsMarkers tag change) (state : Option (List Char))
    (ls : List (List Char)) : wellFormed state (ls.map change) = wellFormed state ls := by
  induction ls generalizing state with
  | nil => rfl
  | cons line rest ih =>
    have opens := opening_congr fun tag => (keeps tag line).1
    have ends := fun tag => (keeps tag line).2
    rw [List.map_cons, wellFormed, wellFormed]
    cases state with
    | none => simp only [goesOn, nextBlock, opens, ih]
    | some tag => simp only [goesOn, nextBlock, opens, ends, ih]

theorem wellFormed_append {state : Option (List Char)} {ls ls' : List (List Char)} (formed : wellFormed state ls = true)
    (formed' : wellFormed none ls' = true) : wellFormed state (ls ++ ls') = true := by
  induction ls generalizing state with
  | nil =>
    rw [wellFormed, Option.isNone_iff_eq_none] at formed
    exact formed ▸ formed'
  | cons line rest ih =>
    rw [wellFormed, Bool.and_eq_true] at formed
    rw [List.cons_append, wellFormed, Bool.and_eq_true]
    exact ⟨formed.1, ih formed.2⟩

theorem wellFormed_of_blank {state : Option (List Char)} {ls blanks : List (List Char)} (blank : ∀ line ∈ blanks, line = [])
    (formed : wellFormed state (ls ++ blanks) = true) : wellFormed state ls = true := by
  induction ls generalizing state with
  | nil =>
    rw [List.nil_append] at formed
    induction blanks with
    | nil => exact formed
    | cons line rest ih =>
      obtain rfl := blank line (.head _)
      have opens : opening [] = none := opening_eq_none fun tag => (trimList_nil_ne tag).1
      rw [wellFormed, Bool.and_eq_true] at formed
      have stays : nextBlock state [] = state := by
        cases state with
        | none => exact opens
        | some tag => rw [nextBlock, if_neg (trimList_nil_ne tag).2]
      exact ih (fun l member => blank l (.tail _ member)) (stays ▸ formed.2)
  | cons line rest ih =>
    rw [List.cons_append, wellFormed, Bool.and_eq_true] at formed
    rw [wellFormed, Bool.and_eq_true]
    exact ⟨formed.1, ih formed.2⟩

theorem wellFormed_blockLines {tag : List Char} {addresses : Addresses} (valid : validateTag tag = true)
    (plain : ∀ entry ∈ addresses, Plain entry) : wellFormed none (blockLines tag addresses) = true := by
  have opens : opening (beginMarker tag) = some tag := opening_eq_some.mpr ⟨valid, trimList_beginMarker tag⟩
  rw [blockLines, List.cons_append, wellFormed, nextBlock, opens, goesOn, Bool.true_and]
  induction addresses with
  | nil => simp [wellFormed, goesOn, nextBlock, trimList_endMarker]
  | cons entry addresses ih =>
    have here := (plain entry (.head _)).not_marker
    have unopened : opening (entryLine entry) = none := opening_eq_none fun t => (here t).1
    rw [List.map_cons, List.cons_append, wellFormed, nextBlock, if_neg (here tag).2]
    simpa [goesOn, unopened] using ih fun e member => plain e (.tail _ member)

theorem filter_ne_some {tag owner : List Char} (different : owner ≠ tag) : (some owner).filter (· ≠ tag) = some owner := by
  simp [Option.filter_some, different]

theorem stays_of_disabled {state : Option (List Char)} {tag owner line : List Char} (own : state = some owner)
    (disabled : disabledMarker tag <+: line) : nextBlock state line = some owner := by
  obtain ⟨rest, rfl⟩ := disabled
  rw [own, nextBlock, if_neg (disabled_ne_marker tag owner rest).2]

/-- A line that stays does to the other blocks what it did before it was restored. -/
theorem nextBlock_restore {state : Option (List Char)} {tag line : List Char} (apart : nextBlock state line ≠ some tag)
    (notEnd : trimList line ≠ endMarker tag) (step : goesOn state line = true)
    (opens : disabledMarker tag <+: line → opening (restore tag line) = none)
    (ends : ∀ owner, state = some owner → owner ≠ tag → disabledMarker tag <+: line → trimList (restore tag line) ≠ endMarker owner) :
    nextBlock (state.filter (· ≠ tag)) (restore tag line) = (nextBlock state line).filter (· ≠ tag) ∧
    goesOn (state.filter (· ≠ tag)) (restore tag line) = true := by
  by_cases disabled : disabledMarker tag <+: line
  · have unopened : opening line = none := by
      obtain ⟨rest, rfl⟩ := disabled
      exact opening_eq_none fun other => (disabled_ne_marker tag other rest).1
    cases state with
    | none => simp [nextBlock, goesOn, unopened, opens disabled]
    | some owner =>
      have stays : nextBlock (some owner) line = some owner := stays_of_disabled rfl disabled
      have different : owner ≠ tag := fun same => apart (same ▸ stays)
      have goes := ends owner rfl different disabled
      rw [stays, filter_ne_some different]
      simp [nextBlock, goesOn, goes, opens disabled]
  · rw [restore_other disabled]
    cases state with
    | none =>
      have other : (opening line).filter (· ≠ tag) = opening line := by
        cases opened : opening line with
        | none => rfl
        | some owner =>
          have different : owner ≠ tag := fun same => apart (by rw [nextBlock, opened, same])
          exact filter_ne_some different
      exact ⟨other.symm, step⟩
    | some owner =>
      have different : owner ≠ tag := by
        rintro rfl
        exact apart (if_neg notEnd)
      rw [filter_ne_some different]
      refine ⟨?_, step⟩
      rw [nextBlock]
      split
      · rfl
      · exact (filter_ne_some different).symm

/-- Removing a block leaves the file well formed if nothing that is restored is a marker. -/
theorem wellFormed_withoutBlock {tag : List Char} (valid : validateTag tag = true) {state : Option (List Char)}
    {ls : List (List Char)} (known : ∀ other, state = some other → validateTag other = true) (formed : wellFormed state ls = true)
    (inner : ∀ other, validateTag other = true → other ≠ tag → ∀ line ∈ inBlocks other (state = some other) ls,
      disabledMarker tag <+: line → trimList (restore tag line) ≠ endMarker other)
    (outer : ∀ line ∈ outsideBlocks tag (state = some tag) ls, disabledMarker tag <+: line → opening (restore tag line) = none) :
    wellFormed (state.filter (· ≠ tag)) (withoutBlock tag (state = some tag) ls) = true := by
  rw [withoutBlock_eq]
  induction ls generalizing state with
  | nil =>
    rw [wellFormed, Option.isNone_iff_eq_none] at formed
    simp [formed, outsideBlocks, wellFormed]
  | cons line rest ih =>
    rw [wellFormed, Bool.and_eq_true] at formed
    obtain ⟨step, formed⟩ := formed
    have knownNext : ∀ other, nextBlock state line = some other → validateTag other = true := by
      intro other opened
      cases state with
      | none => exact (opening_eq_some.mp opened).1
      | some owner =>
        simp only [nextBlock] at opened
        split at opened
        · cases opened
        · exact known other opened
    have innerNext : ∀ other, validateTag other = true → other ≠ tag → ∀ l ∈ inBlocks other (nextBlock state line = some other) rest,
        disabledMarker tag <+: l → trimList (restore tag l) ≠ endMarker other := by
      intro other validOther different l member
      refine inner other validOther different l ?_
      rw [inBlocks, insideNext_state validOther step]
      split
      · next theirs => exact List.mem_cons_of_mem _ (by simpa [theirs] using member)
      · next apart => simpa [apart] using member
    have tail := ih knownNext formed innerNext
    have innerHere : ∀ other, validateTag other = true → other ≠ tag → nextBlock state line = some other →
        disabledMarker tag <+: line → trimList (restore tag line) ≠ endMarker other := by
      intro other validOther different theirs
      refine inner other validOther different line ?_
      rw [inBlocks, insideNext_state validOther step]
      simp [theirs]
    rw [outsideBlocks, insideNext_state valid step] at outer ⊢
    by_cases mine : nextBlock state line = some tag
    · have before : state.filter (· ≠ tag) = none := by
        cases state with
        | none => rfl
        | some owner =>
          simp only [nextBlock] at mine
          split at mine
          · cases mine
          · simp [Option.some.inj mine]
      have after : (some tag).filter (· ≠ tag) = none := by simp
      simp only [mine, decide_true, if_true] at tail outer ⊢
      rw [after] at tail
      rw [before]
      exact tail outer
    · simp only [mine, decide_false, Bool.false_eq_true, if_false] at tail outer ⊢
      by_cases ended : trimList line = endMarker tag
      · have same : state.filter (· ≠ tag) = (nextBlock state line).filter (· ≠ tag) := by
          cases state with
          | none =>
            have unopened : opening line = none := opening_eq_none fun t same => beginMarker_ne_endMarker t tag (same.symm.trans ended)
            simp [nextBlock, unopened]
          | some owner =>
            by_cases own : owner = tag
            · simp [nextBlock, own, ended]
            · have other : trimList line ≠ endMarker owner := fun same => own (endMarker_injective (same.symm.trans ended))
              simp [nextBlock, other]
        simp only [ended, if_true] at outer ⊢
        rw [same]
        exact tail outer
      · simp only [ended, if_false, List.map_cons] at outer ⊢
        have outerRest : ∀ l ∈ outsideBlocks tag false rest, disabledMarker tag <+: l → opening (restore tag l) = none :=
          fun l member => outer l (.tail _ member)
        have next := nextBlock_restore mine ended step (outer line (.head _)) fun owner own different disabled =>
          innerHere owner (known owner own) different (stays_of_disabled own disabled) disabled
        rw [wellFormed, next.1, next.2, Bool.true_and]
        exact tail outerRest

end Azbridge.Hosts
