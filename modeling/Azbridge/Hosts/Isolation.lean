import Azbridge.Hosts.Blocks

/-!
# One tag's block beside another's

Merging and removing the block of one tag leaves the blocks of the others alone, unless one of their
lines looks like this tag's own or maps a hostname that is being merged: conflicts are looked for on
all lines, the blocks of other tags included.
-/

namespace Azbridge.Hosts
open Lines Text

/-- No line in a block of another tag is taken for this tag's own or maps one of the names, and none
that this tag disabled begins a block of another tag. -/
structure Separate (text tag : List Char) (names : List (List Char)) : Prop where
  inner : ∀ other, validateTag other = true → other ≠ tag → ∀ line ∈ inBlocks other false (lines text),
    trimList line ≠ endMarker tag ∧ ¬ disabledMarker tag <+: line ∧ mapsAny names line = false
  outer : ∀ other, validateTag other = true → other ≠ tag → ∀ rest,
    disabledMarker tag ++ rest ∈ outsideBlocks tag false (lines text) → trimList rest ≠ beginMarker other

/-- Neither removing nor merging the block of the tag changes a line in the blocks of another, nor the
entries that are read from them, and no conflict is found there. -/
structure Isolated (text tag : List Char) (addresses : Addresses) : Prop where
  removing : ∀ other, validateTag other = true → other ≠ tag →
    inBlocks other false (lines (removeBlock text tag)) = inBlocks other false (lines text) ∧
    existingEntries (removeBlock text tag) other = existingEntries text other
  merging : ∀ other, validateTag other = true → other ≠ tag → ∀ replaceExisting text',
    mergeBlock text tag addresses replaceExisting = .ok text' →
      inBlocks other false (lines text') = inBlocks other false (lines text) ∧
      existingEntries text' other = existingEntries text other
  conflicting : ∀ i line, (i, line) ∈ conflicts (lines (removeBlock text tag)) (addresses.map (·.1)) →
    ∀ other, validateTag other = true → other ≠ tag →
      insideAfter other false ((lines (removeBlock text tag)).take i) = false

section Removing
variable {tag other : List Char} (valid : validateTag tag = true) (validOther : validateTag other = true) (different : other ≠ tag)
include valid validOther different

theorem filter_begin_outsideBlocks {state : Option (List Char)} {ls : List (List Char)} (formed : wellFormed state ls = true) :
    (outsideBlocks tag (state = some tag) ls).filter (fun line => trimList line = beginMarker other) =
      ls.filter fun line => trimList line = beginMarker other := by
  induction ls generalizing state with
  | nil => rfl
  | cons line rest ih =>
    rw [wellFormed, Bool.and_eq_true] at formed
    obtain ⟨step, formed⟩ := formed
    have tail := ih formed
    have begins : trimList line = beginMarker other → nextBlock state line = some other := fun same => by
      have scanned := insideNext_state validOther step
      rw [insideNext_begin same] at scanned
      exact of_decide_eq_true scanned.symm
    rw [outsideBlocks, insideNext_state valid step]
    by_cases mine : nextBlock state line = some tag
    · have plain : trimList line ≠ beginMarker other := fun same => by
        have theirs := begins same
        rw [mine, Option.some.injEq] at theirs
        exact different theirs.symm
      simp only [mine, decide_true, if_true] at tail ⊢
      rw [tail, List.filter_cons_of_neg (by simpa using plain)]
    · simp only [mine, decide_false, Bool.false_eq_true, if_false] at tail ⊢
      by_cases ended : trimList line = endMarker tag
      · have plain : trimList line ≠ beginMarker other := fun same => beginMarker_ne_endMarker other tag (same.symm.trans ended)
        rw [if_pos ended, tail, List.filter_cons_of_neg (by simpa using plain)]
      · rw [if_neg ended, List.filter_cons, List.filter_cons, tail]

/-- If nothing that is restored begins a block, what is left of the blocks are lines that were there. -/
theorem sublist_withoutBlock {state : Option (List Char)} {inside : Bool} {ls : List (List Char)}
    (formed : wellFormed state ls = true) (within : inside = true → state = some other)
    (outer : ∀ line ∈ outsideBlocks tag (state = some tag) ls,
      disabledMarker tag <+: line → trimList (restore tag line) ≠ beginMarker other) :
    (inBlocks other inside (withoutBlock tag (state = some tag) ls)).Sublist
      (((inBlocks other (state = some other) ls).filter fun line => trimList line ≠ endMarker tag).map (restore tag)) := by
  rw [withoutBlock_eq]
  induction ls generalizing state inside with
  | nil => exact List.nil_sublist _
  | cons line rest ih =>
    rw [wellFormed, Bool.and_eq_true] at formed
    obtain ⟨step, formed⟩ := formed
    have closed : state = some other → nextBlock state line ≠ some other → trimList line = endMarker other := by
      rintro rfl leaves
      exact (nextBlock_leaves leaves).2
    rw [inBlocks, insideNext_state validOther step]
    rw [outsideBlocks, insideNext_state valid step] at outer ⊢
    by_cases mine : nextBlock state line = some tag
    · have apart : nextBlock state line ≠ some other := by simp [mine, different.symm]
      have before : inside = false := by
        rw [Bool.eq_false_iff]
        intro open_
        have same := within open_
        subst same
        exact absurd (nextBlock_leaves apart).1 (by simp [mine])
      have tail := @ih (nextBlock state line) false formed (by rintro ⟨⟩) (by simpa [mine] using outer)
      simpa [mine, before, different.symm] using tail
    · simp only [mine, decide_false, Bool.false_eq_true, if_false] at outer ⊢
      by_cases ended : trimList line = endMarker tag
      · have notEnd : trimList line ≠ endMarker other := fun same => different (endMarker_injective (same.symm.trans ended))
        have stays : inside = true → nextBlock state line = some other := fun open_ => by
          by_contra leaves
          exact notEnd (closed (within open_) leaves)
        have tail := ih formed stays (by simpa [mine, ended] using outer)
        simp only [mine, decide_false] at tail
        simp only [ended, if_true]
        split
        · next theirs => simpa [ended, of_decide_eq_true theirs] using tail
        · next apart => simpa [apart] using tail
      · simp only [ended, if_false, List.map_cons] at outer ⊢
        have outerRest : ∀ l ∈ outsideBlocks tag false rest,
            disabledMarker tag <+: l → trimList (restore tag l) ≠ beginMarker other := fun l member => outer l (.tail _ member)
        have tail := fun inside within => @ih (nextBlock state line) inside formed within (by simpa [mine] using outerRest)
        simp only [mine, decide_false] at tail
        have entered : insideNext other inside (restore tag line) = true → nextBlock state line = some other := by
          intro opened
          by_contra leaves
          by_cases begins : trimList (restore tag line) = beginMarker other
          · by_cases disabled : disabledMarker tag <+: line
            · exact outer line (.head _) disabled begins
            · have scanned := insideNext_state validOther step
              rw [restore_other disabled] at begins
              rw [insideNext_begin begins] at scanned
              exact leaves (of_decide_eq_true scanned.symm)
          · have still : inside = true := by
              simp only [insideNext, begins, if_false] at opened
              split at opened
              · cases opened
              · exact opened
            have ends := closed (within still) leaves
            rw [restore_marker (.inr ends), insideNext_end ends] at opened
            cases opened
        rw [inBlocks]
        by_cases opened : insideNext other inside (restore tag line) = true
        · have theirs := entered opened
          simpa [opened, theirs, ended] using tail true fun _ => theirs
        · have left := tail false (by rintro ⟨⟩)
          rw [if_neg opened]
          by_cases theirs : nextBlock state line = some other
          · simp only [theirs, decide_true, if_true] at left ⊢
            rw [List.filter_cons_of_pos (by simpa using ended), List.map_cons]
            exact left.cons _
          · simpa [theirs] using left

end Removing

section Sound
variable {text tag other : List Char} {names : List (List Char)}

theorem Separate.removing (h : Separate text tag names) (valid : validateTag tag = true) (validOther : validateTag other = true)
    (different : other ≠ tag) (formed : wellFormed none (lines text) = true) :
    inBlocks other false (lines (removeBlock text tag)) = inBlocks other false (lines text) ∧
    insideAfter other false (lines (removeBlock text tag)) = false := by
  have inner := fun line member => h.inner other validOther different line member
  have outer : ∀ line ∈ outsideBlocks tag false (lines text),
      disabledMarker tag <+: line → trimList (restore tag line) ≠ beginMarker other := by
    rintro _ member ⟨rest, rfl⟩
    rw [restore_disabled]
    exact h.outer other validOther different rest member
  have kept := @inBlocks_withoutBlock tag other valid validOther different none _ formed
    (fun line member => ⟨(inner line member).1, fun disabled => absurd disabled (inner line member).2.1⟩) outer
  simp only [reduceCtorEq, decide_false] at kept
  obtain ⟨blanks, blank, split⟩ := popEmpty_blank (withoutBlock tag false (lines text))
  rw [split] at kept
  obtain ⟨popped, closed⟩ := inBlocks_blank blank kept.2
  have keeps := keepsMarkers_settle other (newlineOf text)
  have settled := settle_inBlocks (closed_of_wellFormed validOther formed)
  rw [lines_removeBlock, keeps.inBlocks, keeps.insideAfter, popped, kept.1, List.map_map]
  refine ⟨(List.map_congr_left fun line member => ?_).trans (List.map_id _), closed⟩
  rw [Function.comp_apply, restore_other (inner line member).2.1]
  exact settled line member

theorem Separate.merging {addresses : Addresses} {replaceExisting : Bool} {text' : List Char}
    (h : Separate text tag (addresses.map (·.1))) (valid : validateTag tag = true) (validOther : validateTag other = true)
    (different : other ≠ tag) (formed : wellFormed none (lines text) = true) (plain : ∀ entry ∈ addresses, Plain entry)
    (applied : mergeBlock text tag addresses replaceExisting = .ok text') :
    inBlocks other false (lines text') = inBlocks other false (lines text) := by
  obtain ⟨base, closed⟩ := h.removing valid validOther different formed
  have written := (mergeBlock_ok.mp applied).2
  have within : ∀ line ∈ lines (removeBlock text tag), '\n' ∉ line := fun _ => newline_not_mem
  generalize lines (removeBlock text tag) = ls at base closed written within
  have disables := keepsMarkers_disable tag other (addresses.map (·.1))
  obtain ⟨blanks, blank, split⟩ := dropEmptyLast_blank (ls.map (disable tag (addresses.map (·.1))))
  have unchanged : inBlocks other false (ls.map (disable tag (addresses.map (·.1)))) = inBlocks other false (lines text) := by
    rw [disables.inBlocks, base]
    refine (List.map_congr_left fun line member => ?_).trans (List.map_id _)
    exact if_neg (by simp [(h.inner other validOther different line member).2.2])
  have ends : insideAfter other false (ls.map (disable tag (addresses.map (·.1)))) = false := (disables.insideAfter ls).trans closed
  rw [split] at ends
  obtain ⟨dropped, closes⟩ := inBlocks_blank blank ends
  have clean : ∀ line ∈ dropEmptyLast (ls.map (disable tag (addresses.map (·.1)))) ++ blockLines tag addresses, '\n' ∉ line := by
    intro line member
    rcases List.mem_append.mp member with old | new
    · have source : line ∈ ls.map (disable tag (addresses.map (·.1))) := split ▸ List.mem_append_left _ old
      obtain ⟨l, listed, rfl⟩ := List.mem_map.mp source
      unfold disable
      split
      · simp [(newline_not_mem_marker valid).2.2, within l listed]
      · exact within l listed
    · have block : Clean lf (blockLines tag addresses) := clean_blockLines valid plain
      exact block.within line new
  have keeps := keepsMarkers_settle other (newlineOf text)
  have settled := settle_inBlocks (closed_of_wellFormed validOther formed)
  rw [written, lines_unlines clean, keeps.inBlocks, inBlocks_append, closes, inBlocks_blockLines different plain,
    List.append_nil, dropped, ← split, unchanged]
  exact (List.map_congr_left settled).trans (List.map_id _)

theorem mem_inBlocks_of_conflict {ls : List (List Char)} {i : Nat} {line : List Char} (found : (i, line) ∈ conflicts ls names)
    (opened : insideAfter other false (ls.take i) = true) : line ∈ inBlocks other false ls := by
  obtain ⟨held, maps⟩ := mem_conflicts.mp found
  obtain ⟨small, same⟩ := List.getElem?_eq_some_iff.mp held
  have notEnd : trimList line ≠ endMarker other := fun ends => by
    rw [mapsAny_marker (.inr ends)] at maps
    cases maps
  refine mem_inBlocks.mpr ⟨ls.take i, ls.drop (i + 1), ?_, ?_⟩
  · rw [← same, List.getElem_cons_drop, List.take_append_drop]
  · simp [insideNext, notEnd, opened]

theorem Separate.isolated {addresses : Addresses} (h : Separate text tag (addresses.map (·.1))) (valid : validateTag tag = true)
    (formed : wellFormed none (lines text) = true) (plain : ∀ entry ∈ addresses, Plain entry) : Isolated text tag addresses := by
  constructor
  · intro other validOther different
    have same := (h.removing valid validOther different formed).1
    exact ⟨same, existingEntries_eq same⟩
  · intro other validOther different replaceExisting text' applied
    have same := h.merging valid validOther different formed plain applied
    exact ⟨same, existingEntries_eq same⟩
  · intro i line found other validOther different
    by_contra opened
    have member := mem_inBlocks_of_conflict found (eq_true_of_ne_false opened)
    rw [(h.removing valid validOther different formed).1] at member
    have maps := (mem_conflicts.mp found).2
    rw [(h.inner other validOther different line member).2.2] at maps
    cases maps

end Sound

section Complete
variable {text tag other : List Char} {addresses : Addresses}

theorem countP_begin_inBlocks {inside : Bool} (ls : List (List Char)) :
    (inBlocks other inside ls).countP (fun line => trimList line = beginMarker other) =
      ls.countP fun line => trimList line = beginMarker other := by
  induction ls generalizing inside with
  | nil => rfl
  | cons line rest ih =>
    rw [inBlocks, List.countP_cons]
    split
    · rw [List.countP_cons, ih]
    · next closed =>
      have plain : trimList line ≠ beginMarker other := fun same => closed (insideNext_begin same)
      simp [plain, ih]

theorem restores_none {ls : List (List Char)} (same : (ls.map (restore tag)).countP (fun line => trimList line = beginMarker other) =
    ls.countP fun line => trimList line = beginMarker other) :
    ∀ line ∈ ls, disabledMarker tag <+: line → trimList (restore tag line) ≠ beginMarker other := by
  rw [List.countP_map, List.countP_eq_length_filter, List.countP_eq_length_filter] at same
  have more : (ls.filter fun line => trimList line = beginMarker other).Sublist
      (ls.filter ((fun line => decide (trimList line = beginMarker other)) ∘ restore tag)) := by
    refine List.monotone_filter_right ls fun line begins => ?_
    rw [decide_eq_true_eq] at begins
    simpa [restore_marker (.inl begins)] using begins
  have equal := more.eq_of_length same.symm
  intro line member disabled begins
  have found : line ∈ ls.filter ((fun line => decide (trimList line = beginMarker other)) ∘ restore tag) :=
    List.mem_filter.mpr ⟨member, by simpa using begins⟩
  rw [← equal, List.mem_filter, decide_eq_true_eq] at found
  obtain ⟨rest, rfl⟩ := disabled
  exact (disabled_ne_marker tag other rest).1 found.2

theorem outer_of_isolated (valid : validateTag tag = true) (validOther : validateTag other = true)
    (different : other ≠ tag) (formed : wellFormed none (lines text) = true)
    (same : inBlocks other false (lines (removeBlock text tag)) = inBlocks other false (lines text)) :
    ∀ line ∈ outsideBlocks tag false (lines text), disabledMarker tag <+: line → trimList (restore tag line) ≠ beginMarker other := by
  refine restores_none ?_
  have settled : ((fun line => decide (trimList line = beginMarker other)) ∘ settle (newlineOf text)) =
      fun line => decide (trimList line = beginMarker other) := by
    funext line
    simp [trimList_settle]
  have count := congrArg (List.countP fun line => trimList line = beginMarker other) same
  rw [countP_begin_inBlocks, countP_begin_inBlocks, lines_removeBlock, List.countP_map, settled] at count
  obtain ⟨blanks, blank, split⟩ := popEmpty_blank (withoutBlock tag false (lines text))
  have none_ : blanks.countP (fun line => trimList line = beginMarker other) = 0 := by
    refine List.countP_eq_zero.mpr fun line member => ?_
    simp [blank line member, trimList_nil_ne]
  have whole := congrArg (List.countP fun line => trimList line = beginMarker other) split
  rw [List.countP_append, none_, Nat.add_zero] at whole
  have kept := congrArg List.length (@filter_begin_outsideBlocks tag other valid validOther different none _ formed)
  rw [← withoutBlock_eq, whole, count]
  simpa [List.countP_eq_length_filter] using kept.symm

theorem inner_of_isolated (valid : validateTag tag = true) (validOther : validateTag other = true)
    (different : other ≠ tag) (formed : wellFormed none (lines text) = true)
    (same : inBlocks other false (lines (removeBlock text tag)) = inBlocks other false (lines text)) :
    ∀ line ∈ inBlocks other false (lines text), trimList line ≠ endMarker tag ∧ ¬ disabledMarker tag <+: line := by
  have outer := outer_of_isolated valid validOther different formed same
  have kept := @sublist_withoutBlock tag other valid validOther different none false _ formed nofun outer
  simp only [reduceCtorEq, decide_false] at kept
  have popped : (inBlocks other false (popEmpty (withoutBlock tag false (lines text)))).Sublist
      (inBlocks other false (withoutBlock tag false (lines text))) := by
    obtain ⟨rest, split⟩ := popEmpty_front (withoutBlock tag false (lines text))
    have whole := congrArg (inBlocks other false) split
    rw [inBlocks_append] at whole
    rw [← whole]
    exact List.sublist_append_left _ _
  rw [lines_removeBlock, (keepsMarkers_settle other (newlineOf text)).inBlocks] at same
  generalize inBlocks other false (lines text) = ls at kept same
  have left := popped.trans kept
  have size := congrArg List.length same
  have bound := left.length_le
  have fewer := List.length_filter_le (fun line => decide (trimList line ≠ endMarker tag)) ls
  simp only [List.length_map] at size bound
  have all : ls.filter (fun line => trimList line ≠ endMarker tag) = ls :=
    List.filter_sublist.eq_of_length (by omega)
  rw [all] at left
  have equal := left.eq_of_length (by simpa using size)
  rw [equal, List.map_map] at same
  intro line member
  constructor
  · rw [← all, List.mem_filter] at member
    simpa using member.2
  · rintro ⟨rest, rfl⟩
    have fixed := List.map_inj_left.mp (same.trans (List.map_id _).symm) _ member
    have shorter := congrArg List.length fixed
    have bound := length_settle (newlineOf text) rest
    simp only [Function.comp_apply, restore_disabled, id_eq, List.length_append] at shorter
    simp [disabledMarker, azbridge] at shorter
    omega

theorem Isolated.separate (h : Isolated text tag addresses) (valid : validateTag tag = true)
    (formed : wellFormed none (lines text) = true) : Separate text tag (addresses.map (·.1)) := by
  constructor
  · intro other validOther different line member
    have same := (h.removing other validOther different).1
    obtain ⟨notEnd, notDisabled⟩ := inner_of_isolated valid validOther different formed same line member
    refine ⟨notEnd, notDisabled, ?_⟩
    by_contra maps
    rw [Bool.not_eq_false] at maps
    rw [← same] at member
    obtain ⟨before, after, split, opened⟩ := mem_inBlocks.mp member
    have found : (before.length, line) ∈ conflicts (lines (removeBlock text tag)) (addresses.map (·.1)) :=
      mem_conflicts.mpr ⟨by rw [split]; simp, maps⟩
    have outside := h.conflicting before.length line found other validOther different
    rw [split, List.take_left] at outside
    have plain : trimList line ≠ beginMarker other := fun begins => by
      rw [mapsAny_marker (.inl begins)] at maps
      cases maps
    simp [insideNext, plain, outside] at opened
  · intro other validOther different rest member
    have same := (h.removing other validOther different).1
    have plain := outer_of_isolated valid validOther different formed same _ member (List.prefix_append _ _)
    rwa [restore_disabled] at plain

end Complete

/-- Exactly in these files the other tags' blocks are left alone. -/
theorem isolated_iff_separate {text tag other tag' : List Char} {hosts : List (List Char)} {addresses : Addresses}
    (valid : validateTag tag = true) (formed : wellFormed none (lines text) = true)
    (allocation : allocate hosts (existingEntries other tag') = some addresses) :
    Isolated text tag addresses ↔ Separate text tag (addresses.map (·.1)) :=
  ⟨fun h => h.separate valid formed, fun h => h.isolated valid formed (plain_of_allocate allocation)⟩

def otherTag : List Char := "gateway".toList

/-- A file with the block of another tag, which maps the address. -/
def sharedText (entry : List Char) : List Char :=
  beginMarker otherTag ++ '\n' :: entry ++ '\n' :: endMarker otherTag ++ ['\n']

/-- A file in which no line at all is taken for the tag's own or maps one of the names. -/
theorem separate_of_lines {text tag : List Char} {names : List (List Char)} (plain : ∀ line ∈ lines text,
    trimList line ≠ endMarker tag ∧ ¬ disabledMarker tag <+: line ∧ mapsAny names line = false) : Separate text tag names := by
  constructor
  · intro other _ _ line member
    obtain ⟨before, after, split, -⟩ := mem_inBlocks.mp member
    exact plain line (split ▸ List.mem_append_right _ (.head _))
  · intro other _ _ rest member
    exact absurd (List.prefix_append _ _) (plain _ (outsideBlocks_subset _ member)).2.1

theorem isolated_local : Isolated (sharedText "127.77.0.9 db.example.test".toList) localTag localAddresses := by
  have allocation : allocate localHosts (existingEntries [] localTag) = some localAddresses := by decide +kernel
  have formed : wellFormed none (lines (sharedText "127.77.0.9 db.example.test".toList)) = true := by decide +kernel
  have separate : Separate (sharedText "127.77.0.9 db.example.test".toList) localTag (localAddresses.map (·.1)) :=
    separate_of_lines (by decide +kernel)
  exact (isolated_iff_separate (by decide +kernel) formed allocation).mpr separate

/-- Merging comments out the line of another tag for the same hostname, which that tag then no longer reads. -/
theorem merging_changes_other_block :
    let text := sharedText "127.77.0.9 app.example.test".toList
    validateTag localTag = true ∧ validateTag otherTag = true ∧ otherTag ≠ localTag ∧ wellFormed none (lines text) = true ∧
    allocate localHosts (existingEntries text localTag) = some localAddresses ∧
    existingEntries text otherTag "app.example.test".toList = some "127.77.0.9".toList ∧
    (mergeBlock text localTag localAddresses true).toOption.any (fun text' =>
      decide (inBlocks otherTag false (lines text') ≠ inBlocks otherTag false (lines text)) &&
      decide (existingEntries text' otherTag "app.example.test".toList = none)) = true := by
  decide +kernel

end Azbridge.Hosts
