import Azbridge.Hosts.Entries

/-!
# Applying and removing a block

Removing a block that was merged restores the file, and applying once more changes nothing: the
block is read back as it was written, so every hostname keeps its address.
-/

namespace Azbridge.Hosts
open Lines Text

/-! ### Lines that are written and read back -/

/-- Lines that stand in a text with these line endings as they are. -/
structure Clean (newline : List Char) (ls : List (List Char)) : Prop where
  within : ∀ line ∈ ls, '\n' ∉ line
  ends : newline = lf → ∀ line ∈ ls, line.getLast? ≠ some '\r'

theorem Clean.append {newline : List Char} {ls ls' : List (List Char)} (h : Clean newline ls) (h' : Clean newline ls') :
    Clean newline (ls ++ ls') := by
  constructor
  · intro line member
    exact (List.mem_append.mp member).elim (h.within line) (h'.within line)
  · intro plain line member
    exact (List.mem_append.mp member).elim (h.ends plain line) (h'.ends plain line)

theorem Clean.lines_unlines {text : List Char} {ls : List (List Char)} (h : Clean (newlineOf text) ls) :
    lines (unlines (newlineOf text) ls) = ls := by
  rw [Hosts.lines_unlines h.within]
  rcases newlineOf_cases text with ⟨-, same⟩ | ⟨-, same⟩
  · rw [same, settle_crlf, List.map_id]
  · rw [same, settle_lf]
    exact (List.map_congr_left fun line member => chomp_of_getLast (h.ends same line member)).trans (List.map_id _)

theorem Clean.newlineOf_unlines {text : List Char} {ls : List (List Char)} (h : Clean (newlineOf text) ls) (some_ : ls ≠ []) :
    newlineOf (unlines (newlineOf text) ls) = newlineOf text := by
  rcases newlineOf_cases text with ⟨-, same⟩ | ⟨-, same⟩
  · rw [same]
    exact if_pos (crlf_infix_crlf some_)
  · have plain : ¬ crlf <:+: unlines lf ls := by
      rw [crlf_infix_lf h.within]
      rintro ⟨line, member, last⟩
      exact h.ends same line member last
    rw [same]
    exact if_neg plain

theorem newline_not_mem_marker {tag : List Char} (valid : validateTag tag = true) :
    '\n' ∉ beginMarker tag ∧ '\n' ∉ endMarker tag ∧ '\n' ∉ disabledMarker tag := by
  have chars : '\n' ∉ tag := by
    intro member
    have all := (Bool.and_eq_true_iff.mp valid).2
    exact absurd (List.all_eq_true.mp all _ member) (by decide)
  simp [beginMarker, endMarker, disabledMarker, azbridge, chars]

theorem clean_blockLines {newline tag : List Char} {addresses : Addresses} (valid : validateTag tag = true)
    (plain : ∀ entry ∈ addresses, Plain entry) : Clean newline (blockLines tag addresses) := by
  have markers := newline_not_mem_marker valid
  obtain ⟨opened, begin_⟩ := beginMarker_eq tag
  obtain ⟨closed, end_⟩ := endMarker_eq tag
  constructor
  · intro line member
    simp only [blockLines, List.cons_append, List.mem_cons, List.mem_append, List.mem_map, List.not_mem_nil, or_false] at member
    rcases member with rfl | ⟨entry, listed, rfl⟩ | rfl
    · exact markers.1
    · exact (plain entry listed).newline_not_mem
    · exact markers.2.1
  · intro _ line member
    simp only [blockLines, List.cons_append, List.mem_cons, List.mem_append, List.mem_map, List.not_mem_nil, or_false] at member
    rcases member with rfl | ⟨entry, listed, rfl⟩ | rfl
    · simp [begin_, List.getLast?_cons]
    · exact (plain entry listed).getLast
    · simp [end_, List.getLast?_cons]

/-! ### Files without a block -/

theorem length_withoutBlock (tag : List Char) (inside : Bool) (ls : List (List Char)) :
    (withoutBlock tag inside ls).length ≤ ls.length := by
  induction ls generalizing inside with
  | nil => simp [withoutBlock]
  | cons line rest ih =>
    unfold withoutBlock
    dsimp only
    split
    · exact Nat.le_succ_of_le (ih true)
    · split
      · exact Nat.le_succ_of_le (ih false)
      · split
        · exact Nat.le_succ_of_le (ih true)
        · exact Nat.succ_le_succ (ih false)

theorem untouched_of_withoutBlock {tag : List Char} {ls : List (List Char)} (h : withoutBlock tag false ls = ls) :
    ∀ line ∈ ls, Untouched tag line := by
  induction ls with
  | nil => nofun
  | cons line rest ih =>
    have shorter : ∀ inside, withoutBlock tag inside rest ≠ line :: rest := fun inside same => by
      have bound := length_withoutBlock tag inside rest
      rw [same] at bound
      simp only [List.length_cons] at bound
      omega
    unfold withoutBlock at h
    dsimp only at h
    split at h
    · exact absurd h (shorter true)
    · next not_begin =>
      split at h
      · exact absurd h (shorter false)
      · next not_end =>
        simp only [Bool.false_eq_true, if_false, List.cons.injEq] at h
        intro l member
        rcases List.mem_cons.mp member with rfl | later
        · refine ⟨not_begin, not_end, fun disabled => ?_⟩
          obtain ⟨tail, same⟩ := disabled
          have restored := h.1
          rw [← same, restore_disabled] at restored
          have size := congrArg List.length restored
          simp [disabledMarker, azbridge] at size
          omega
        · exact ih h.2 l later

theorem popEmpty_front (ls : List (List Char)) : popEmpty ls <+: ls := by
  unfold popEmpty
  exact List.reverse_suffix.mp (by simpa using List.dropWhile_suffix _)

theorem getLast_popEmpty (ls : List (List Char)) : (popEmpty ls).getLast? ≠ some [] := by
  unfold popEmpty
  rw [List.getLast?_reverse]
  intro last
  have head := List.head?_dropWhile_not List.isEmpty ls.reverse
  rw [last] at head
  simp at head

theorem popEmpty_of_getLast {ls : List (List Char)} (last : ls.getLast? ≠ some []) : popEmpty ls = ls := by
  unfold popEmpty
  cases reversed : ls.reverse with
  | nil => simp [List.reverse_eq_nil_iff.mp reversed]
  | cons line rest =>
    have final : ls.getLast? = some line := by rw [List.getLast?_eq_head?_reverse, reversed]; rfl
    have full : line ≠ [] := by
      rintro rfl
      exact last final
    rw [List.dropWhile_cons_of_neg (by simpa using full), ← reversed, List.reverse_reverse]

theorem newline_not_mem_withoutBlock {tag : List Char} {inside : Bool} {ls : List (List Char)}
    (within : ∀ line ∈ ls, '\n' ∉ line) : ∀ line ∈ withoutBlock tag inside ls, '\n' ∉ line := by
  induction ls generalizing inside with
  | nil => nofun
  | cons line rest ih =>
    have tail : ∀ inside, ∀ l ∈ withoutBlock tag inside rest, '\n' ∉ l := fun _ => ih fun l member => within l (.tail _ member)
    unfold withoutBlock
    dsimp only
    split
    · exact tail true
    · split
      · exact tail false
      · split
        · exact tail true
        · intro l member
          rcases List.mem_cons.mp member with rfl | later
          · obtain ⟨before, same⟩ := restore_sublist tag line
            intro newline
            exact within line (.head _) (by rw [same]; exact List.mem_append_right _ newline)
          · exact tail false l later

/-- A file that has no block of the tag, as it is after `removeBlock`. -/
structure Removed (text tag : List Char) : Prop where
  whole : unlines (newlineOf text) (lines text) = text
  clean : Clean (newlineOf text) (lines text)
  last : (lines text).getLast? ≠ some []
  untouched : ∀ line ∈ lines text, Untouched tag line

theorem removed_of_fixed {text tag : List Char} (fixed : removeBlock text tag = text) : Removed text tag := by
  set out := popEmpty (withoutBlock tag false (lines text)) with out_eq
  have written : unlines (newlineOf text) out = text := (removeBlock_eq text tag).symm.trans fixed
  have within : ∀ line ∈ out, '\n' ∉ line := fun line member =>
    newline_not_mem_withoutBlock (fun _ => newline_not_mem) line ((popEmpty_front _).subset member)
  have clean : Clean (newlineOf text) out := by
    refine ⟨within, fun plain line member last => ?_⟩
    rcases newlineOf_cases text with ⟨-, same⟩ | ⟨none_, -⟩
    · rw [plain] at same
      cases same
    · rw [← written, plain, crlf_infix_lf within] at none_
      exact none_ ⟨line, member, last⟩
  have read : lines text = out := by
    have again := clean.lines_unlines
    rwa [written] at again
  have popped : popEmpty (withoutBlock tag false (lines text)) = lines text := by rw [← out_eq, read]
  have whole : withoutBlock tag false (lines text) = lines text := by
    have front := popEmpty_front (withoutBlock tag false (lines text))
    rw [popped] at front
    exact (front.eq_of_length_le (length_withoutBlock _ _ _)).symm
  refine ⟨by rw [read, written], read ▸ clean, ?_, untouched_of_withoutBlock whole⟩
  rw [← popped]
  exact getLast_popEmpty _

/-! ### Files with the block at the end -/

theorem withoutBlock_disable {tag : List Char} {names ls : List (List Char)} (untouched : ∀ line ∈ ls, Untouched tag line)
    (rest : List (List Char)) :
    withoutBlock tag false (ls.map (disable tag names) ++ rest) = ls ++ withoutBlock tag false rest := by
  induction ls with
  | nil => rfl
  | cons line ls ih =>
    have here := untouched line (.head _)
    have tail := ih fun l member => untouched l (.tail _ member)
    have other : trimList (disable tag names line) ≠ beginMarker tag ∧ trimList (disable tag names line) ≠ endMarker tag := by
      unfold disable
      split
      · exact disabled_ne_marker tag tag line
      · exact ⟨here.not_begin, here.not_end⟩
    have same : restore tag (disable tag names line) = line := by
      unfold disable
      split
      · exact restore_disabled tag line
      · exact restore_other here.not_disabled
    rw [List.map_cons, List.cons_append, withoutBlock]
    simp [other, same, tail]

theorem withoutBlock_entries {tag : List Char} {addresses : Addresses} (plain : ∀ entry ∈ addresses, Plain entry)
    (rest : List (List Char)) :
    withoutBlock tag true (addresses.map entryLine ++ rest) = withoutBlock tag true rest := by
  induction addresses with
  | nil => rfl
  | cons entry addresses ih =>
    have other := (plain entry (.head _)).not_marker tag
    rw [List.map_cons, List.cons_append, withoutBlock]
    simpa [other] using ih fun e member => plain e (.tail _ member)

theorem withoutBlock_blockLines {tag : List Char} {addresses : Addresses} (plain : ∀ entry ∈ addresses, Plain entry) :
    withoutBlock tag false (blockLines tag addresses) = [] := by
  have different := (beginMarker_ne_endMarker tag tag).symm
  rw [blockLines, List.cons_append, withoutBlock, trimList_beginMarker, if_pos rfl, withoutBlock_entries plain]
  simp [withoutBlock, trimList_endMarker, different]

theorem readEntries_outside {tag : List Char} {ls : List (List Char)} {entries : Existing}
    (outside : ∀ line ∈ ls, trimList line ≠ beginMarker tag) (rest : List (List Char)) :
    readEntries tag false (ls ++ rest) entries = readEntries tag false rest entries := by
  induction ls with
  | nil => rfl
  | cons line ls ih =>
    have tail := ih fun l member => outside l (.tail _ member)
    rw [List.cons_append, readEntries]
    simp [outside line (.head _), tail]

theorem readEntries_entries {tag : List Char} {addresses : Addresses} {entries : Existing}
    (plain : ∀ entry ∈ addresses, Plain entry) (rest : List (List Char)) :
    readEntries tag true (addresses.map entryLine ++ rest) entries =
      readEntries tag true rest (addresses.foldl (fun (es : Existing) entry => Function.update es entry.1 (some entry.2)) entries) := by
  induction addresses generalizing entries with
  | nil => rfl
  | cons entry addresses ih =>
    have here := plain entry (.head _)
    rw [List.map_cons, List.cons_append, readEntries]
    simp only [here.not_marker tag, if_false, if_true]
    rw [ih fun e member => plain e (.tail _ member)]
    simp [addEntry, here.trimList_line, here.readLine_line]

theorem foldl_update {addresses : Addresses} {entries : Existing} (once : (addresses.map (·.1)).Nodup) (name : List Char) :
    addresses.foldl (fun (es : Existing) entry => Function.update es entry.1 (some entry.2)) entries name =
      (addresses.lookup name).or (entries name) := by
  induction addresses generalizing entries with
  | nil => rfl
  | cons entry addresses ih =>
    have cut := List.nodup_cons.mp once
    rw [List.foldl_cons, ih cut.2]
    by_cases same : name = entry.1
    · have absent : addresses.lookup name = none := by
        cases found : addresses.lookup name with
        | none => rfl
        | some ip =>
          have listed : name ∈ addresses.map (·.1) := List.mem_map.mpr ⟨_, mem_of_lookup found, rfl⟩
          rw [same] at listed
          exact absurd listed cut.1
      rw [absent, same, Function.update_self]
      obtain ⟨host, ip⟩ := entry
      simp
    · have other : (name == entry.1) = false := by simpa using same
      rw [Function.update_of_ne same]
      obtain ⟨host, ip⟩ := entry
      simp [List.lookup_cons, other]

/-- A file with the block of the tag at its end, over the file without it. -/
structure Merged (text tag : List Char) (addresses : Addresses) (text' : List Char) : Prop where
  newline : newlineOf text' = newlineOf text
  removed : removeBlock text' tag = text
  entries : ∀ name, existingEntries text' tag name = addresses.lookup name

section Merging
variable {text tag text' : List Char} {addresses : Addresses} {replaceExisting : Bool}

theorem Removed.dropEmptyLast_disable (h : Removed text tag) (names : List (List Char)) :
    dropEmptyLast ((lines text).map (disable tag names)) = (lines text).map (disable tag names) := by
  refine if_neg fun last => ?_
  rw [List.getLast?_map, Option.map_eq_some_iff] at last
  obtain ⟨line, final, empty⟩ := last
  unfold disable at empty
  split at empty
  · simp [disabledMarker] at empty
  · exact h.last (empty ▸ final)

theorem Removed.clean_disable (h : Removed text tag) (valid : validateTag tag = true) (names : List (List Char)) :
    Clean (newlineOf text) ((lines text).map (disable tag names)) := by
  have marker := (newline_not_mem_marker valid).2.2
  constructor
  · intro line member
    obtain ⟨l, within, rfl⟩ := List.mem_map.mp member
    unfold disable
    split
    · simpa [marker] using h.clean.within l within
    · exact h.clean.within l within
  · intro plain line member
    obtain ⟨l, within, rfl⟩ := List.mem_map.mp member
    have ends := h.clean.ends plain l within
    unfold disable
    split
    · rw [List.getLast?_append]
      cases last : l.getLast? with
      | none => simp [disabledMarker, List.getLast?_cons, List.getLast?_append]
      | some c => simpa [last] using ends
    · exact ends

/-- Whether the text has a block of the tag already makes no difference to what merging writes. -/
theorem Removed.mergeBlock_ok (h : Removed text tag) {earlier : List Char} (base : removeBlock earlier tag = text)
    (newline : newlineOf earlier = newlineOf text) :
    mergeBlock earlier tag addresses replaceExisting = .ok text' ↔
      (replaceExisting = true ∨ ∀ line ∈ lines text, mapsAny (addresses.map (·.1)) line = false) ∧
      text' = unlines (newlineOf text)
        ((lines text).map (disable tag (addresses.map (·.1))) ++ blockLines tag addresses) := by
  rw [Hosts.mergeBlock_ok, base, newline, h.dropEmptyLast_disable]

theorem Removed.merged (h : Removed text tag) (valid : validateTag tag = true) (plain : ∀ entry ∈ addresses, Plain entry)
    (once : (addresses.map (·.1)).Nodup)
    (written : text' = unlines (newlineOf text)
      ((lines text).map (disable tag (addresses.map (·.1))) ++ blockLines tag addresses)) :
    Merged text tag addresses text' := by
  have clean := (h.clean_disable valid (addresses.map (·.1))).append (clean_blockLines valid plain)
  have newline : newlineOf text' = newlineOf text := by
    rw [written]
    exact clean.newlineOf_unlines (by simp [blockLines])
  have read : lines text' = (lines text).map (disable tag (addresses.map (·.1))) ++ blockLines tag addresses := by
    rw [written]
    exact clean.lines_unlines
  refine ⟨newline, ?_, fun name => ?_⟩
  · rw [removeBlock_eq, read, newline, withoutBlock_disable h.untouched, withoutBlock_blockLines plain, List.append_nil,
      popEmpty_of_getLast h.last, h.whole]
  · have outside : ∀ line ∈ (lines text).map (disable tag (addresses.map (·.1))), trimList line ≠ beginMarker tag := by
      intro line member
      obtain ⟨l, within, rfl⟩ := List.mem_map.mp member
      unfold disable
      split
      · exact (disabled_ne_marker tag tag l).1
      · exact (h.untouched l within).not_begin
    have different := (beginMarker_ne_endMarker tag tag).symm
    rw [existingEntries, read, readEntries_outside outside, blockLines, List.cons_append, readEntries, trimList_beginMarker,
      if_pos rfl, readEntries_entries plain]
    simp [readEntries, trimList_endMarker, different, foldl_update once]

end Merging

theorem remove_merge {text tag other tag' : List Char} {hosts : List (List Char)} {addresses : Addresses} {replaceExisting : Bool}
    {text' : List Char} (valid : validateTag tag = true) (fixed : removeBlock text tag = text)
    (allocation : allocate hosts (existingEntries other tag') = some addresses)
    (applied : mergeBlock text tag addresses replaceExisting = .ok text') : removeBlock text' tag = text := by
  have removed := removed_of_fixed fixed
  have once := (allocated allocation).distinct.names
  have written := ((removed.mergeBlock_ok fixed rfl).mp applied).2
  exact (removed.merged valid (plain_of_allocate allocation) once written).removed

/-! ### A local file -/

def localText : List Char := "127.0.0.1 localhost\r\n127.0.0.1 APP.example.test # mapped by hand\r\n".toList
def localTag : List Char := "client".toList
def localHosts : List (List Char) := ["svc.example.test".toList, "App.Example.Test.".toList]
def localAddresses : Addresses :=
  [("app.example.test".toList, "127.77.170.217".toList), ("svc.example.test".toList, "127.77.89.100".toList)]

theorem merge_local : ∃ text', mergeBlock localText localTag localAddresses true = .ok text' :=
  ⟨_, mergeBlock_ok.mpr ⟨.inl rfl, rfl⟩⟩

theorem remove_merge_local : ∃ text', mergeBlock localText localTag localAddresses true = .ok text' ∧
    removeBlock text' localTag = localText := by
  obtain ⟨text', applied⟩ := merge_local
  have allocation : allocate localHosts (existingEntries [] localTag) = some localAddresses := by decide +kernel
  exact ⟨text', applied, remove_merge (by decide +kernel) (by decide +kernel) allocation applied⟩

/-! ### Applying again -/

/-- `azbridge hosts apply`: allocate, keeping what the block records, and merge. -/
def applyHosts (text tag : List Char) (hosts : List (List Char)) (replaceExisting : Bool) : Option (Except String (List Char)) :=
  (allocate hosts (existingEntries text tag)).map fun addresses => mergeBlock text tag addresses replaceExisting

theorem kept_again {hosts : List (List Char)} {existing : Existing} {recorded addresses : Addresses}
    (distinct : Distinct recorded) (plain : ∀ entry ∈ recorded, Plain entry)
    (same : ∀ name, existing name = recorded.lookup name) (allocation : allocate hosts existing = some addresses)
    {name ip : List Char} (listed : name ∈ sortedNames hosts) (held : (name, ip) ∈ recorded) : (name, ip) ∈ addresses := by
  have kept : ∀ {n i}, (n, i) ∈ recorded → keptAddress existing n = some i := by
    intro n i member
    refine Option.filter_eq_some_iff.mpr ⟨(same n).trans (lookup_of_mem distinct.names member), ?_⟩
    exact List.isPrefixOf_iff_prefix.mpr (plain _ member).alias_
  obtain ⟨owner, given, own⟩ := (allocated allocation).kept name listed ip (kept held)
  have recordedOwner : (owner, ip) ∈ recorded := by
    have applied := (Option.filter_eq_some_iff.mp own).1
    rw [same] at applied
    exact mem_of_lookup applied
  have equal := List.inj_on_of_nodup_map distinct.addresses recordedOwner held rfl
  cases equal
  exact given

theorem addresses_eq {left right : Addresses} (once : (left.map (·.1)).Nodup) (names : left.map (·.1) = right.map (·.1))
    (inside : ∀ entry ∈ left, entry ∈ right) : left = right := by
  induction left generalizing right with
  | nil => exact (List.map_eq_nil_iff.mp names.symm).symm
  | cons entry left ih =>
    cases right with
    | nil => cases names
    | cons entry' right =>
      simp only [List.map_cons, List.cons.injEq] at names
      have cut := List.nodup_cons.mp once
      have absent : ∀ ip, (entry.1, ip) ∉ right := fun ip member => cut.1 (names.2 ▸ List.mem_map.mpr ⟨_, member, rfl⟩)
      have head : entry = entry' := by
        rcases List.mem_cons.mp (inside entry (.head _)) with same | later
        · exact same
        · exact absurd later (absent entry.2)
      subst head
      refine congrArg (entry :: ·) (ih cut.2 names.2 fun e member => ?_)
      rcases List.mem_cons.mp (inside e (.tail _ member)) with rfl | later
      · exact absurd (List.mem_map.mpr ⟨_, member, rfl⟩) cut.1
      · exact later

theorem reapply_stable {text tag : List Char} {hosts hosts' : List (List Char)} {replaceExisting : Bool}
    (valid : validateTag tag = true) (fixed : removeBlock text tag = text)
    (few : (sortedNames hosts).length ≤ slots) (few' : (sortedNames hosts').length ≤ slots) :
    ∃ addresses, allocate hosts (existingEntries text tag) = some addresses ∧
      ∀ text', mergeBlock text tag addresses replaceExisting = .ok text' →
        (∀ name, existingEntries text' tag name = addresses.lookup name) ∧
        applyHosts text' tag hosts replaceExisting = some (.ok text') ∧
        (applyHosts text' tag hosts' replaceExisting).isSome = true ∧
        ∀ text'', applyHosts text' tag hosts' replaceExisting = some (.ok text'') →
          ∀ name ∈ sortedNames hosts, name ∈ sortedNames hosts' →
            existingEntries text'' tag name = existingEntries text' tag name := by
  have removed := removed_of_fixed fixed
  obtain ⟨addresses, allocation⟩ := allocate_total (existingEntries text tag) few
  have facts := allocated allocation
  have plain := plain_of_allocate allocation
  refine ⟨addresses, allocation, fun text' applied => ?_⟩
  obtain ⟨allowed, written⟩ := (removed.mergeBlock_ok fixed rfl).mp applied
  have merged := removed.merged valid plain facts.distinct.names written
  have again : ∀ {hosts'' addresses''}, allocate hosts'' (existingEntries text' tag) = some addresses'' →
      ∀ {name ip}, name ∈ sortedNames hosts'' → (name, ip) ∈ addresses → (name, ip) ∈ addresses'' :=
    kept_again facts.distinct plain merged.entries
  refine ⟨merged.entries, ?_, ?_, ?_⟩
  · obtain ⟨addresses', allocation'⟩ := allocate_total (existingEntries text' tag) few
    have equal : addresses = addresses' := by
      refine addresses_eq facts.distinct.names (facts.names.trans (allocated allocation').names.symm) ?_
      intro entry member
      exact again allocation' (facts.names ▸ List.mem_map.mpr ⟨entry, member, rfl⟩) member
    subst equal
    rw [applyHosts, allocation', Option.map_some, Option.some.injEq]
    exact (removed.mergeBlock_ok merged.removed merged.newline).mpr ⟨allowed, written⟩
  · obtain ⟨addresses', allocation'⟩ := allocate_total (existingEntries text' tag) few'
    simp [applyHosts, allocation']
  · intro text'' reapplied name listed listed'
    obtain ⟨addresses', allocation', merging⟩ := Option.map_eq_some_iff.mp reapplied
    have facts' := allocated allocation'
    have written' := ((removed.mergeBlock_ok merged.removed merged.newline).mp merging).2
    have merged' := removed.merged valid (plain_of_allocate allocation') facts'.distinct.names written'
    obtain ⟨⟨n, ip⟩, held, same⟩ := List.mem_map.mp (facts.names ▸ listed : name ∈ addresses.map (·.1))
    obtain rfl : n = name := same
    rw [merged.entries, merged'.entries, lookup_of_mem facts.distinct.names held]
    exact lookup_of_mem facts'.distinct.names (again allocation' listed' held)

theorem reapply_stable_local : ∃ text', mergeBlock localText localTag localAddresses true = .ok text' ∧
    applyHosts text' localTag localHosts true = some (.ok text') := by
  have few : (sortedNames localHosts).length ≤ slots := by decide +kernel
  obtain ⟨addresses, allocation, stable⟩ := @reapply_stable localText localTag localHosts localHosts true
    (by decide +kernel) (by decide +kernel) few few
  obtain ⟨text', applied⟩ := merge_local
  have known : allocate localHosts (existingEntries localText localTag) = some localAddresses := by decide +kernel
  obtain rfl : localAddresses = addresses := Option.some.inj (known.symm.trans allocation)
  exact ⟨text', applied, (stable text' applied).2.1⟩

end Azbridge.Hosts
