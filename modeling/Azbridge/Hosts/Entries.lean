import Azbridge.Hosts.File

/-!
# Lines of a block

Markers, commented-out lines and the lines of a block are told apart after trimming, and what is
written for an entry is read back as it was.
-/

namespace Azbridge.Hosts
open Lines Text

/-- A line that begins with this character still does after trimming. -/
theorem trimList_cons {c : Char} (first : isWhitespace c = false) (cs : List Char) :
    ∃ rest, trimList (c :: cs) = c :: rest ∧ rest <+: cs := by
  unfold trimList
  simp only [List.dropWhile_cons, first, Bool.false_eq_true, if_false, List.reverse_cons]
  rw [List.dropWhile_append]
  split
  · exact ⟨[], by simp [first], List.nil_prefix⟩
  · refine ⟨(cs.reverse.dropWhile isWhitespace).reverse, by simp, ?_⟩
    exact List.reverse_suffix.mp (by simpa using List.dropWhile_suffix _)

theorem beginMarker_eq (tag : List Char) : ∃ rest, beginMarker tag = '#' :: (' ' :: rest ++ ['>']) :=
  ⟨['>', '>', '>', ' '] ++ azbridge ++ [' '] ++ tag ++ [' ', '>', '>'], by simp [beginMarker]⟩

theorem endMarker_eq (tag : List Char) : ∃ rest, endMarker tag = '#' :: (' ' :: rest ++ ['<']) :=
  ⟨['<', '<', '<', ' '] ++ azbridge ++ [' '] ++ tag ++ [' ', '<', '<'], by simp [endMarker]⟩

theorem disabledMarker_eq (tag : List Char) : ∃ rest, disabledMarker tag = '#' :: 'a' :: rest := by
  simp [disabledMarker, azbridge]

theorem trimList_beginMarker (tag : List Char) : trimList (beginMarker tag) = beginMarker tag := by
  obtain ⟨rest, same⟩ := beginMarker_eq tag
  rw [same]
  exact trimList_between _ rfl rfl

theorem trimList_endMarker (tag : List Char) : trimList (endMarker tag) = endMarker tag := by
  obtain ⟨rest, same⟩ := endMarker_eq tag
  rw [same]
  exact trimList_between _ rfl rfl

theorem beginMarker_injective {tag tag' : List Char} (h : beginMarker tag = beginMarker tag') : tag = tag' := by
  unfold beginMarker at h
  exact List.append_cancel_left (List.append_cancel_right h)

theorem endMarker_injective {tag tag' : List Char} (h : endMarker tag = endMarker tag') : tag = tag' := by
  unfold endMarker at h
  exact List.append_cancel_left (List.append_cancel_right h)

theorem beginMarker_ne_endMarker (tag tag' : List Char) : beginMarker tag ≠ endMarker tag' := by
  intro h
  simp [beginMarker, endMarker] at h

theorem disabled_ne_marker (tag tag' rest : List Char) :
    trimList (disabledMarker tag ++ rest) ≠ beginMarker tag' ∧ trimList (disabledMarker tag ++ rest) ≠ endMarker tag' := by
  obtain ⟨start, disabled⟩ := disabledMarker_eq tag
  obtain ⟨opened, begin_⟩ := beginMarker_eq tag'
  obtain ⟨closed, end_⟩ := endMarker_eq tag'
  rw [disabled, begin_, end_, List.cons_append]
  obtain ⟨tail, same, before⟩ := trimList_cons (c := '#') rfl ('a' :: start ++ rest)
  rw [same]
  cases tail with
  | nil => simp
  | cons c tail =>
    have head : c = 'a' := (List.cons_prefix_cons.mp before).1
    simp [head]

theorem restore_disabled (tag line : List Char) : restore tag (disabledMarker tag ++ line) = line := by
  simp [restore, stripPrefixList_append]

theorem restore_other {tag line : List Char} (other : ¬ disabledMarker tag <+: line) : restore tag line = line := by
  have none_ : stripPrefixList (disabledMarker tag) line = none := by
    unfold stripPrefixList
    rw [if_neg (fun h => other (List.isPrefixOf_iff_prefix.mp h))]
  simp [restore, none_]

theorem restore_sublist (tag line : List Char) : ∃ before, line = before ++ restore tag line := by
  by_cases disabled : disabledMarker tag <+: line
  · obtain ⟨rest, rfl⟩ := disabled
    exact ⟨disabledMarker tag, by rw [restore_disabled]⟩
  · exact ⟨[], by rw [restore_other disabled]; rfl⟩

/-- Removing the block of the tag leaves the line where and as it is. -/
structure Untouched (tag line : List Char) : Prop where
  not_begin : trimList line ≠ beginMarker tag
  not_end : trimList line ≠ endMarker tag
  not_disabled : ¬ disabledMarker tag <+: line

/-- An entry as `allocate` makes them. -/
structure Plain (entry : List Char × List Char) : Prop where
  name : IsName entry.1
  solid : Solid entry.2
  alias_ : addressPrefix ++ ['.'] <+: entry.2

theorem solid_of_readLine {line name ip : List Char} (h : readLine line = some (name, ip)) : Solid ip := by
  unfold readLine at h
  cases words : splitWhitespace line with
  | nil => simp [words] at h
  | cons word rest =>
    cases rest with
    | nil => simp [words] at h
    | cons word' rest =>
      simp only [words, Option.some.injEq, Prod.mk.injEq] at h
      exact h.2 ▸ solid_of_mem_splitWhitespace (words ▸ List.mem_cons_self)

theorem addEntry_solid {entries : Existing} {line : List Char} (start : ∀ name ip, entries name = some ip → Solid ip) :
    ∀ name ip, addEntry entries line name = some ip → Solid ip := by
  intro name ip held
  unfold addEntry at held
  cases read : readLine line with
  | none =>
    rw [read] at held
    exact start name ip held
  | some entry =>
    rw [read] at held
    dsimp only at held
    by_cases same : name = entry.1
    · subst same
      rw [Function.update_self, Option.some.injEq] at held
      exact held ▸ solid_of_readLine read
    · rw [Function.update_of_ne same] at held
      exact start name ip held

theorem readEntries_solid {tag : List Char} {inside : Bool} {ls : List (List Char)} {entries : Existing}
    (start : ∀ name ip, entries name = some ip → Solid ip) :
    ∀ name ip, readEntries tag inside ls entries name = some ip → Solid ip := by
  induction ls generalizing inside entries with
  | nil => exact start
  | cons line rest ih =>
    unfold readEntries
    dsimp only
    split
    · exact ih start
    · split
      · exact ih start
      · split
        · exact ih (addEntry_solid start)
        · exact ih start

theorem plain_of_allocate {hosts : List (List Char)} {text tag : List Char} {addresses : Addresses}
    (h : allocate hosts (existingEntries text tag) = some addresses) : ∀ entry ∈ addresses, Plain entry := by
  have facts := allocated h
  intro entry member
  have listed : entry.1 ∈ sortedNames hosts := facts.names ▸ List.mem_map.mpr ⟨entry, member, rfl⟩
  have name : IsName entry.1 := isName_of_mem listed
  rcases facts.source entry member with kept | ⟨slot, -, -, same⟩
  · obtain ⟨applied, inRange⟩ := Option.filter_eq_some_iff.mp kept
    exact ⟨name, readEntries_solid (by simp) _ _ applied, List.isPrefixOf_iff_prefix.mp inRange⟩
  · refine ⟨name, same ▸ solid_of_nameChar slotAddress_chars, same ▸ ?_⟩
    exact ⟨Nat.toDigits 10 (slot >>> 8) ++ '.' :: Nat.toDigits 10 (slot &&& 255), by simp [slotAddress]⟩

namespace Plain
variable {entry : List Char × List Char} (h : Plain entry)
include h

theorem line_cons : ∃ rest, entryLine entry = '1' :: rest := by
  obtain ⟨rest, same⟩ := h.alias_
  simp [entryLine, ← same, addressPrefix]

theorem newline_not_mem : '\n' ∉ entryLine entry := by
  intro member
  rcases List.mem_append.mp member with ip | name
  · exact absurd (h.solid _ ip) (by decide)
  · rcases List.mem_cons.mp name with space | name
    · exact absurd space (by decide)
    · exact absurd (h.name.solid _ name) (by decide)

theorem getLast : (entryLine entry).getLast? ≠ some '\r' := by
  intro last
  obtain ⟨before, split⟩ := List.getLast?_eq_some_iff.mp last
  obtain ⟨front, end_, same⟩ := List.eq_nil_or_concat entry.1 |>.resolve_left h.name.ne_nil
  have final : (entryLine entry).getLast? = some end_ := by simp [entryLine, same, List.getLast?_cons]
  have blank := h.name.solid end_ (by simp [same])
  rw [last, Option.some.injEq] at final
  subst final
  exact absurd blank (by decide)

theorem trimList_line : trimList (entryLine entry) = entryLine entry := by
  obtain ⟨rest, same⟩ := h.alias_
  obtain ⟨front, end_, name⟩ := List.eq_nil_or_concat entry.1 |>.resolve_left h.name.ne_nil
  have last := h.name.solid end_ (by simp [name])
  have shape : entryLine entry = '1' :: ((['2', '7', '.', '7', '7', '.'] ++ rest ++ ' ' :: front) ++ [end_]) := by
    simp [entryLine, ← same, name, addressPrefix]
  rw [shape]
  exact trimList_between _ rfl last

theorem readLine_line : readLine (entryLine entry) = some entry := by
  have some_ : entry.2 ≠ [] := by
    intro empty
    have start := h.alias_
    rw [empty] at start
    simp at start
  have words : splitWhitespace (entryLine entry) = [entry.2, entry.1] := by
    rw [entryLine, splitWhitespace_append h.solid some_, splitWhitespace_of_solid h.name.solid h.name.ne_nil]
  simp [readLine, words, h.name.normal]

theorem not_marker (tag : List Char) : trimList (entryLine entry) ≠ beginMarker tag ∧ trimList (entryLine entry) ≠ endMarker tag := by
  obtain ⟨rest, same⟩ := h.line_cons
  obtain ⟨opened, begin_⟩ := beginMarker_eq tag
  obtain ⟨closed, end_⟩ := endMarker_eq tag
  rw [h.trimList_line, same, begin_, end_]
  simp

theorem not_disabled (tag : List Char) : ¬ disabledMarker tag <+: entryLine entry := by
  obtain ⟨rest, same⟩ := h.line_cons
  obtain ⟨start, disabled⟩ := disabledMarker_eq tag
  rw [same, disabled]
  simp

end Plain
end Azbridge.Hosts
