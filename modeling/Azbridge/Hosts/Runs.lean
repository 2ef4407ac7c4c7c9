import Mathlib.Data.List.TakeWhile
import Azbridge.Hosts.Blocks
import Azbridge.Hosts.Placement

/-!
# Runs on one hosts file

Each run allocates addresses for its own tag and knows only those that its own block records. Two
hostnames share an address where a fresh name is placed in a slot that another tag's block lists.
-/

namespace Azbridge.Hosts
open Lines Text Probing

inductive Command where
  | apply (tag : List Char) (hosts : List (List Char)) (replaceExisting : Bool)
  | remove (tag : List Char)

/-- A run of the command that goes through. One that fails leaves the file as it is. -/
inductive Performs (text : List Char) : Command → List Char → Prop
  | apply {tag : List Char} {hosts : List (List Char)} {replaceExisting : Bool} {text' : List Char} (valid : validateTag tag = true)
      (mapped : hosts ≠ []) (applied : applyHosts text tag hosts replaceExisting = some (.ok text')) :
      Performs text (.apply tag hosts replaceExisting) text'
  | remove {tag : List Char} (valid : validateTag tag = true) : Performs text (.remove tag) (removeBlock text tag)

/-- The line maps the hostname, though another tag may have commented it out. -/
def Carries (line : List Char) (entry : List Char × List Char) : Prop :=
  ∃ content, (content = line ∨ ∃ by_, validateTag by_ = true ∧ line = disabledMarker by_ ++ content) ∧
    readLine (content.takeWhile (· != '#')) = some entry

/-- The block of the tag lists the hostname with the address. -/
def Lists (text tag : List Char) (entry : List Char × List Char) : Prop :=
  ∃ line ∈ inBlocks tag false (lines text), Carries line entry

/-- Two hostnames in blocks of the file never have the same address. -/
def OwnAddresses (text : List Char) : Prop :=
  ∀ tag other, validateTag tag = true → validateTag other = true → ∀ entry entry',
    Lists text tag entry → Lists text other entry' → entry.2 = entry'.2 → entry.1 = entry'.1

/-- The file has no azbridge block. -/
def NoBlock (text : List Char) : Prop := ∀ line ∈ lines text, opening line = none

/-- No line that the tag commented out is a begin marker. -/
def RevealsNone (text tag : List Char) : Prop := ∀ rest, disabledMarker tag ++ rest ∈ lines text → opening rest = none

/-- No slot that another tag's block lists for a hostname is filled by a fresh name, unless by this hostname. -/
def SparesOthers (text tag : List Char) (hosts : List (List Char)) : Prop :=
  ∀ other, validateTag other = true → other ≠ tag → ∀ entry, Lists text other entry →
    ∀ position < slots, entry.2 = slotAddress (position + 1) →
      Spares slots firstPosition (keptSlot (existingEntries text tag) hosts) (freshNames (existingEntries text tag) hosts)
        position entry.1

def Careful (text : List Char) : Command → Prop
  | .apply tag hosts _ => RevealsNone text tag ∧ SparesOthers text tag hosts
  | .remove tag => RevealsNone text tag

/-- The files that careful runs lead to. -/
inductive Reached (first : List Char) : List Char → Prop
  | first : Reached first first
  | step {text text' : List Char} {command : Command} (before : Reached first text) (performs : Performs text command text')
      (careful : Careful text command) : Reached first text'

/-! ### Lines of a block -/

/-- A hostname with the address of a slot. -/
structure Mapped (entry : List Char × List Char) : Prop where
  name : IsName entry.1
  slot : ∃ position < slots, entry.2 = slotAddress (position + 1)

/-- What stands in a block of the tag: its begin marker, and entries that other tags may have commented out. -/
def BlockLine (tag line : List Char) : Prop :=
  trimList line = beginMarker tag ∨ ∃ entry, Mapped entry ∧
    (line = entryLine entry ∨ ∃ by_, validateTag by_ = true ∧ by_ ≠ tag ∧ line = disabledMarker by_ ++ entryLine entry)

theorem Mapped.plain {entry : List Char × List Char} (h : Mapped entry) : Plain entry := by
  obtain ⟨position, -, same⟩ := h.slot
  refine ⟨h.name, same ▸ solid_of_nameChar slotAddress_chars, same ▸ ?_⟩
  exact ⟨Nat.toDigits 10 ((position + 1) >>> 8) ++ '.' :: Nat.toDigits 10 ((position + 1) &&& 255), by simp [slotAddress]⟩

theorem Mapped.hash_not_mem {entry : List Char × List Char} (h : Mapped entry) : '#' ∉ entryLine entry := by
  obtain ⟨position, -, same⟩ := h.slot
  intro member
  rcases List.mem_append.mp member with ip | name
  · rw [same] at ip
    exact absurd (slotAddress_chars _ ip) (by decide)
  · rcases List.mem_cons.mp name with space | name
    · exact absurd space (by decide)
    · exact absurd (h.name.chars _ name) (by decide)

theorem disabledMarker_injective {tag other rest rest' : List Char} (valid : validateTag tag = true)
    (validOther : validateTag other = true) (same : disabledMarker tag ++ rest = disabledMarker other ++ rest') :
    tag = other ∧ rest = rest' := by
  have within : ∀ {t : List Char}, validateTag t = true → ∀ c ∈ t, (c != ']') = true := by
    intro t v c member
    have all := List.all_eq_true.mp (Bool.and_eq_true_iff.mp v).2 c member
    simp only [bne_iff_ne, ne_eq]
    rintro rfl
    exact absurd all (by decide)
  have tails : tag ++ ([']', ':', ' '] ++ rest) = other ++ ([']', ':', ' '] ++ rest') := by
    simpa [disabledMarker] using same
  have named := congrArg (List.takeWhile (· != ']')) tails
  rw [List.takeWhile_append_of_pos (within valid), List.takeWhile_append_of_pos (within validOther)] at named
  obtain rfl : tag = other := by simpa using named
  exact ⟨rfl, by simpa using tails⟩

section Carrying
variable {entry carried : List Char × List Char}

theorem carries_entry (h : Mapped entry) : Carries (entryLine entry) carried ↔ carried = entry := by
  have read : readLine ((entryLine entry).takeWhile (· != '#')) = some entry := by
    have whole : (entryLine entry).takeWhile (· != '#') = entryLine entry := by
      refine List.takeWhile_eq_self_iff.mpr fun c member => ?_
      simp only [bne_iff_ne, ne_eq]
      rintro rfl
      exact h.hash_not_mem member
    rw [whole, h.plain.readLine_line]
  constructor
  · rintro ⟨content, rfl | ⟨by_, -, same⟩, held⟩
    · rw [read, Option.some.injEq] at held
      exact held.symm
    · exact absurd ⟨content, same.symm⟩ (h.plain.not_disabled by_)
  · rintro rfl
    exact ⟨_, .inl rfl, read⟩

theorem carries_disabled {by_ : List Char} (valid : validateTag by_ = true) (h : Mapped entry) :
    Carries (disabledMarker by_ ++ entryLine entry) carried ↔ carried = entry := by
  constructor
  · rintro ⟨content, rfl | ⟨by', valid', same⟩, held⟩
    · rw [readLine, words_disabled] at held
      cases held
    · obtain ⟨-, rfl⟩ := disabledMarker_injective valid valid' same
      exact (carries_entry h).mp ⟨_, .inl rfl, held⟩
  · rintro rfl
    obtain ⟨content, rfl | ⟨by', -, same⟩, held⟩ := (carries_entry h).mpr rfl
    · exact ⟨_, .inr ⟨by_, valid, rfl⟩, held⟩
    · exact absurd ⟨content, same.symm⟩ (h.plain.not_disabled by')

theorem not_carries_marker {tag line : List Char} (h : trimList line = beginMarker tag ∨ trimList line = endMarker tag) :
    ¬ Carries line carried := by
  rintro ⟨content, rfl | ⟨by_, -, rfl⟩, held⟩
  · rw [readLine, words_marker h] at held
    cases held
  · have other := disabled_ne_marker by_ tag content
    exact h.elim other.1 other.2

end Carrying

namespace BlockLine
variable {tag line : List Char} (h : BlockLine tag line)
include h

theorem not_end (other : List Char) : trimList line ≠ endMarker other := by
  rcases h with begins | ⟨entry, mapped, rfl | ⟨by_, -, -, rfl⟩⟩
  · exact fun ends => beginMarker_ne_endMarker tag other (begins.symm.trans ends)
  · exact (mapped.plain.not_marker other).2
  · exact (disabled_ne_marker by_ other _).2

theorem mapped {entry : List Char × List Char} (carries : Carries line entry) : Mapped entry := by
  rcases h with begins | ⟨own, mapped, rfl | ⟨by_, valid, -, rfl⟩⟩
  · exact absurd carries (not_carries_marker (.inl begins))
  · exact (carries_entry mapped).mp carries ▸ mapped
  · exact (carries_disabled valid mapped).mp carries ▸ mapped

theorem restored {other : List Char} (valid : validateTag other = true) :
    BlockLine tag (restore other line) ∧ ∀ entry, Carries (restore other line) entry → Carries line entry := by
  rcases h with begins | ⟨own, mapped, rfl | ⟨by_, validBy, different, rfl⟩⟩
  · rw [restore_marker (.inl begins)]
    exact ⟨.inl begins, fun _ carries => carries⟩
  · rw [restore_other (mapped.plain.not_disabled other)]
    exact ⟨.inr ⟨own, mapped, .inl rfl⟩, fun _ carries => carries⟩
  · by_cases same : by_ = other
    · subst same
      rw [restore_disabled]
      exact ⟨.inr ⟨own, mapped, .inl rfl⟩, fun _ carries =>
        (carries_disabled valid mapped).mpr ((carries_entry mapped).mp carries)⟩
    · have apart : ¬ disabledMarker other <+: disabledMarker by_ ++ entryLine own := by
        rintro ⟨rest, prefixed⟩
        exact same (disabledMarker_injective valid validBy prefixed).1.symm
      rw [restore_other apart]
      exact ⟨.inr ⟨own, mapped, .inr ⟨by_, validBy, different, rfl⟩⟩, fun _ carries => carries⟩

/-- Nor does commenting it out. -/
theorem disabled {other : List Char} (valid : validateTag other = true) (different : other ≠ tag) (names : List (List Char)) :
    BlockLine tag (disable other names line) ∧ ∀ entry, Carries (disable other names line) entry → Carries line entry := by
  unfold disable
  rcases h with begins | ⟨own, mapped, rfl | ⟨by_, validBy, different', rfl⟩⟩
  · rw [mapsAny_marker (.inl begins)]
    exact ⟨.inl begins, fun _ carries => carries⟩
  · split
    · exact ⟨.inr ⟨own, mapped, .inr ⟨other, valid, different, rfl⟩⟩, fun _ carries =>
        (carries_entry mapped).mpr ((carries_disabled valid mapped).mp carries)⟩
    · exact ⟨.inr ⟨own, mapped, .inl rfl⟩, fun _ carries => carries⟩
  · rw [mapsAny_disabled]
    exact ⟨.inr ⟨own, mapped, .inr ⟨by_, validBy, different', rfl⟩⟩, fun _ carries => carries⟩

/-- Nor does writing it and reading it again. -/
theorem settled (newline : List Char) :
    BlockLine tag (settle newline line) ∧ ∀ entry, Carries (settle newline line) entry → Carries line entry := by
  have kept : ∀ {l : List Char}, l.getLast? ≠ some '\r' → settle newline l = l := by
    intro l plain
    unfold settle
    split
    · rfl
    · exact chomp_of_getLast plain
  rcases h with begins | ⟨own, mapped, rfl | ⟨by_, validBy, different, rfl⟩⟩
  · have begins' := begins
    rw [← trimList_settle newline] at begins'
    exact ⟨.inl begins', fun _ carries => absurd carries (not_carries_marker (.inl begins'))⟩
  · rw [kept mapped.plain.getLast]
    exact ⟨.inr ⟨own, mapped, .inl rfl⟩, fun _ carries => carries⟩
  · have last : (disabledMarker by_ ++ entryLine own).getLast? ≠ some '\r' := by
      obtain ⟨rest, same⟩ := mapped.plain.line_cons
      have plain := mapped.plain.getLast
      rw [same] at plain ⊢
      simpa [List.getLast?_append, List.getLast?_cons] using plain
    rw [kept last]
    exact ⟨.inr ⟨own, mapped, .inr ⟨by_, validBy, different, rfl⟩⟩, fun _ carries => carries⟩

end BlockLine

/-! ### Files that runs lead to -/

/-- A well formed file of which the blocks hold entries, and no address is that of two hostnames. -/
structure Sound (text : List Char) : Prop where
  formed : wellFormed none (lines text) = true
  block : ∀ tag, validateTag tag = true → ∀ line ∈ inBlocks tag false (lines text), BlockLine tag line
  own : OwnAddresses text

/-- The lines are those of a well formed file without a block of the tag, and the blocks of the other
tags list nothing that they did not list in the text. -/
structure Without (text tag : List Char) (ls : List (List Char)) : Prop where
  formed : wellFormed none ls = true
  none_ : ∀ line ∈ ls, trimList line ≠ beginMarker tag
  block : ∀ other, validateTag other = true → other ≠ tag → ∀ line ∈ inBlocks other false ls,
    BlockLine other line ∧ ∀ entry, Carries line entry → Lists text other entry

theorem sound_of_noBlock {text : List Char} (h : NoBlock text) : Sound text := by
  have empty : ∀ tag, validateTag tag = true → inBlocks tag false (lines text) = [] := by
    intro tag valid
    refine inBlocks_eq_nil fun line member begins => ?_
    have opened := opening_eq_some.mpr ⟨valid, begins⟩
    rw [h line member] at opened
    cases opened
  refine ⟨?_, fun tag valid line member => ?_, fun tag other valid _ entry _ ⟨line, member, _⟩ => ?_⟩
  · have unopened : ∀ line ∈ lines text, opening line = none := h
    generalize lines text = ls at unopened
    induction ls with
    | nil => rfl
    | cons line rest ih =>
      rw [wellFormed, nextBlock, unopened line (.head _), goesOn, Bool.true_and]
      exact ih fun l member => unopened l (.tail _ member)
  · rw [empty tag valid] at member
    cases member
  · rw [empty tag valid] at member
    cases member

theorem carried_blockLines {tag line : List Char} {addresses : Addresses} (mapped : ∀ entry ∈ addresses, Mapped entry)
    (h : line ∈ blockLines tag addresses) : ∀ entry, Carries line entry → entry ∈ addresses := by
  intro carried carries
  simp only [blockLines, List.cons_append, List.mem_cons, List.mem_append, List.mem_map, List.not_mem_nil, or_false] at h
  rcases h with rfl | ⟨entry, listed, rfl⟩ | rfl
  · exact absurd carries (not_carries_marker (.inl (trimList_beginMarker tag)))
  · exact (carries_entry (mapped entry listed)).mp carries ▸ listed
  · exact absurd carries (not_carries_marker (.inr (trimList_endMarker tag)))

theorem mapped_blockLines {tag line : List Char} {addresses : Addresses} (mapped : ∀ entry ∈ addresses, Mapped entry)
    (h : line ∈ inBlocks tag false (blockLines tag addresses)) :
    BlockLine tag line ∧ ∀ entry, Carries line entry → entry ∈ addresses := by
  obtain ⟨before, after, split, opened⟩ := mem_inBlocks.mp h
  have member : line ∈ blockLines tag addresses := split ▸ List.mem_append_right _ (.head _)
  refine ⟨?_, carried_blockLines mapped member⟩
  simp only [blockLines, List.cons_append, List.mem_cons, List.mem_append, List.mem_map, List.not_mem_nil, or_false] at member
  rcases member with rfl | ⟨entry, listed, rfl⟩ | rfl
  · exact .inl (trimList_beginMarker tag)
  · exact .inr ⟨entry, mapped entry listed, .inl rfl⟩
  · rw [insideNext_end (trimList_endMarker tag)] at opened
    cases opened

section Stepping
variable {text tag : List Char} (valid : validateTag tag = true)
include valid

theorem Sound.removed (h : Sound text) (reveals : RevealsNone text tag) : Without text tag (lines (removeBlock text tag)) := by
  have outer : ∀ line ∈ outsideBlocks tag false (lines text), disabledMarker tag <+: line → opening (restore tag line) = none := by
    rintro _ member ⟨rest, rfl⟩
    rw [restore_disabled]
    exact reveals rest (outsideBlocks_subset _ member)
  have inner : ∀ other, validateTag other = true → ∀ line ∈ inBlocks other false (lines text),
      disabledMarker tag <+: line → trimList (restore tag line) ≠ endMarker other :=
    fun other validOther line member _ => ((h.block other validOther line member).restored valid).1.not_end other
  obtain ⟨blanks, blank, split⟩ := popEmpty_blank (withoutBlock tag false (lines text))
  have keeps := fun other => keepsMarkers_settle other (newlineOf text)
  rw [lines_removeBlock]
  refine ⟨?_, ?_, ?_⟩
  · have formed := @wellFormed_withoutBlock tag valid none _ nofun h.formed (fun other validOther _ => inner other validOther) outer
    simp only [Option.filter_none, reduceCtorEq, decide_false] at formed
    rw [split] at formed
    rw [wellFormed_map keeps]
    exact wellFormed_of_blank blank formed
  · intro line member begins
    obtain ⟨l, popped, rfl⟩ := List.mem_map.mp member
    rw [trimList_settle] at begins
    have kept := (popEmpty_front _).subset popped
    rw [withoutBlock_eq] at kept
    obtain ⟨l', outside, rfl⟩ := List.mem_map.mp kept
    by_cases disabled : disabledMarker tag <+: l'
    · have opened := opening_eq_some.mpr ⟨valid, begins⟩
      rw [outer l' outside disabled] at opened
      cases opened
    · rw [restore_other disabled] at begins
      exact not_begin_of_outside outside begins
  · intro other validOther different line member
    have kept := @inBlocks_withoutBlock tag other valid validOther different none _ h.formed
      (fun line member => ⟨(h.block other validOther line member).not_end tag, inner other validOther line member⟩)
      (fun line member disabled begins => by
        have opened := opening_eq_some.mpr ⟨validOther, begins⟩
        rw [outer line member disabled] at opened
        cases opened)
    simp only [reduceCtorEq, decide_false] at kept
    rw [split] at kept
    rw [(keeps other).inBlocks, (inBlocks_blank blank kept.2).1, kept.1, List.map_map] at member
    obtain ⟨l, listed, rfl⟩ := List.mem_map.mp member
    obtain ⟨restored, carried⟩ := (h.block other validOther l listed).restored valid
    obtain ⟨settled, carried'⟩ := restored.settled (newlineOf text)
    exact ⟨settled, fun entry carries => ⟨l, listed, carried entry (carried' entry carries)⟩⟩

theorem Without.merged {ls : List (List Char)} (h : Without text tag ls) (within : ∀ line ∈ ls, '\n' ∉ line) {addresses : Addresses}
    (mapped : ∀ entry ∈ addresses, Mapped entry) {text' : List Char}
    (written : text' = unlines (newlineOf text)
      (dropEmptyLast (ls.map (disable tag (addresses.map (·.1)))) ++ blockLines tag addresses)) :
    wellFormed none (lines text') = true ∧
    (∀ line ∈ inBlocks tag false (lines text'), BlockLine tag line ∧ ∀ entry, Carries line entry → entry ∈ addresses) ∧
    ∀ other, validateTag other = true → other ≠ tag → ∀ line ∈ inBlocks other false (lines text'),
      BlockLine other line ∧ ∀ entry, Carries line entry → Lists text other entry := by
  have plain : ∀ entry ∈ addresses, Plain entry := fun entry member => (mapped entry member).plain
  have disables := fun other => keepsMarkers_disable tag other (addresses.map (·.1))
  have keeps := fun other => keepsMarkers_settle other (newlineOf text)
  obtain ⟨blanks, blank, split⟩ := dropEmptyLast_blank (ls.map (disable tag (addresses.map (·.1))))
  have clean : ∀ line ∈ dropEmptyLast (ls.map (disable tag (addresses.map (·.1)))) ++ blockLines tag addresses, '\n' ∉ line := by
    intro line member
    rcases List.mem_append.mp member with old | new
    · have source : line ∈ ls.map (disable tag (addresses.map (·.1))) := split ▸ List.mem_append_left _ old
      obtain ⟨l, listed, rfl⟩ := List.mem_map.mp source
      unfold disable
      split
      · simp [(newline_not_mem_marker valid).2.2, within l listed]
      · exact within l listed
    · have block : Clean lf (blockLines tag addresses) := clean_blockLines valid plain
      exact block.within line new
  have formed : wellFormed none (dropEmptyLast (ls.map (disable tag (addresses.map (·.1))))) = true := by
    have whole := (wellFormed_map disables none ls).trans h.formed
    rw [split] at whole
    exact wellFormed_of_blank blank whole
  have closed : ∀ other, validateTag other = true →
      inBlocks other false (dropEmptyLast (ls.map (disable tag (addresses.map (·.1))))) =
        (inBlocks other false ls).map (disable tag (addresses.map (·.1))) ∧
      insideAfter other false (dropEmptyLast (ls.map (disable tag (addresses.map (·.1))))) = false := by
    intro other validOther
    have ends := ((disables other).insideAfter ls).trans (closed_of_wellFormed validOther h.formed)
    rw [split] at ends
    have dropped := inBlocks_blank blank ends
    rw [← split, (disables other).inBlocks] at dropped
    exact dropped
  rw [written, lines_unlines clean]
  refine ⟨?_, ?_, ?_⟩
  · rw [wellFormed_map keeps]
    exact wellFormed_append formed (wellFormed_blockLines valid plain)
  · intro line member
    rw [(keeps tag).inBlocks, inBlocks_append, (closed tag valid).1, (closed tag valid).2, inBlocks_eq_nil h.none_,
      List.map_nil, List.nil_append] at member
    obtain ⟨l, listed, rfl⟩ := List.mem_map.mp member
    obtain ⟨block, carried⟩ := mapped_blockLines mapped listed
    obtain ⟨settled, carried'⟩ := block.settled (newlineOf text)
    exact ⟨settled, fun entry carries => carried entry (carried' entry carries)⟩
  · intro other validOther different line member
    rw [(keeps other).inBlocks, inBlocks_append, (closed other validOther).1, (closed other validOther).2,
      inBlocks_blockLines different plain, List.append_nil, List.map_map] at member
    obtain ⟨l, listed, rfl⟩ := List.mem_map.mp member
    obtain ⟨block, lists⟩ := h.block other validOther different l listed
    obtain ⟨disabled, carried⟩ := block.disabled valid different.symm (addresses.map (·.1))
    obtain ⟨settled, carried'⟩ := disabled.settled (newlineOf text)
    exact ⟨settled, fun entry carries => lists entry (carried entry (carried' entry carries))⟩

end Stepping

theorem mem_of_readEntries {ls : List (List Char)} {entries : Existing} {name ip : List Char}
    (h : ls.foldl (fun (es : Existing) line => addEntry es (trimList line)) entries name = some ip) :
    entries name = some ip ∨ ∃ line ∈ ls, readLine (trimList line) = some (name, ip) := by
  induction ls generalizing entries with
  | nil => exact .inl h
  | cons line rest ih =>
    rcases ih h with here | ⟨l, member, read⟩
    · unfold addEntry at here
      dsimp only at here
      cases read : readLine (trimList line) with
      | none =>
        rw [read] at here
        exact .inl here
      | some entry =>
        rw [read] at here
        dsimp only at here
        by_cases same : name = entry.1
        · rw [same, Function.update_self, Option.some.injEq] at here
          exact .inr ⟨line, .head _, by rw [read, same, ← here]⟩
        · rw [Function.update_of_ne same] at here
          exact .inl here
    · exact .inr ⟨l, .tail _ member, read⟩

/-- A line that begins with a character that is not white space records an address that does. -/
theorem readLine_cons {c : Char} {rest name ip : List Char} (solid : isWhitespace c = false)
    (h : readLine (c :: rest) = some (name, ip)) : ∃ tail, ip = c :: tail := by
  have words : ∃ tail others, splitWhitespace (c :: rest) = (c :: tail) :: others := by
    unfold splitWhitespace
    rw [List.splitOnP_cons_eq_if_modifyHead, if_neg (by simp [solid])]
    cases split : rest.splitOnP isWhitespace with
    | nil => exact absurd split (List.splitOnP_ne_nil _ _)
    | cons head others => exact ⟨head, others.filter fun word => !word.isEmpty, by simp⟩
  obtain ⟨tail, others, split⟩ := words
  rw [readLine, split] at h
  cases others with
  | nil => cases h
  | cons second others =>
    simp only [Option.some.injEq, Prod.mk.injEq] at h
    exact ⟨tail, h.2.symm⟩

theorem Sound.kept {text tag : List Char} (h : Sound text) (valid : validateTag tag = true) {name ip : List Char}
    (kept : keptAddress (existingEntries text tag) name = some ip) : Lists text tag (name, ip) := by
  obtain ⟨applied, inRange⟩ := Option.filter_eq_some_iff.mp kept
  rw [existingEntries, readEntries_eq] at applied
  rcases mem_of_readEntries applied with impossible | ⟨line, member, read⟩
  · cases impossible
  obtain ⟨listed, notBegin⟩ := List.mem_filter.mp member
  rcases h.block tag valid line listed with begins | ⟨entry, mapped, rfl | ⟨by_, -, -, rfl⟩⟩
  · simp [begins] at notBegin
  · rw [mapped.plain.trimList_line, mapped.plain.readLine_line, Option.some.injEq] at read
    exact ⟨_, listed, (carries_entry mapped).mpr read.symm⟩
  · obtain ⟨rest, same⟩ := disabledMarker_eq by_
    obtain ⟨tail, trimmed, -⟩ := @trimList_cons '#' rfl ('a' :: rest ++ entryLine entry)
    rw [same, List.cons_append, trimmed] at read
    obtain ⟨tail, rfl⟩ := readLine_cons rfl read
    simp [addressPrefix] at inRange

/-! ### Every run -/

theorem Sound.remove {text tag : List Char} (h : Sound text) (valid : validateTag tag = true) (reveals : RevealsNone text tag) :
    Sound (removeBlock text tag) := by
  have base := h.removed valid reveals
  have others : ∀ other, validateTag other = true → ∀ line ∈ inBlocks other false (lines (removeBlock text tag)),
      BlockLine other line ∧ ∀ entry, Carries line entry → Lists text other entry := by
    intro other validOther line member
    by_cases same : other = tag
    · rw [same, inBlocks_eq_nil base.none_] at member
      cases member
    · exact base.block other validOther same line member
  refine ⟨base.formed, fun other validOther line member => (others other validOther line member).1, ?_⟩
  intro one other validOne validOther entry entry' ⟨line, member, carries⟩ ⟨line', member', carries'⟩
  exact h.own one other validOne validOther entry entry' ((others one validOne line member).2 entry carries)
    ((others other validOther line' member').2 entry' carries')

/-- The condition on applying says just that no address is given that another tag lists for another hostname. -/
theorem Sound.sparesOthers_iff {text tag : List Char} {hosts : List (List Char)} {addresses : Addresses} (h : Sound text)
    (valid : validateTag tag = true) (allocation : allocate hosts (existingEntries text tag) = some addresses) :
    SparesOthers text tag hosts ↔ ∀ other, validateTag other = true → other ≠ tag → ∀ entry', Lists text other entry' →
      ∀ entry ∈ addresses, entry.2 = entry'.2 → entry.1 = entry'.1 := by
  have distinct : KeepsDistinct (existingEntries text tag) := fun name name' ip kept kept' =>
    h.own tag tag valid valid (name, ip) (name', ip) (h.kept valid kept) (h.kept valid kept') rfl
  obtain ⟨placed, ring, fresh, entries⟩ := allocate_placed distinct allocation
  constructor
  · intro spares other validOther different entry' listed entry member same
    rcases (entries entry).mp member with ⟨-, kept⟩ | new
    · exact h.own tag other valid validOther entry entry' (h.kept valid kept) listed same
    · obtain ⟨⟨name, position⟩, atPosition, rfl⟩ := List.mem_map.mp new
      have inRing := (ring.passed atPosition).2.1
      have spared := spares other validOther different entry' listed position inRing same.symm
      rw [← fresh] at spared
      exact (ring.spares_iff inRing).mp spared name atPosition
  · intro apart other validOther different entry' listed position inRing same
    rw [← fresh]
    refine (ring.spares_iff inRing).mpr fun name atPosition => ?_
    have given : entryAt (name, position) ∈ addresses := (entries _).mpr (.inr (List.mem_map.mpr ⟨_, atPosition, rfl⟩))
    exact apart other validOther different entry' listed _ given same.symm

theorem Sound.apply {text tag text' : List Char} {hosts : List (List Char)} {replaceExisting : Bool} (h : Sound text)
    (valid : validateTag tag = true) (reveals : RevealsNone text tag) (spares : SparesOthers text tag hosts)
    (applied : applyHosts text tag hosts replaceExisting = some (.ok text')) : Sound text' := by
  obtain ⟨addresses, allocation, merging⟩ := Option.map_eq_some_iff.mp applied
  have base := h.removed valid reveals
  have facts := allocated allocation
  have mapped : ∀ entry ∈ addresses, Mapped entry := by
    intro entry member
    have listed : entry.1 ∈ sortedNames hosts := facts.names ▸ List.mem_map.mpr ⟨entry, member, rfl⟩
    rcases facts.source entry member with kept | ⟨slot, some_, inRange, same⟩
    · obtain ⟨line, within, carries⟩ := h.kept valid kept
      exact (h.block tag valid line within).mapped carries
    · exact ⟨isName_of_mem listed, slot - 1, by omega, by rw [same, Nat.sub_add_cancel some_]⟩
  obtain ⟨formed, mine, others⟩ := base.merged valid (fun _ => newline_not_mem) mapped (mergeBlock_ok.mp merging).2
  have beside := (h.sparesOthers_iff valid allocation).mp spares
  have among : ∀ other, validateTag other = true → ∀ entry, Lists text' other entry →
      other = tag ∧ entry ∈ addresses ∨ other ≠ tag ∧ Lists text other entry := by
    rintro other validOther entry ⟨line, member, carries⟩
    by_cases same : other = tag
    · subst same
      exact .inl ⟨rfl, (mine line member).2 entry carries⟩
    · exact .inr ⟨same, (others other validOther same line member).2 entry carries⟩
  refine ⟨formed, fun other validOther line member => ?_, ?_⟩
  · by_cases same : other = tag
    · subst same
      exact (mine line member).1
    · exact (others other validOther same line member).1
  · intro one other validOne validOther entry entry' listed listed' same
    rcases among one validOne entry listed with ⟨-, member⟩ | ⟨apart, old⟩ <;>
      rcases among other validOther entry' listed' with ⟨-, member'⟩ | ⟨apart', old'⟩
    · exact congrArg Prod.fst (List.inj_on_of_nodup_map facts.distinct.addresses member member' same)
    · exact beside other validOther apart' entry' old' entry member same
    · exact (beside one validOne apart entry old entry' member' same.symm).symm
    · exact h.own one other validOne validOther entry entry' old old' same

theorem Sound.performs {text text' : List Char} {command : Command} (h : Sound text) (performs : Performs text command text')
    (careful : Careful text command) : Sound text' := by
  cases performs with
  | apply valid _ applied => exact h.apply valid careful.1 careful.2 applied
  | remove valid => exact h.remove valid careful

theorem sound_of_reached {first text : List Char} (none_ : NoBlock first) (h : Reached first text) : Sound text := by
  induction h with
  | first => exact sound_of_noBlock none_
  | step before performs careful ih => exact ih.performs performs careful

/-- In every file that careful runs lead to, each hostname has an address of its own. -/
theorem reached_own_addresses {first text : List Char} (none_ : NoBlock first) (h : Reached first text) : OwnAddresses text :=
  (sound_of_reached none_ h).own

/-! ### Two tags on one file -/

def clientTag : List Char := "client".toList
def gatewayTag : List Char := "gateway".toList

/-- The file with the block of one hostname. -/
def oneBlock (tag name ip : List Char) : List Char := renderBlock tag [(name, ip)] lf

/-- The file after the client's run. -/
def clientText : List Char := oneBlock clientTag "svc-108.example.test".toList "127.77.200.236".toList

theorem client_performs : Performs [] (.apply clientTag ["svc-108.example.test".toList] false) clientText := by
  have applied : applyHosts [] clientTag ["svc-108.example.test".toList] false = some (.ok clientText) := by decide +kernel
  exact .apply (by decide +kernel) (by simp) applied

/-- Hostnames of two tags that hash to the same slot share its address. -/
theorem colliding_hostnames_share_address :
    let text := clientText ++ oneBlock gatewayTag "svc-311.example.test".toList "127.77.200.236".toList
    NoBlock [] ∧ Performs [] (.apply clientTag ["svc-108.example.test".toList] false) clientText ∧
    Performs clientText (.apply gatewayTag ["svc-311.example.test".toList] false) text ∧ ¬ OwnAddresses text := by
  intro text
  have applied : applyHosts clientText gatewayTag ["svc-311.example.test".toList] false = some (.ok text) := by decide +kernel
  have lists : Lists text clientTag ("svc-108.example.test".toList, "127.77.200.236".toList) :=
    ⟨entryLine ("svc-108.example.test".toList, "127.77.200.236".toList), by decide +kernel, _, .inl rfl, by decide +kernel⟩
  have lists' : Lists text gatewayTag ("svc-311.example.test".toList, "127.77.200.236".toList) :=
    ⟨entryLine ("svc-311.example.test".toList, "127.77.200.236".toList), by decide +kernel, _, .inl rfl, by decide +kernel⟩
  refine ⟨by nofun, client_performs, .apply (by decide +kernel) (by simp) applied, fun own => ?_⟩
  have same := own clientTag gatewayTag (by decide +kernel) (by decide +kernel) _ _ lists lists' rfl
  exact absurd same (by decide +kernel)

theorem revealsNone_of_lines {text tag : List Char} (plain : ∀ line ∈ lines text, ¬ disabledMarker tag <+: line) : RevealsNone text tag :=
  fun _ member => absurd (List.prefix_append _ _) (plain _ member)

theorem client_reached : Reached [] clientText := by
  refine .step .first client_performs ⟨revealsNone_of_lines (by nofun), ?_⟩
  rintro other _ _ entry ⟨line, member, _⟩
  cases member

theorem reached_own_addresses_local :
    OwnAddresses (clientText ++ oneBlock gatewayTag "app.example.test".toList "127.77.170.217".toList) := by
  have applied : applyHosts clientText gatewayTag ["app.example.test".toList] false =
      some (.ok (clientText ++ oneBlock gatewayTag "app.example.test".toList "127.77.170.217".toList)) := by decide +kernel
  have valid : validateTag gatewayTag = true := by decide +kernel
  have reveals : RevealsNone clientText gatewayTag := revealsNone_of_lines (by decide +kernel)
  have mapped : ∀ entry ∈ [("svc-108.example.test".toList, "127.77.200.236".toList)], Mapped entry := by
    intro entry member
    obtain rfl := List.mem_singleton.mp member
    exact ⟨⟨by decide +kernel, by decide +kernel⟩, 51435, by decide, by decide +kernel⟩
  have spares : SparesOthers clientText gatewayTag ["app.example.test".toList] := by
    have allocation : allocate ["app.example.test".toList] (existingEntries clientText gatewayTag) =
        some [("app.example.test".toList, "127.77.170.217".toList)] := by decide +kernel
    refine ((sound_of_reached (by nofun) client_reached).sparesOthers_iff valid allocation).mpr ?_
    rintro other _ _ entry' ⟨line, member, carries⟩ entry given same
    obtain ⟨before, after, split, -⟩ := mem_inBlocks.mp member
    have read : lines clientText = blockLines clientTag [("svc-108.example.test".toList, "127.77.200.236".toList)] := by decide +kernel
    have listed := carried_blockLines mapped (read ▸ split ▸ List.mem_append_right _ (.head _)) entry' carries
    rw [List.mem_singleton.mp given, List.mem_singleton.mp listed] at same
    exact absurd same (by decide +kernel)
  exact reached_own_addresses (by nofun) (.step client_reached (.apply valid (by simp) applied) ⟨reveals, spares⟩)

end Azbridge.Hosts
