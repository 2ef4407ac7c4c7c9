import Azbridge.Lib.Probing
import Azbridge.Hosts.Allocation

/-!
# Slots of newly allocated names

Names that keep no address are placed by linear probing, so the slots they fill follow from the slots
that they hash to and from the addresses that are kept.
-/

namespace Azbridge.Hosts
open Probing

/-- Names that keep no address, in the order in which they are placed. -/
def freshNames (existing : Existing) (hosts : List (List Char)) : List (List Char) :=
  (sortedNames hosts).filter fun name => (keptAddress existing name).isNone

/-- The position of the slot on the ring has an address that one of the names keeps. -/
def keptSlot (existing : Existing) (hosts : List (List Char)) (position : Nat) : Bool :=
  (sortedNames hosts).any fun name => keptAddress existing name == some (slotAddress (position + 1))

def firstPosition (name : List Char) : Nat := firstSlot name - 1

def entryAt (placed : List Char × Nat) : List Char × List Char := (placed.1, slotAddress (placed.2 + 1))

theorem firstPosition_lt (name : List Char) : firstPosition name < slots := by
  have range := firstSlot_range name
  unfold firstPosition
  omega

theorem slotAfter_ahead {slot : Nat} (range : 1 ≤ slot ∧ slot ≤ slots) {n : Nat} (less : n < slots) :
    slotAfter slot n = ahead slots (slot - 1) n + 1 := by
  have bound : slot - 1 < slots := by omega
  rw [slotAfter_eq range, ahead]
  split
  · next inRing => rw [Nat.mod_eq_of_lt inRing]
  · next wraps => rw [Nat.mod_eq_sub_mod (Nat.not_lt.mp wraps), Nat.mod_eq_of_lt (by omega)]

/-- No two names keep the same address. -/
def KeepsDistinct (existing : Existing) : Prop :=
  ∀ name name' ip, keptAddress existing name = some ip → keptAddress existing name' = some ip → name = name'

theorem mem_keep {existing : Existing} (distinct : KeepsDistinct existing) {names : List (List Char)} {result : Addresses}
    (once : names.Nodup) (fresh : ∀ name ∈ names, ∀ ip, keptAddress existing name = some ip → ip ∉ used result)
    {entry : List Char × List Char} :
    entry ∈ keep existing names result ↔ entry ∈ result ∨ entry.1 ∈ names ∧ keptAddress existing entry.1 = some entry.2 := by
  induction names generalizing result with
  | nil => simp [keep]
  | cons name rest ih =>
    have cut := List.nodup_cons.mp once
    rw [keep]
    cases applied : keptAddress existing name with
    | none =>
      dsimp only
      rw [ih cut.2 fun n member => fresh n (.tail _ member)]
      have other : ∀ n, n = name → keptAddress existing n ≠ some entry.2 := by
        rintro n rfl
        simp [applied]
      have narrow : entry.1 ∈ name :: rest ∧ keptAddress existing entry.1 = some entry.2 ↔
          entry.1 ∈ rest ∧ keptAddress existing entry.1 = some entry.2 := by
        rw [List.mem_cons]
        constructor
        · rintro ⟨same | member, kept⟩
          · exact absurd kept (other _ same)
          · exact ⟨member, kept⟩
        · exact fun h => ⟨.inr h.1, h.2⟩
      rw [narrow]
    | some ip =>
      have free : (used result).contains ip = false := by simpa using fresh name (.head _) ip applied
      simp only [free, Bool.false_eq_true, if_false]
      rw [ih cut.2]
      · obtain ⟨n, i⟩ := entry
        simp only [List.mem_cons, Prod.mk.injEq]
        constructor
        · rintro ((⟨rfl, rfl⟩ | old) | ⟨member, kept⟩)
          · exact .inr ⟨.inl rfl, applied⟩
          · exact .inl old
          · exact .inr ⟨.inr member, kept⟩
        · rintro (old | ⟨rfl | member, kept⟩)
          · exact .inl (.inr old)
          · rw [applied, Option.some.injEq] at kept
            exact .inl (.inl ⟨rfl, kept.symm⟩)
          · exact .inr ⟨member, kept⟩
      · intro n member i kept within
        rcases List.mem_cons.mp within with same | old
        · dsimp only at same
          subst same
          exact cut.1 (distinct n name i kept applied ▸ member)
        · exact fresh n (.tail _ member) i kept old

theorem occupied_iff {result : Addresses} {placed : List (List Char × Nat)} {position : Nat} :
    Occupied (fun position => (used result).contains (slotAddress (position + 1))) placed position ↔
      slotAddress (position + 1) ∈ used (placed.map entryAt ++ result) := by
  have positions : slotAddress (position + 1) ∈ used (placed.map entryAt) ↔ position ∈ placed.map Prod.snd := by
    simp only [used, List.map_map, List.mem_map, Function.comp_apply, entryAt]
    constructor
    · rintro ⟨entry, member, same⟩
      exact ⟨entry, member, by have equal := slotAddress_injective same; omega⟩
    · rintro ⟨entry, member, rfl⟩
      exact ⟨entry, member, rfl⟩
  unfold used at positions ⊢
  rw [Occupied, List.contains_iff_mem, List.map_append, List.mem_append, positions]
  exact Or.comm

theorem assign_placed {names : List (List Char)} {result result' : Addresses} {placed : List (List Char × Nat)} (once : names.Nodup)
    (apart : ∀ name ∈ names, name ∉ placed.map Prod.fst)
    (before : Placed slots firstPosition (fun position => (used result).contains (slotAddress (position + 1))) placed)
    (assigned : assign names (placed.map entryAt ++ result) = some result') :
    ∃ later, result' = (later ++ placed).map entryAt ++ result ∧
      (later.map Prod.fst).reverse = names.filter (fun name => !(result.map (·.1)).contains name) ∧
      Placed slots firstPosition (fun position => (used result).contains (slotAddress (position + 1))) (later ++ placed) := by
  induction names generalizing placed with
  | nil =>
    cases assigned
    exact ⟨[], rfl, rfl, before⟩
  | cons name rest ih =>
    have cut := List.nodup_cons.mp once
    have apartRest := fun n member => apart n (.tail _ member)
    have notPlaced := apart name (.head _)
    have has : ((placed.map entryAt ++ result).map (·.1)).contains name = (result.map (·.1)).contains name := by
      have unplaced : name ∉ (placed.map entryAt).map (·.1) := by simpa [entryAt] using notPlaced
      rw [List.map_append, Bool.eq_iff_iff, List.contains_iff_mem, List.contains_iff_mem, List.mem_append]
      exact ⟨fun h => h.resolve_left unplaced, .inr⟩
    rw [assign, has] at assigned
    rw [List.filter_cons]
    split at assigned
    · next old =>
      obtain ⟨later, same, names, total⟩ := ih cut.2 apartRest before assigned
      exact ⟨later, same, by simpa only [old, Bool.not_true, Bool.false_eq_true, if_false] using names, total⟩
    · next new =>
      split at assigned
      · next slot found =>
        obtain ⟨n, less, same, free, passed⟩ := probe_some found
        have range := firstSlot_range name
        have begins := firstPosition_lt name
        have inRing := ahead_lt begins less
        have steps := distance_of_ahead begins less
        obtain rfl : slot = ahead slots (firstPosition name) n + 1 := same.trans (slotAfter_ahead range less)
        generalize ahead slots (firstPosition name) n = position at inRing steps free assigned
        have next : Placed slots firstPosition (fun position => (used result).contains (slotAddress (position + 1)))
            ((name, position) :: placed) := by
          refine .cons before begins inRing (fun occupied => free (occupied_iff.mp occupied)) fun m earlier => ?_
          rw [steps] at earlier
          have tried := passed m earlier
          rw [slotAfter_ahead range (Nat.lt_trans earlier less)] at tried
          exact occupied_iff.mpr tried
        have apartNext : ∀ n ∈ rest, n ∉ ((name, position) :: placed).map Prod.fst := by
          intro n member within
          rcases List.mem_cons.mp within with rfl | old
          · exact cut.1 member
          · exact apartRest n member old
        obtain ⟨later, same, names, total⟩ := ih cut.2 apartNext next assigned
        refine ⟨later ++ [(name, position)], by simpa using same, ?_, by simpa using total⟩
        rw [if_pos (by simpa using new), ← names]
        simp
      · cases assigned

/-- What `allocate` gives: addresses that are kept, and those of the slots that fresh names are placed in. -/
theorem allocate_placed {hosts : List (List Char)} {existing : Existing} {addresses : Addresses}
    (distinct : KeepsDistinct existing) (h : allocate hosts existing = some addresses) :
    ∃ placed, Placed slots firstPosition (keptSlot existing hosts) placed ∧
      (placed.map Prod.fst).reverse = freshNames existing hosts ∧
      ∀ entry, entry ∈ addresses ↔ entry.1 ∈ sortedNames hosts ∧ keptAddress existing entry.1 = some entry.2 ∨
        entry ∈ placed.map entryAt := by
  have once := nodup_sortedNames hosts
  have kept : ∀ entry, entry ∈ keep existing (sortedNames hosts) [] ↔
      entry.1 ∈ sortedNames hosts ∧ keptAddress existing entry.1 = some entry.2 := by
    intro entry
    rw [mem_keep distinct once (fun _ _ _ _ => List.not_mem_nil)]
    simp
  obtain ⟨result, assigned, rfl⟩ := Option.map_eq_some_iff.mp h
  have total := assigned_assign (kept_nil existing hosts).distinct assigned
  obtain ⟨placed, rfl, names, ring⟩ := assign_placed once (fun _ _ => List.not_mem_nil) .nil assigned
  rw [List.append_nil] at ring total ⊢
  have fresh : (placed.map Prod.fst).reverse = freshNames existing hosts := by
    rw [names, freshNames]
    refine List.filter_congr fun name member => ?_
    rw [Bool.eq_iff_iff, Bool.not_eq_true', Bool.eq_false_iff, Ne, List.contains_iff_mem, Option.isNone_iff_eq_none]
    constructor
    · intro absent
      cases applied : keptAddress existing name with
      | none => rfl
      | some ip => exact absurd (List.mem_map.mpr ⟨(name, ip), (kept _).mpr ⟨member, applied⟩, rfl⟩) absent
    · intro none_ within
      obtain ⟨entry, listed, rfl⟩ := List.mem_map.mp within
      rw [((kept entry).mp listed).2] at none_
      cases none_
  have busy : (fun position => (used (keep existing (sortedNames hosts) [])).contains (slotAddress (position + 1))) =
      keptSlot existing hosts := by
    funext position
    rw [Bool.eq_iff_iff, List.contains_iff_mem, keptSlot, List.any_eq_true]
    constructor
    · intro within
      obtain ⟨entry, listed, same⟩ := List.mem_map.mp within
      obtain ⟨member, applied⟩ := (kept entry).mp listed
      exact ⟨entry.1, member, by simp [applied, same]⟩
    · rintro ⟨name, member, applied⟩
      exact List.mem_map.mpr ⟨(name, slotAddress (position + 1)), (kept _).mpr ⟨member, eq_of_beq applied⟩, rfl⟩
  refine ⟨placed, busy ▸ ring, fresh, fun entry => ?_⟩
  rw [mem_inOrder total.distinct, List.mem_append, kept]
  constructor
  · rintro ⟨-, new | old⟩
    · exact .inr new
    · exact .inl old
  · rintro (old | new)
    · exact ⟨old.1, .inr old⟩
    · refine ⟨?_, .inl new⟩
      obtain ⟨key, member, rfl⟩ := List.mem_map.mp new
      have among : key.1 ∈ freshNames existing hosts := fresh ▸ List.mem_reverse.mpr (List.mem_map.mpr ⟨_, member, rfl⟩)
      exact (List.mem_filter.mp among).1

end Azbridge.Hosts
