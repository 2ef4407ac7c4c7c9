import Mathlib.Data.Char
import Mathlib.Data.List.Dedup
import Mathlib.Data.List.Lex
import Mathlib.Data.List.Perm.Subperm
import Mathlib.Data.List.Sort
import Azbridge.Hosts.Names

/-!
# Allocation of loopback aliases

Names are processed in sorted order: addresses applied before are kept first, then every other name
takes its slot, or the next one that is free.
-/

namespace Azbridge.Hosts

/-- `HashMap<String, String>`: the address applied before, by name. -/
abbrev Existing := List Char → Option (List Char)

/-- `BTreeMap<String, String>`: names with their addresses, in the order of the names. -/
abbrev Addresses := List (List Char × List Char)

/-- The addresses in use are those of the names that have one. -/
def used (result : Addresses) : List (List Char) := result.map (·.2)

/-- `BTreeSet<String>`: every string once, in order. -/
def sortedSet (strings : List (List Char)) : List (List Char) := strings.dedup.insertionSort (· ≤ ·)

def sortedNames (hosts : List (List Char)) : List (List Char) :=
  sortedSet ((hosts.filter isAliasableHost).map normalizeHostname)

/-- An address applied before, in the range of the aliases. -/
def keptAddress (existing : Existing) (name : List Char) : Option (List Char) :=
  (existing name).filter fun kept => (addressPrefix ++ ['.']).isPrefixOf kept

def keep (existing : Existing) : List (List Char) → Addresses → Addresses
  | [], result => result
  | name :: rest, result =>
    match keptAddress existing name with
    | some kept =>
      if (used result).contains kept then keep existing rest result
      else keep existing rest ((name, kept) :: result)
    | none => keep existing rest result

/-- The first free slot from this one on. The search visits every slot and then begins again, so
with fuel for all slots `none` means that it never ends. -/
def probe (taken : List (List Char)) : Nat → Nat → Option Nat
  | 0, _ => none
  | fuel + 1, slot => if taken.contains (slotAddress slot) then probe taken fuel (slot % slots + 1) else some slot

def assign : List (List Char) → Addresses → Option Addresses
  | [], result => some result
  | name :: rest, result =>
    if (result.map (·.1)).contains name then assign rest result
    else
      match probe (used result) slots (firstSlot name) with
      | some slot => assign rest ((name, slotAddress slot) :: result)
      | none => none

def inOrder (names : List (List Char)) (result : Addresses) : Addresses :=
  names.filterMap fun name => (result.lookup name).map fun ip => (name, ip)

/-- `none` where the search for a free slot never ends. -/
def allocate (hosts : List (List Char)) (existing : Existing) : Option Addresses :=
  let names := sortedNames hosts
  (assign names (keep existing names [])).map (inOrder names)

theorem nodup_sortedNames (hosts : List (List Char)) : (sortedNames hosts).Nodup :=
  (List.perm_insertionSort _ _).nodup_iff.mpr (List.nodup_dedup _)

theorem mem_sortedNames {hosts : List (List Char)} {name : List Char} :
    name ∈ sortedNames hosts ↔ ∃ host ∈ hosts, isAliasableHost host = true ∧ normalizeHostname host = name := by
  simp [sortedNames, sortedSet, List.mem_insertionSort, and_assoc]

theorem isName_of_mem {hosts : List (List Char)} {name : List Char} (h : name ∈ sortedNames hosts) : IsName name := by
  obtain ⟨host, -, aliasable, rfl⟩ := mem_sortedNames.mp h
  exact isName_of_aliasable aliasable

/-- Every name has one address, and no two names share one. -/
structure Distinct (result : Addresses) : Prop where
  names : (result.map (·.1)).Nodup
  addresses : (used result).Nodup

theorem Distinct.cons {result : Addresses} {name ip : List Char} (h : Distinct result) (free : name ∉ result.map (·.1))
    (unused : ip ∉ used result) : Distinct ((name, ip) :: result) :=
  ⟨List.nodup_cons.mpr ⟨free, h.names⟩, List.nodup_cons.mpr ⟨unused, h.addresses⟩⟩

theorem lookup_of_mem {result : Addresses} {name ip : List Char} (distinct : (result.map (·.1)).Nodup)
    (h : (name, ip) ∈ result) : result.lookup name = some ip := by
  induction result with
  | nil => cases h
  | cons entry result ih =>
    obtain ⟨n, i⟩ := entry
    have cut := List.nodup_cons.mp distinct
    rcases List.mem_cons.mp h with same | later
    · cases same
      simp
    · have other : name ≠ n := by
        rintro rfl
        exact cut.1 (List.mem_map.mpr ⟨_, later, rfl⟩)
      have different : (name == n) = false := by simpa using other
      rw [List.lookup_cons, different]
      exact ih cut.2 later

theorem mem_of_lookup {result : Addresses} {name ip : List Char} (h : result.lookup name = some ip) :
    (name, ip) ∈ result := by
  induction result with
  | nil => cases h
  | cons entry result ih =>
    obtain ⟨n, i⟩ := entry
    rw [List.lookup_cons] at h
    split at h
    · next same =>
      cases h
      rw [eq_of_beq same]
      exact .head _
    · exact .tail _ (ih h)

/-- What keeping addresses leaves: nothing is lost, and what is new was applied before. -/
structure Kept (existing : Existing) (names : List (List Char)) (result result' : Addresses) : Prop where
  distinct : Distinct result'
  grows : ∀ entry ∈ result, entry ∈ result'
  source : ∀ entry ∈ result', entry ∈ result ∨ entry.1 ∈ names ∧ keptAddress existing entry.1 = some entry.2
  complete : ∀ name ∈ names, ∀ kept, keptAddress existing name = some kept → kept ∈ used result'

theorem kept_keep {existing : Existing} {names : List (List Char)} {result : Addresses} (distinct : Distinct result)
    (once : names.Nodup) (fresh : ∀ name ∈ names, name ∉ result.map (·.1)) :
    Kept existing names result (keep existing names result) := by
  induction names generalizing result with
  | nil => exact ⟨distinct, fun _ h => h, fun _ h => .inl h, nofun⟩
  | cons name rest ih =>
    have cut := List.nodup_cons.mp once
    have later := fun n member => fresh n (.tail _ member)
    unfold keep
    split
    · next kept applied =>
      split
      · next taken =>
        have tail := ih distinct cut.2 later
        refine ⟨tail.distinct, tail.grows, ?_, ?_⟩
        · intro entry member
          rcases tail.source entry member with old | ⟨among, new⟩
          · exact .inl old
          · exact .inr ⟨.tail _ among, new⟩
        · intro n member k applied'
          rcases List.mem_cons.mp member with rfl | member
          · rw [applied] at applied'
            cases applied'
            obtain ⟨entry, held, same⟩ := List.mem_map.mp (List.contains_iff_mem.mp taken)
            exact List.mem_map.mpr ⟨entry, tail.grows entry held, same⟩
          · exact tail.complete n member k applied'
      · next free =>
        have unused : kept ∉ used result := fun h => free (List.contains_iff_mem.mpr h)
        have tail := ih (distinct.cons (fresh name (.head _)) unused) cut.2 fun n member => by
          simp only [List.map_cons, List.mem_cons, not_or]
          exact ⟨fun same => cut.1 (same ▸ member), later n member⟩
        refine ⟨tail.distinct, fun entry member => tail.grows entry (.tail _ member), ?_, ?_⟩
        · intro entry member
          rcases tail.source entry member with old | ⟨among, new⟩
          · rcases List.mem_cons.mp old with rfl | old
            · exact .inr ⟨.head _, applied⟩
            · exact .inl old
          · exact .inr ⟨.tail _ among, new⟩
        · intro n member k applied'
          rcases List.mem_cons.mp member with rfl | member
          · rw [applied] at applied'
            cases applied'
            exact List.mem_map.mpr ⟨_, tail.grows _ (.head _), rfl⟩
          · exact tail.complete n member k applied'
    · next missing =>
      have tail := ih distinct cut.2 later
      refine ⟨tail.distinct, tail.grows, ?_, ?_⟩
      · intro entry member
        rcases tail.source entry member with old | ⟨among, new⟩
        · exact .inl old
        · exact .inr ⟨.tail _ among, new⟩
      · intro n member k applied'
        rcases List.mem_cons.mp member with rfl | member
        · rw [missing] at applied'
          cases applied'
        · exact tail.complete n member k applied'

theorem kept_nil (existing : Existing) (hosts : List (List Char)) :
    Kept existing (sortedNames hosts) [] (keep existing (sortedNames hosts) []) :=
  kept_keep ⟨List.nodup_nil, List.nodup_nil⟩ (nodup_sortedNames hosts) fun _ _ => List.not_mem_nil

/-- The slot that is tried after so many others. -/
def slotAfter (slot : Nat) : Nat → Nat
  | 0 => slot
  | n + 1 => slotAfter (slot % slots + 1) n

theorem slotAfter_eq {slot : Nat} (range : 1 ≤ slot ∧ slot ≤ slots) (n : Nat) :
    slotAfter slot n = (slot - 1 + n) % slots + 1 := by
  induction n generalizing slot with
  | zero =>
    simp only [slotAfter, Nat.add_zero]
    rw [Nat.mod_eq_of_lt (by omega)]
    omega
  | succ n ih =>
    have bound : slot % slots < slots := Nat.mod_lt _ (by decide)
    rw [slotAfter, ih (by omega)]
    congr 1
    have step : slot % slots + 1 - 1 + n = slot % slots + n := by omega
    rw [step, Nat.mod_add_mod]
    congr 1
    omega

theorem firstSlot_range (name : List Char) : 1 ≤ firstSlot name ∧ firstSlot name ≤ slots := by
  have bound : (fnv1a32 name).toNat % slots < slots := Nat.mod_lt _ (by decide)
  unfold firstSlot
  omega

theorem probe_some {taken : List (List Char)} {fuel slot found : Nat} (h : probe taken fuel slot = some found) :
    ∃ n < fuel, found = slotAfter slot n ∧ slotAddress found ∉ taken ∧ ∀ m < n, slotAddress (slotAfter slot m) ∈ taken := by
  induction fuel generalizing slot with
  | zero => cases h
  | succ fuel ih =>
    unfold probe at h
    split at h
    · next busy =>
      obtain ⟨n, bound, same, free, before⟩ := ih h
      refine ⟨n + 1, by omega, same, free, fun m earlier => ?_⟩
      cases m with
      | zero => exact List.contains_iff_mem.mp busy
      | succ m => exact before m (by omega)
    · next free =>
      cases h
      exact ⟨0, by omega, rfl, fun h => free (List.contains_iff_mem.mpr h), fun m impossible => by omega⟩

theorem probe_none {taken : List (List Char)} {fuel slot : Nat} (h : probe taken fuel slot = none) :
    ∀ n < fuel, slotAddress (slotAfter slot n) ∈ taken := by
  induction fuel generalizing slot with
  | zero => intro n impossible; omega
  | succ fuel ih =>
    unfold probe at h
    split at h
    · next busy =>
      intro n bound
      cases n with
      | zero => exact List.contains_iff_mem.mp busy
      | succ n => exact ih h n (by omega)
    · cases h

/-- A search that never ends has found every slot taken. -/
theorem slots_le_of_probe_none {taken : List (List Char)} {slot : Nat} (range : 1 ≤ slot ∧ slot ≤ slots)
    (h : probe taken slots slot = none) : slots ≤ taken.length := by
  have visited : ((List.range slots).map fun n => slotAddress (slotAfter slot n)).Nodup := by
    refine List.Nodup.map_on ?_ List.nodup_range
    intro m small n small' same
    rw [List.mem_range] at small small'
    have equal := slotAddress_injective same
    rw [slotAfter_eq range, slotAfter_eq range, Nat.add_right_cancel_iff] at equal
    unfold slots at small small' equal
    omega
  have inside : ((List.range slots).map fun n => slotAddress (slotAfter slot n)) ⊆ taken := by
    intro address member
    obtain ⟨n, small, rfl⟩ := List.mem_map.mp member
    exact probe_none h n (List.mem_range.mp small)
  have count := (visited.subperm inside).length_le
  simpa using count

/-- What assigning leaves: every name has an address, and what is new is the address of a slot. -/
structure Assigned (names : List (List Char)) (result result' : Addresses) : Prop where
  distinct : Distinct result'
  grows : ∀ entry ∈ result, entry ∈ result'
  source : ∀ entry ∈ result', entry ∈ result ∨ entry.1 ∈ names ∧ ∃ slot, 1 ≤ slot ∧ slot ≤ slots ∧ entry.2 = slotAddress slot
  complete : ∀ name ∈ names, name ∈ result'.map (·.1)

theorem slotAfter_range {slot : Nat} (range : 1 ≤ slot ∧ slot ≤ slots) (n : Nat) :
    1 ≤ slotAfter slot n ∧ slotAfter slot n ≤ slots := by
  have bound : (slot - 1 + n) % slots < slots := Nat.mod_lt _ (by decide)
  rw [slotAfter_eq range]
  omega

theorem assigned_assign {names : List (List Char)} {result result' : Addresses} (distinct : Distinct result)
    (h : assign names result = some result') : Assigned names result result' := by
  induction names generalizing result with
  | nil =>
    cases h
    exact ⟨distinct, fun _ h => h, fun _ h => .inl h, nofun⟩
  | cons name rest ih =>
    unfold assign at h
    split at h
    · next has =>
      have tail := ih distinct h
      refine ⟨tail.distinct, tail.grows, ?_, ?_⟩
      · intro entry member
        rcases tail.source entry member with old | ⟨among, new⟩
        · exact .inl old
        · exact .inr ⟨.tail _ among, new⟩
      · intro n member
        rcases List.mem_cons.mp member with rfl | member
        · obtain ⟨entry, held, same⟩ := List.mem_map.mp (List.contains_iff_mem.mp has)
          exact List.mem_map.mpr ⟨entry, tail.grows entry held, same⟩
        · exact tail.complete n member
    · next missing =>
      split at h
      · next slot found =>
        obtain ⟨n, -, same, free, -⟩ := probe_some found
        have range : 1 ≤ slot ∧ slot ≤ slots := same ▸ slotAfter_range (firstSlot_range name) n
        have tail := ih (distinct.cons (fun h => missing (List.contains_iff_mem.mpr h)) free) h
        refine ⟨tail.distinct, fun entry member => tail.grows entry (.tail _ member), ?_, ?_⟩
        · intro entry member
          rcases tail.source entry member with old | ⟨among, new⟩
          · rcases List.mem_cons.mp old with rfl | old
            · exact .inr ⟨.head _, slot, range.1, range.2, rfl⟩
            · exact .inl old
          · exact .inr ⟨.tail _ among, new⟩
        · intro n member
          rcases List.mem_cons.mp member with rfl | member
          · exact List.mem_map.mpr ⟨_, tail.grows _ (.head _), rfl⟩
          · exact tail.complete n member
      · cases h

/-- Names in order with addresses of their own, each kept or the address of a slot. -/
structure Allocated (hosts : List (List Char)) (existing : Existing) (addresses : Addresses) : Prop where
  names : addresses.map (·.1) = sortedNames hosts
  distinct : Distinct addresses
  source : ∀ entry ∈ addresses, keptAddress existing entry.1 = some entry.2 ∨
    ∃ slot, 1 ≤ slot ∧ slot ≤ slots ∧ entry.2 = slotAddress slot
  kept : ∀ name ∈ sortedNames hosts, ∀ kept, keptAddress existing name = some kept →
    ∃ owner, (owner, kept) ∈ addresses ∧ keptAddress existing owner = some kept

theorem mem_inOrder {names : List (List Char)} {result : Addresses} (distinct : Distinct result) {entry : List Char × List Char} :
    entry ∈ inOrder names result ↔ entry.1 ∈ names ∧ entry ∈ result := by
  obtain ⟨name, ip⟩ := entry
  simp only [inOrder, List.mem_filterMap, Option.map_eq_some_iff, Prod.mk.injEq]
  constructor
  · rintro ⟨n, member, i, found, rfl, rfl⟩
    exact ⟨member, mem_of_lookup found⟩
  · rintro ⟨member, held⟩
    exact ⟨name, member, ip, lookup_of_mem distinct.names held, rfl, rfl⟩

theorem map_inOrder {names : List (List Char)} {result : Addresses} (complete : ∀ name ∈ names, name ∈ result.map (·.1)) :
    (inOrder names result).map (·.1) = names := by
  induction names with
  | nil => rfl
  | cons name rest ih =>
    have tail := ih fun n member => complete n (.tail _ member)
    have found : ∃ ip, result.lookup name = some ip := by
      have here := complete name (.head _)
      clear tail ih complete
      induction result with
      | nil => cases here
      | cons entry result ih =>
        obtain ⟨n, i⟩ := entry
        by_cases same : (name == n) = true
        · exact ⟨i, by simp [List.lookup_cons, same]⟩
        · rcases List.mem_cons.mp here with rfl | later
          · simp at same
          · obtain ⟨ip, found⟩ := ih later
            exact ⟨ip, by simp [List.lookup_cons, same, found]⟩
    obtain ⟨ip, found⟩ := found
    unfold inOrder at tail ⊢
    simp [found, tail]

theorem allocated {hosts : List (List Char)} {existing : Existing} {addresses : Addresses}
    (h : allocate hosts existing = some addresses) : Allocated hosts existing addresses := by
  obtain ⟨result, assigned, rfl⟩ := Option.map_eq_some_iff.mp h
  have kept := kept_nil existing hosts
  have total := assigned_assign kept.distinct assigned
  have names := map_inOrder total.complete
  have once : ((inOrder (sortedNames hosts) result).map (·.1)).Nodup := by
    rw [names]
    exact nodup_sortedNames hosts
  refine ⟨names, ⟨once, ?_⟩, ?_, ?_⟩
  · have injective : ∀ entry ∈ result, ∀ entry' ∈ result, entry.2 = entry'.2 → entry = entry' :=
      List.inj_on_of_nodup_map total.distinct.addresses
    refine List.Nodup.map_on ?_ (once.of_map _)
    intro entry member entry' member' same
    exact injective entry ((mem_inOrder total.distinct).mp member).2 entry' ((mem_inOrder total.distinct).mp member').2 same
  · intro entry member
    rcases total.source entry ((mem_inOrder total.distinct).mp member).2 with old | ⟨-, new⟩
    · rcases kept.source entry old with impossible | ⟨-, applied⟩
      · cases impossible
      · exact .inl applied
    · exact .inr new
  · intro name member ip applied
    obtain ⟨⟨owner, kept'⟩, held, same⟩ := List.mem_map.mp (kept.complete name member ip applied)
    obtain rfl : kept' = ip := same
    rcases kept.source _ held with impossible | ⟨among, own⟩
    · cases impossible
    · exact ⟨owner, (mem_inOrder total.distinct).mpr ⟨among, total.grows _ held⟩, own⟩

theorem assign_total {names : List (List Char)} {result : Addresses} (once : names.Nodup)
    (room : (names.filter fun name => !(result.map (·.1)).contains name).length + result.length ≤ slots) :
    ∃ result', assign names result = some result' := by
  induction names generalizing result with
  | nil => exact ⟨result, rfl⟩
  | cons name rest ih =>
    have cut := List.nodup_cons.mp once
    unfold assign
    split
    · next has =>
      refine ih cut.2 ?_
      simpa only [List.filter_cons, has, Bool.not_true, Bool.false_eq_true, if_false] using room
    · next missing =>
      have absent : (result.map (·.1)).contains name = false := by simpa using missing
      simp only [List.filter_cons, absent, Bool.not_false, if_true, List.length_cons] at room
      split
      · next slot found =>
        refine ih cut.2 (Nat.le_trans ?_ room)
        have fewer : (rest.filter fun n => !(((name, slotAddress slot) :: result).map (·.1)).contains n).length ≤
            (rest.filter fun n => !(result.map (·.1)).contains n).length := by
          refine (List.monotone_filter_right rest fun n h => ?_).length_le
          simp only [List.map_cons, List.contains_cons, Bool.not_or, Bool.and_eq_true] at h
          exact h.2
        simp only [List.length_cons]
        omega
      · next missing' =>
        have full := slots_le_of_probe_none (firstSlot_range name) missing'
        simp only [used, List.length_map] at full
        omega

theorem allocate_total {hosts : List (List Char)} (existing : Existing) (few : (sortedNames hosts).length ≤ slots) :
    ∃ addresses, allocate hosts existing = some addresses := by
  have kept := kept_nil existing hosts
  simp only [allocate]
  generalize keep existing (sortedNames hosts) [] = result at kept ⊢
  have room : ((sortedNames hosts).filter fun name => !(result.map (·.1)).contains name).length + result.length ≤ slots := by
    have inside : result.map (·.1) ⊆ (sortedNames hosts).filter fun name => (result.map (·.1)).contains name := by
      intro name member
      obtain ⟨entry, held, rfl⟩ := List.mem_map.mp member
      rcases kept.source entry held with impossible | ⟨among, -⟩
      · cases impossible
      · exact List.mem_filter.mpr ⟨among, List.contains_iff_mem.mpr member⟩
    have count := (kept.distinct.names.subperm inside).length_le
    have split := List.length_eq_length_filter_add (l := sortedNames hosts) fun name => (result.map (·.1)).contains name
    simp only [List.length_map] at count
    omega
  obtain ⟨result', assigned⟩ := assign_total (nodup_sortedNames hosts) room
  exact ⟨_, by rw [assigned]; rfl⟩

end Azbridge.Hosts
