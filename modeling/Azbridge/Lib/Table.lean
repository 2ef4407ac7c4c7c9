import Mathlib.Data.List.Induction
import Mathlib.Data.List.Nodup
import Mathlib.Data.List.Perm.Basic

/-!
# Tables

Maps that list their keys in the order in which they first came, each with the value it was given
last.
-/

structure Table (κ α : Type) where
  entries : List (κ × α)
  distinct : (entries.map (·.1)).Nodup

namespace Table

variable {κ α β : Type}

def keys (t : Table κ α) : List κ := t.entries.map (·.1)

def values (t : Table κ α) : List α := t.entries.map (·.2)

def size (t : Table κ α) : Nat := t.entries.length

def empty : Table κ α := ⟨[], List.nodup_nil⟩

/-- Drop the entries that do not satisfy the condition. -/
def retain (t : Table κ α) (keep : κ → α → Bool) : Table κ α where
  entries := t.entries.filter fun entry => keep entry.1 entry.2
  distinct := t.distinct.sublist (List.filter_sublist.map fun entry : κ × α => entry.1)

theorem size_retain_le (t : Table κ α) (keep : κ → α → Bool) : (t.retain keep).size ≤ t.size := by
  unfold size retain
  exact List.length_filter_le ..

variable [DecidableEq κ]

def get (t : Table κ α) (k : κ) : Option α := (t.entries.find? (·.1 = k)).map (·.2)

/-- A key that is there keeps its place. -/
def setEntries (entries : List (κ × α)) (k : κ) (v : α) : List (κ × α) :=
  if k ∈ entries.map (·.1) then entries.map fun entry => if entry.1 = k then (k, v) else entry
  else entries ++ [(k, v)]

theorem keys_setEntries (entries : List (κ × α)) (k : κ) (v : α) :
    (setEntries entries k v).map (·.1) = if k ∈ entries.map (·.1) then entries.map (·.1) else entries.map (·.1) ++ [k] := by
  unfold setEntries
  split
  · rw [List.map_map]
    apply List.map_congr_left
    intro entry _
    by_cases same : entry.1 = k <;> simp [same]
  · simp

def set (t : Table κ α) (k : κ) (v : α) : Table κ α where
  entries := setEntries t.entries k v
  distinct := by
    rw [keys_setEntries]
    split
    · exact t.distinct
    · next absent => exact t.distinct.append (List.nodup_singleton k) (by simpa using absent)

/-- The table of entries, of which a later one replaces an earlier one with its key. -/
def ofEntries (entries : List (κ × α)) : Table κ α := entries.foldl (fun t entry => t.set entry.1 entry.2) empty

/-- Every key with what was added up for it, in order. -/
def gather (init : α) (add : α → β → α) (entries : List (κ × β)) : Table κ α :=
  entries.foldl (fun t entry => t.set entry.1 (add ((t.get entry.1).getD init) entry.2)) empty

section Lookup
variable {t : Table κ α} {k k' : κ} {v : α}

theorem get_eq_some : t.get k = some v ↔ (k, v) ∈ t.entries := by
  unfold get
  rw [Option.map_eq_some_iff]
  constructor
  · rintro ⟨⟨key, value⟩, found, rfl⟩
    have same : key = k := by simpa using List.find?_some found
    subst same
    exact List.mem_of_find?_eq_some found
  · intro member
    cases found : t.entries.find? (·.1 = k) with
    | none =>
      have other := List.find?_eq_none.mp found _ member
      simp at other
    | some entry =>
      have same : entry.1 = k := by simpa using List.find?_some found
      have there := List.mem_of_find?_eq_some found
      have equal : entry = (k, v) := List.inj_on_of_nodup_map t.distinct there member same
      exact ⟨entry, rfl, by rw [equal]⟩

theorem get_eq_none : t.get k = none ↔ k ∉ t.keys := by
  unfold get keys
  rw [Option.map_eq_none_iff, List.find?_eq_none, List.mem_map]
  constructor
  · rintro other ⟨entry, member, same⟩
    exact absurd (decide_eq_true same) (other entry member)
  · intro absent entry member
    rw [decide_eq_true_eq]
    exact fun same => absent ⟨entry, member, same⟩

theorem mem_keys_set : k' ∈ (t.set k v).keys ↔ k' ∈ t.keys ∨ k' = k := by
  have keyed : (t.set k v).keys = if k ∈ t.keys then t.keys else t.keys ++ [k] := keys_setEntries t.entries k v
  rw [keyed]
  split
  · next present =>
    constructor
    · exact .inl
    · rintro (member | rfl)
      · exact member
      · exact present
  · simp

theorem get_set_self : (t.set k v).get k = some v := by
  rw [get_eq_some]
  show (k, v) ∈ setEntries t.entries k v
  unfold setEntries
  split
  · next present =>
    obtain ⟨entry, member, same⟩ := List.mem_map.mp present
    exact List.mem_map.mpr ⟨entry, member, by simp [same]⟩
  · simp

theorem get_set_other (other : k' ≠ k) : (t.set k v).get k' = t.get k' := by
  have same : ∀ v', (t.set k v).get k' = some v' ↔ t.get k' = some v' := by
    intro v'
    rw [get_eq_some, get_eq_some]
    show (k', v') ∈ setEntries t.entries k v ↔ _
    unfold setEntries
    split
    · constructor
      · intro member
        obtain ⟨entry, there, equal⟩ := List.mem_map.mp member
        by_cases replaced : entry.1 = k
        · rw [if_pos replaced] at equal
          exact absurd (congrArg Prod.fst equal).symm other
        · rw [if_neg replaced] at equal
          exact equal ▸ there
      · intro there
        exact List.mem_map.mpr ⟨_, there, if_neg other⟩
    · simp [other]
  cases found : t.get k' with
  | some v' => exact (same v').mpr found
  | none =>
    cases after : (t.set k v).get k' with
    | none => rfl
    | some v' =>
      rw [(same v').mp after] at found
      cases found

theorem get_retain {keep : κ → α → Bool} : (t.retain keep).get k = some v ↔ t.get k = some v ∧ keep k v = true := by
  rw [get_eq_some, get_eq_some, retain, List.mem_filter]

theorem size_set_le (t : Table κ α) (k : κ) (v : α) : (t.set k v).size ≤ t.size + 1 := by
  show (setEntries t.entries k v).length ≤ t.entries.length + 1
  unfold setEntries
  split
  · simp
  · simp

end Lookup

section Adding
variable {k : κ} {v : α}

theorem ofEntries_append (entries : List (κ × α)) (entry : κ × α) :
    ofEntries (entries ++ [entry]) = (ofEntries entries).set entry.1 entry.2 := by
  simp [ofEntries]

theorem gather_append (init : α) (add : α → β → α) (entries : List (κ × β)) (entry : κ × β) :
    gather init add (entries ++ [entry]) =
      (gather init add entries).set entry.1 (add (((gather init add entries).get entry.1).getD init) entry.2) := by
  simp [gather]

theorem mem_keys_ofEntries {entries : List (κ × α)} : k ∈ (ofEntries entries).keys ↔ k ∈ entries.map (·.1) := by
  induction entries using List.reverseRecOn with
  | nil => rfl
  | append_singleton entries entry ih => simp [ofEntries_append, mem_keys_set, ih]

theorem get_ofEntries (entries : List (κ × α)) :
    (ofEntries entries).get k = ((entries.filter (·.1 = k)).getLast?).map (·.2) := by
  induction entries using List.reverseRecOn with
  | nil => rfl
  | append_singleton entries entry ih =>
    rw [ofEntries_append, List.filter_append]
    by_cases same : entry.1 = k
    · subst same
      rw [get_set_self]
      simp
    · rw [get_set_other (Ne.symm same), ih]
      simp [same]

theorem mem_keys_gather {init : α} {add : α → β → α} {entries : List (κ × β)} :
    k ∈ (gather init add entries).keys ↔ k ∈ entries.map (·.1) := by
  induction entries using List.reverseRecOn with
  | nil => rfl
  | append_singleton entries entry ih => simp [gather_append, mem_keys_set, ih]

theorem get_gather {init : α} {add : α → β → α} {entries : List (κ × β)} (present : k ∈ entries.map (·.1)) :
    (gather init add entries).get k = some (((entries.filter (·.1 = k)).map (·.2)).foldl add init) := by
  have general : ∀ entries : List (κ × β), ((gather init add entries).get k).getD init =
      ((entries.filter (·.1 = k)).map (·.2)).foldl add init := by
    intro entries
    induction entries using List.reverseRecOn with
    | nil => rfl
    | append_singleton entries entry ih =>
      rw [gather_append, List.filter_append]
      by_cases same : entry.1 = k
      · subst same
        rw [get_set_self]
        simp [ih]
      · rw [get_set_other (Ne.symm same), ih]
        simp [same]
  cases found : (gather init add entries).get k with
  | none => exact absurd (mem_keys_gather.mpr present) (get_eq_none.mp found)
  | some value => rw [← general entries, found, Option.getD_some]

/-- The only value of a table is the last one, and it is the only one if all entries have its key. -/
theorem single_ofEntries {entries : List (κ × α)} :
    ((ofEntries entries).size = 1 ∧ (ofEntries entries).values.head? = some v) ↔
      ∃ k, (∀ entry ∈ entries, entry.1 = k) ∧ entries.getLast? = some (k, v) := by
  constructor
  · rintro ⟨one, first⟩
    obtain ⟨⟨key, value⟩, only⟩ := List.length_eq_one_iff.mp one
    have same : value = v := by simpa [values, only] using first
    subst same
    have keyed : ∀ entry ∈ entries, entry.1 = key := by
      intro entry member
      have present : entry.1 ∈ (ofEntries entries).keys := mem_keys_ofEntries.mpr (List.mem_map_of_mem member)
      simpa [keys, only] using present
    have last : (ofEntries entries).get key = some value := get_eq_some.mpr (by simp [only])
    rw [get_ofEntries, List.filter_eq_self.mpr (by simpa using keyed), Option.map_eq_some_iff] at last
    obtain ⟨entry, found, same⟩ := last
    refine ⟨key, keyed, ?_⟩
    rw [found, ← keyed entry (List.mem_of_getLast? found), ← same]
  · rintro ⟨key, keyed, last⟩
    have found : (ofEntries entries).get key = some v := by
      rw [get_ofEntries, List.filter_eq_self.mpr (by simpa using keyed), last, Option.map_some]
    have present := get_eq_some.mp found
    have all : ∀ key' ∈ (ofEntries entries).keys, key' = key := by
      intro key' member
      obtain ⟨entry, there, rfl⟩ := List.mem_map.mp (mem_keys_ofEntries.mp member)
      exact keyed entry there
    have only : (ofEntries entries).keys = [key] :=
      List.perm_singleton.mp ((List.perm_ext_iff_of_nodup (ofEntries entries).distinct (List.nodup_singleton key)).mpr
        fun key' => ⟨fun member => List.mem_singleton.mpr (all key' member), fun member => by
          rw [List.mem_singleton.mp member]
          exact List.mem_map_of_mem present⟩)
    have one : (ofEntries entries).entries.length = 1 := by
      have length := congrArg List.length only
      simpa [keys] using length
    obtain ⟨entry, single⟩ := List.length_eq_one_iff.mp one
    rw [single, List.mem_singleton] at present
    exact ⟨one, by simp [values, single, ← present]⟩

end Adding
section Spreading
variable {γ : Type} {k : κ} {v : α}

theorem set_absent {t : Table κ α} (absent : k ∉ t.keys) : (t.set k v).entries = t.entries ++ [(k, v)] := by
  show setEntries t.entries k v = _
  exact if_neg absent

/-- Entries of different keys are all there, in their order. -/
theorem ofEntries_of_nodup {entries : List (κ × α)} (distinct : (entries.map (·.1)).Nodup) :
    (ofEntries entries).entries = entries := by
  induction entries using List.reverseRecOn with
  | nil => rfl
  | append_singleton entries entry ih =>
    rw [List.map_append, List.map_singleton, List.nodup_append] at distinct
    obtain ⟨before, -, apart⟩ := distinct
    have absent : entry.1 ∉ (ofEntries entries).keys := by
      rw [mem_keys_ofEntries]
      exact fun member => apart _ member _ (List.mem_singleton_self _) rfl
    rw [ofEntries_append, set_absent absent, ih before]

/-- What stands in the lists of a table, each element with its key. -/
def spread (f : κ → β → γ) (t : Table κ (List β)) : List γ := t.entries.flatMap fun entry => entry.2.map (f entry.1)

theorem spread_set (f : κ → β → γ) (t : Table κ (List β)) (k : κ) (added : List β) :
    (spread f (t.set k ((t.get k).getD [] ++ added))).Perm (spread f t ++ added.map (f k)) := by
  unfold spread
  cases found : t.get k with
  | none =>
    rw [set_absent (get_eq_none.mp found), List.flatMap_append]
    simp
  | some old =>
    obtain ⟨before, after, split⟩ := List.append_of_mem (get_eq_some.mp found)
    have distinct := t.distinct
    rw [split, List.map_append, List.map_cons, List.nodup_append, List.nodup_cons] at distinct
    obtain ⟨-, ⟨later, -⟩, apart⟩ := distinct
    have earlier : k ∉ before.map (·.1) := fun member => apart _ member _ List.mem_cons_self rfl
    have kept : ∀ others : List (κ × List β), k ∉ others.map (·.1) →
        others.map (fun entry => if entry.1 = k then (k, old ++ added) else entry) = others := by
      intro others absent
      rw [List.map_congr_left (g := id), List.map_id]
      intro entry member
      apply if_neg
      rintro rfl
      exact absent (List.mem_map_of_mem member)
    have replaced : (t.set k (old ++ added)).entries = before ++ (k, old ++ added) :: after := by
      show setEntries t.entries k _ = _
      unfold setEntries
      rw [if_pos (by simp [split]), split, List.map_append, List.map_cons, if_pos rfl, kept _ earlier, kept _ later]
    rw [Option.getD_some, replaced, split]
    simp only [List.flatMap_append, List.flatMap_cons, List.map_append, List.append_assoc]
    exact (List.perm_append_comm.append_left _).append_left _

/-- Gathering only changes the order. -/
theorem spread_gather (f : κ → β → γ) (entries : List (κ × List β)) :
    (spread f (gather [] (· ++ ·) entries)).Perm (entries.flatMap fun entry => entry.2.map (f entry.1)) := by
  induction entries using List.reverseRecOn with
  | nil => exact .refl _
  | append_singleton entries entry ih =>
    rw [gather_append, List.flatMap_append]
    apply (spread_set f _ entry.1 entry.2).trans
    simpa using ih.append_right _

end Spreading
end Table
