import Azbridge.Lib.Table

/-!
# Offers

Lists of named offers. A request takes the last offer of its name. One that may fall back takes the
last offer of all if the offers have one name, whichever it is. When several groups make offers, a
request may be answered differently by each group and by all of them together.
-/

namespace Offers

variable {ν α β : Type}

/-- The last offer of the name. -/
def Named [DecidableEq ν] (offers : List (ν × α)) (n : ν) (x : α) : Prop := (offers.filter (·.1 = n)).getLast? = some (n, x)

def Sole (offers : List (ν × α)) (n : ν) (x : α) : Prop := (∀ offer ∈ offers, offer.1 = n) ∧ offers.getLast? = some (n, x)

/-- What a request for the name takes. -/
def Taken [DecidableEq ν] (fallback : Prop) (offers : List (ν × α)) (n : ν) (x : α) : Prop :=
  Named offers n x ∨ fallback ∧ ∃ k, k ≠ n ∧ Sole offers k x

variable {fallback : Prop} {offers : List (ν × α)} {n k : ν} {x y : α}

theorem Sole.mem (h : Sole offers n x) : (n, x) ∈ offers := List.mem_of_getLast? h.2

section Names
variable [DecidableEq ν]

instance [DecidableEq α] (offers : List (ν × α)) (n : ν) (x : α) : Decidable (Named offers n x) :=
  inferInstanceAs (Decidable (_ = _))

theorem Named.mem (h : Named offers n x) : (n, x) ∈ offers := (List.mem_filter.mp (List.mem_of_getLast? h)).1

theorem Taken.mem (h : Taken fallback offers n x) : ∃ k, (k, x) ∈ offers := by
  obtain named | ⟨-, k, -, sole⟩ := h
  · exact ⟨n, named.mem⟩
  · exact ⟨k, sole.mem⟩

theorem named_of_ofEntries : (Table.ofEntries offers).get n = some x ↔ Named offers n x := by
  rw [Table.get_ofEntries, Option.map_eq_some_iff]
  constructor
  · rintro ⟨⟨m, y⟩, last, rfl⟩
    have same : m = n := by simpa using (List.mem_filter.mp (List.mem_of_getLast? last)).2
    subst same
    exact last
  · exact fun h => ⟨_, h, rfl⟩

/-- What is read off a table of offers. -/
def answer (mayFallBack : Bool) (t : Table ν α) (n : ν) : Option α :=
  match t.get n with
  | some v => some v
  | none => if t.size = 1 ∧ mayFallBack = true then t.values.head? else none

theorem answer_iff {mayFallBack : Bool} :
    answer mayFallBack (.ofEntries offers) n = some x ↔ Taken (mayFallBack = true) offers n x := by
  unfold answer
  cases found : (Table.ofEntries offers).get n with
  | some v =>
    have named := named_of_ofEntries.mp found
    have only : ¬ ∃ k, k ≠ n ∧ Sole offers k x := fun ⟨k, other, sole⟩ => other (sole.1 _ named.mem).symm
    simp only [Taken, only, and_false, or_false]
    rw [← named_of_ofEntries, found]
  | none =>
    have unnamed : ¬ Named offers n x := by
      rw [← named_of_ofEntries, found]
      simp
    have absent : n ∉ offers.map (·.1) := fun member => Table.get_eq_none.mp found (Table.mem_keys_ofEntries.mpr member)
    dsimp only
    unfold Taken
    constructor
    · intro answered
      split at answered
      · next single =>
        obtain ⟨k, keyed, last⟩ := Table.single_ofEntries.mp ⟨single.1, answered⟩
        have other : k ≠ n := by
          rintro rfl
          exact absent (List.mem_map_of_mem (List.mem_of_getLast? last))
        exact .inr ⟨single.2, k, other, keyed, last⟩
      · cases answered
    · rintro (named | ⟨may, k, -, sole⟩)
      · exact absurd named unnamed
      · obtain ⟨one, first⟩ := Table.single_ofEntries.mpr ⟨k, sole⟩
        rw [if_pos ⟨one, may⟩, first]

section Map
variable {f : α → β} {z : β}

theorem named_map : Named (offers.map fun offer => (offer.1, f offer.2)) n z ↔ ∃ x, f x = z ∧ Named offers n x := by
  have filtered : (offers.map fun offer => (offer.1, f offer.2)).filter (·.1 = n) =
      (offers.filter (·.1 = n)).map fun offer => (offer.1, f offer.2) := by
    rw [List.filter_map]
    rfl
  unfold Named
  rw [filtered, List.getLast?_map, Option.map_eq_some_iff]
  simp [and_comm]

omit [DecidableEq ν] in
theorem sole_map : Sole (offers.map fun offer => (offer.1, f offer.2)) n z ↔ ∃ x, f x = z ∧ Sole offers n x := by
  have names : (∀ offer ∈ offers.map fun offer => (offer.1, f offer.2), offer.1 = n) ↔ ∀ offer ∈ offers, offer.1 = n := by
    rw [List.forall_mem_map]
  unfold Sole
  rw [names, List.getLast?_map, Option.map_eq_some_iff]
  simp only [Prod.exists, Prod.mk.injEq]
  constructor
  · rintro ⟨keyed, _, x, last, rfl, same⟩
    exact ⟨x, same, keyed, last⟩
  · rintro ⟨x, same, keyed, last⟩
    exact ⟨keyed, n, x, last, rfl, same⟩

theorem taken_map : Taken fallback (offers.map fun offer => (offer.1, f offer.2)) n z ↔ ∃ x, f x = z ∧ Taken fallback offers n x := by
  unfold Taken
  simp only [named_map, sole_map]
  constructor
  · rintro (⟨x, same, named⟩ | ⟨may, k, other, x, same, sole⟩)
    · exact ⟨x, same, .inl named⟩
    · exact ⟨x, same, .inr ⟨may, k, other, sole⟩⟩
  · rintro ⟨x, same, named | ⟨may, k, other, sole⟩⟩
    · exact .inl ⟨x, same, named⟩
    · exact .inr ⟨may, k, other, x, same, sole⟩

end Map

section Groups
variable {groups before after : List (List (ν × α))} {group : List (ν × α)}

theorem named_append {front back : List (ν × α)} :
    Named (front ++ back) n x ↔ Named back n x ∨ (∀ offer ∈ back, offer.1 ≠ n) ∧ Named front n x := by
  unfold Named
  rw [List.filter_append, List.getLast?_append]
  cases last : (back.filter (·.1 = n)).getLast? with
  | none =>
    have none_ : ∀ offer ∈ back, offer.1 ≠ n := by simpa using List.getLast?_eq_none_iff.mp last
    simp only [Option.none_or, reduceCtorEq, false_or]
    exact ⟨fun named => ⟨none_, named⟩, And.right⟩
  | some offer =>
    have member := List.mem_filter.mp (List.mem_of_getLast? last)
    have hidden : ¬ ∀ offer ∈ back, offer.1 ≠ n := fun all => all offer member.1 (by simpa using member.2)
    simp only [Option.some_or, hidden, false_and, or_false]

omit [DecidableEq ν] in
theorem sole_append {front back : List (ν × α)} :
    Sole (front ++ back) k x ↔
      (∀ offer ∈ front, offer.1 = k) ∧ Sole back k x ∨ back = [] ∧ Sole front k x := by
  unfold Sole
  rw [List.getLast?_append]
  cases last : back.getLast? with
  | none =>
    have empty := List.getLast?_eq_none_iff.mp last
    subst empty
    simp
  | some offer =>
    have some_ : back ≠ [] := by
      rintro rfl
      cases last
    simp only [Option.some_or, some_, false_and, or_false, List.forall_mem_append]
    exact and_assoc

/-- What all groups together answer one of them answers. -/
theorem Taken.of_group (h : Taken fallback groups.flatten n x) : ∃ group ∈ groups, Taken fallback group n x := by
  induction groups with
  | nil =>
    obtain ⟨k, member⟩ := h.mem
    cases member
  | cons first rest ih =>
    rw [List.flatten_cons] at h
    obtain named | ⟨may, k, other, sole⟩ := h
    · obtain later | ⟨-, own⟩ := named_append.mp named
      · obtain ⟨group, member, taken⟩ := ih (.inl later)
        exact ⟨group, List.mem_cons_of_mem _ member, taken⟩
      · exact ⟨first, List.mem_cons_self, .inl own⟩
    · obtain ⟨-, later⟩ | ⟨-, own⟩ := sole_append.mp sole
      · obtain ⟨group, member, taken⟩ := ih (.inr ⟨may, k, other, later⟩)
        exact ⟨group, List.mem_cons_of_mem _ member, taken⟩
      · exact ⟨first, List.mem_cons_self, .inr ⟨may, k, other, own⟩⟩

/-- Among these groups the answer of the middle one stands, as far as it is wanted: no later group has an
offer of a name that was taken, and where the request fell back the other groups offer nothing different. -/
structure Stands (fallback : Prop) (n : ν) (wanted : α → Prop) (before : List (List (ν × α))) (group : List (ν × α))
    (after : List (List (ν × α))) : Prop where
  named : ∀ x, Named group n x → wanted x → ∀ offer ∈ after.flatten, offer.1 ≠ n
  sole : ∀ k x, fallback → k ≠ n → Sole group k x → wanted x → after.flatten = [] ∧ ∀ offer ∈ before.flatten, offer.1 = k

theorem named_together (distinct : ((before ++ group :: after).flatten.map (·.2)).Nodup) (named : Named group n x) :
    Taken fallback (before ++ group :: after).flatten n x ↔ ∀ offer ∈ after.flatten, offer.1 ≠ n := by
  have apart : x ∉ after.flatten.map (·.2) := by
    simp only [List.flatten_append, List.flatten_cons, List.map_append] at distinct
    intro again
    exact List.disjoint_of_nodup_append (List.nodup_append.mp distinct).2.1 (List.mem_map_of_mem named.mem) again
  have split : (before ++ group :: after).flatten = before.flatten ++ (group ++ after.flatten) := by simp
  rw [split]
  have only : ¬ ∃ k, k ≠ n ∧ Sole (before.flatten ++ (group ++ after.flatten)) k x := by
    rintro ⟨k, other, sole⟩
    exact other (sole.1 (n, x) (by simp [named.mem])).symm
  simp only [Taken, only, and_false, or_false]
  rw [named_append, named_append]
  constructor
  · rintro ((later | ⟨alone, -⟩) | ⟨none_, -⟩)
    · exact absurd (List.mem_map_of_mem later.mem) apart
    · exact alone
    · exact absurd rfl (none_ (n, x) (by simp [named.mem]))
  · exact fun alone => .inl (.inr ⟨alone, named⟩)

theorem sole_together (distinct : ((before ++ group :: after).flatten.map (·.2)).Nodup) (may : fallback) (other : k ≠ n)
    (sole : Sole group k x) :
    Taken fallback (before ++ group :: after).flatten n x ↔
      after.flatten = [] ∧ ∀ offer ∈ before.flatten, offer.1 = k := by
  have apart : x ∉ after.flatten.map (·.2) := by
    simp only [List.flatten_append, List.flatten_cons, List.map_append] at distinct
    intro again
    exact List.disjoint_of_nodup_append (List.nodup_append.mp distinct).2.1 (List.mem_map_of_mem sole.mem) again
  have front : x ∉ before.flatten.map (·.2) := by
    simp only [List.flatten_append, List.flatten_cons, List.map_append] at distinct
    intro again
    exact List.disjoint_of_nodup_append distinct again (by simp [List.mem_map_of_mem (f := (·.2)) sole.mem])
  have split : (before ++ group :: after).flatten = before.flatten ++ (group ++ after.flatten) := by simp
  have unnamed : ¬ Named (before.flatten ++ (group ++ after.flatten)) n x := by
    intro named
    rcases List.mem_append.mp named.mem with early | late
    · exact front (List.mem_map_of_mem early)
    · rcases List.mem_append.mp late with own | later
      · exact other (sole.1 _ own).symm
      · exact apart (List.mem_map_of_mem later)
  rw [split]
  unfold Taken
  constructor
  · rintro (named | ⟨-, k', -, all⟩)
    · exact absurd named unnamed
    · have same : k = k' := all.1 (k, x) (by simp [sole.mem])
      subst same
      obtain ⟨early, back⟩ | ⟨empty, -⟩ := sole_append.mp all
      · obtain ⟨-, late⟩ | ⟨nothing, -⟩ := sole_append.mp back
        · exact absurd (List.mem_map_of_mem late.mem) apart
        · exact ⟨nothing, early⟩
      · rw [List.append_eq_nil_iff] at empty
        exact absurd sole.mem (by simp [empty.1])
  · rintro ⟨nothing, early⟩
    have back : Sole (group ++ after.flatten) k x := sole_append.mpr (.inr ⟨nothing, sole⟩)
    exact .inr ⟨may, k, other, sole_append.mpr (.inl ⟨early, back⟩)⟩

/-- The groups answer one by one as they do together exactly if the answer of each of them stands. -/
theorem taken_together {wanted : α → Prop} (distinct : (groups.flatten.map (·.2)).Nodup) :
    (∀ x, wanted x → ((∃ group ∈ groups, Taken fallback group n x) ↔ Taken fallback groups.flatten n x)) ↔
      ∀ before group after, groups = before ++ group :: after → Stands fallback n wanted before group after := by
  constructor
  · rintro agree before group after rfl
    have own : ∀ x, wanted x → Taken fallback group n x → Taken fallback (before ++ group :: after).flatten n x :=
      fun x want taken => (agree x want).mp ⟨group, by simp, taken⟩
    constructor
    · intro x named want
      exact (named_together distinct named).mp (own x want (.inl named))
    · intro k x may other sole want
      exact (sole_together distinct may other sole).mp (own x want (.inr ⟨may, k, other, sole⟩))
  · intro stands x want
    constructor
    · rintro ⟨group, member, taken⟩
      obtain ⟨before, after, rfl⟩ := List.append_of_mem member
      have stand := stands before group after rfl
      obtain named | ⟨may, k, other, sole⟩ := taken
      · exact (named_together distinct named).mpr (stand.named x named want)
      · exact (sole_together distinct may other sole).mpr (stand.sole k x may other sole want)
    · exact Taken.of_group

end Groups
end Names
end Offers
