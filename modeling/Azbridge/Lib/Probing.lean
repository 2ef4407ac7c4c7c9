import Mathlib.Data.List.Nodup
import Mathlib.Data.List.Perm.Subperm
import Mathlib.Data.Nat.Find

/-!
# Linear probing

Keys are placed on a ring of slots, each in the first free slot from its own on. Which slots are
filled in the end depends only on how many keys begin in each stretch of the ring.
-/

namespace Probing

/-- The slot so many steps ahead, for less than a round. -/
def ahead (size slot steps : Nat) : Nat := if slot + steps < size then slot + steps else slot + steps - size

/-- How many steps the target lies ahead. -/
def distance (size slot target : Nat) : Nat := if slot ≤ target then target - slot else target + size - slot

section Ring
variable {size slot target : Nat} (inRing : slot < size) (inRing' : target < size)
include inRing inRing'

theorem distance_lt : distance size slot target < size := by
  unfold distance
  split <;> omega

theorem ahead_distance : ahead size slot (distance size slot target) = target := by
  unfold ahead distance
  split <;> split <;> omega

theorem distance_ahead {steps : Nat} (before : steps ≤ distance size slot target) :
    distance size (ahead size slot steps) target = distance size slot target - steps := by
  unfold ahead
  unfold distance at before ⊢
  by_cases wraps : slot ≤ target
  · rw [if_pos wraps] at before ⊢
    split <;> split <;> omega
  · rw [if_neg wraps] at before ⊢
    split <;> split <;> omega

end Ring

theorem distance_injective {size slot other target : Nat} (inRing : slot < size) (inRing' : other < size)
    (same : distance size slot target = distance size other target) : slot = other := by
  unfold distance at same
  split at same <;> split at same <;> omega

theorem distance_eq_zero {size slot target : Nat} (inRing : slot < size) : distance size slot target = 0 ↔ slot = target := by
  unfold distance
  split <;> omega

theorem distance_of_ahead {size slot steps : Nat} (inRing : slot < size) (less : steps < size) :
    distance size slot (ahead size slot steps) = steps := by
  unfold ahead
  unfold distance
  split <;> split <;> omega

theorem ahead_lt {size slot steps : Nat} (inRing : slot < size) (less : steps < size) : ahead size slot steps < size := by
  unfold ahead
  split <;> omega

section Placing
variable {α : Type} (size : Nat) (start : α → Nat) (taken : Nat → Bool)

/-- Slots that were taken before, and those of the keys. -/
def Occupied (placed : List (α × Nat)) (slot : Nat) : Prop := taken slot = true ∨ slot ∈ placed.map Prod.snd

/-- Keys with their slots, the one that was placed last first. -/
inductive Placed : List (α × Nat) → Prop
  | nil : Placed []
  | cons {placed : List (α × Nat)} {key : α} {slot : Nat} (before : Placed placed) (begins : start key < size) (inRing : slot < size)
      (free : ¬ Occupied taken placed slot)
      (passed : ∀ steps < distance size (start key) slot, Occupied taken placed (ahead size (start key) steps)) :
      Placed ((key, slot) :: placed)

/-- Some stretch up to the slot has more keys than there are free slots in it before this one. -/
def Filled (keys : List α) (slot : Nat) : Prop :=
  taken slot = false ∧ ∃ n < size,
    (List.range size).countP (fun s => !taken s && decide (1 ≤ distance size s slot) && decide (distance size s slot ≤ n)) <
      keys.countP fun key => decide (distance size (start key) slot ≤ n)

variable {size start taken} {placed : List (α × Nat)}

theorem Placed.of_suffix {earlier : List (α × Nat)} (h : Placed size start taken placed) (suffix : earlier <:+ placed) :
    Placed size start taken earlier := by
  induction h with
  | nil => exact List.suffix_nil.mp suffix ▸ .nil
  | cons before begins inRing free passed ih =>
    rcases List.suffix_cons_iff.mp suffix with rfl | earlier
    · exact .cons before begins inRing free passed
    · exact ih earlier

theorem Placed.nodup (h : Placed size start taken placed) : (placed.map Prod.snd).Nodup := by
  induction h with
  | nil => exact List.nodup_nil
  | cons before begins inRing free passed ih => exact List.nodup_cons.mpr ⟨fun member => free (.inr member), ih⟩

theorem Placed.free (h : Placed size start taken placed) : ∀ slot ∈ placed.map Prod.snd, taken slot = false := by
  induction h with
  | nil => nofun
  | cons before begins inRing free passed ih =>
    intro slot member
    rcases List.mem_cons.mp member with rfl | earlier
    · exact eq_false_of_ne_true fun busy => free (.inl busy)
    · exact ih slot earlier

theorem Placed.passed (h : Placed size start taken placed) {key : α} {slot : Nat} (member : (key, slot) ∈ placed) :
    start key < size ∧ slot < size ∧
      ∀ steps < distance size (start key) slot, Occupied taken placed (ahead size (start key) steps) := by
  have grows : ∀ {placed : List (α × Nat)} {entry s}, Occupied taken placed s → Occupied taken (entry :: placed) s :=
    fun occupied => occupied.imp_right (List.mem_cons_of_mem _)
  induction h with
  | nil => cases member
  | cons before begins inRing free passed ih =>
    rcases List.mem_cons.mp member with same | earlier
    · cases same
      exact ⟨begins, inRing, fun steps less => grows (passed steps less)⟩
    · obtain ⟨begins, inRing, passed⟩ := ih earlier
      exact ⟨begins, inRing, fun steps less => grows (passed steps less)⟩

/-- The slots of the ring that a test holds of. -/
theorem countP_range_le {keys : List (α × Nat)} {test : Nat → Bool} {begins : α → Bool} (once : (keys.map Prod.snd).Nodup)
    (inside : ∀ entry ∈ keys, begins entry.1 = true → entry.2 < size ∧ test entry.2 = true) :
    (keys.map Prod.fst).countP begins ≤ (List.range size).countP test := by
  rw [List.countP_map, List.countP_eq_length_filter, List.countP_eq_length_filter]
  have subset : (keys.filter (begins ∘ Prod.fst)).map Prod.snd ⊆ (List.range size).filter test := by
    intro slot member
    obtain ⟨entry, listed, rfl⟩ := List.mem_map.mp member
    obtain ⟨listed, begun⟩ := List.mem_filter.mp listed
    obtain ⟨inRing, tested⟩ := inside entry listed begun
    exact List.mem_filter.mpr ⟨List.mem_range.mpr inRing, tested⟩
  have nodup : ((keys.filter (begins ∘ Prod.fst)).map Prod.snd).Nodup := (List.filter_sublist.map _).nodup once
  simpa using (nodup.subperm subset).length_le

/-- A slot that stays free is passed by no key, so the keys before it have slots before it. -/
theorem Placed.not_filled (h : Placed size start taken placed) {slot : Nat} (inRing : slot < size)
    (empty : slot ∉ placed.map Prod.snd) : ¬ Filled size start taken (placed.map Prod.fst) slot := by
  rintro ⟨free, n, less, more⟩
  refine Nat.not_le.mpr more (countP_range_le h.nodup ?_)
  intro ⟨key, place⟩ member begins
  have near : distance size (start key) slot ≤ n := of_decide_eq_true begins
  obtain ⟨starts, inRing', passed⟩ := h.passed member
  have steps := ahead_distance starts inRing'
  have short : distance size (start key) place < distance size (start key) slot := by
    by_contra far
    rcases Nat.lt_or_eq_of_le (Nat.not_lt.mp far) with beyond | same
    · have occupied := passed _ beyond
      rw [ahead_distance starts inRing] at occupied
      rcases occupied with busy | filled
      · rw [free] at busy
        cases busy
      · exact empty filled
    · rw [← same, ahead_distance starts inRing] at steps
      exact empty (steps ▸ List.mem_map.mpr ⟨_, member, rfl⟩)
  have rest := distance_ahead starts inRing (Nat.le_of_lt short)
  rw [steps] at rest
  have untaken := h.free place (List.mem_map.mpr ⟨_, member, rfl⟩)
  refine ⟨inRing', ?_⟩
  simp only [untaken, rest, Bool.not_false, Bool.true_and, Bool.and_eq_true, decide_eq_true_eq]
  omega

theorem exists_stretch {slot : Nat} (inRing : slot < size) (occupied : Nat → Prop) : ∃ n < size,
    (∀ s < size, 1 ≤ distance size s slot → distance size s slot ≤ n → occupied s) ∧
    (n + 1 < size → ∃ s < size, distance size s slot = n + 1 ∧ ¬ occupied s) := by
  by_cases gap : ∃ d, ∃ s < size, distance size s slot = d + 1 ∧ ¬ occupied s
  · classical
    obtain ⟨s, inRing', apart, empty⟩ := Nat.find_spec gap
    have bound := distance_lt inRing' inRing
    refine ⟨Nat.find gap, by omega, ?_, fun _ => ⟨s, inRing', apart, empty⟩⟩
    intro t inRing'' some_ near
    by_contra empty'
    have earlier : distance size t slot - 1 < Nat.find gap := by omega
    exact Nat.find_min gap earlier ⟨t, inRing'', by omega, empty'⟩
  · refine ⟨size - 1, by omega, ?_, fun h => absurd h (by omega)⟩
    intro t inRing' some_ _
    by_contra empty
    exact gap ⟨distance size t slot - 1, t, inRing', by omega, empty⟩

/-- A slot that a key has ends a stretch in which all keys with slots there begin. -/
theorem Placed.filled (h : Placed size start taken placed) {slot : Nat} (member : slot ∈ placed.map Prod.snd) :
    Filled size start taken (placed.map Prod.fst) slot := by
  obtain ⟨⟨owner, _⟩, listed, rfl⟩ := List.mem_map.mp member
  obtain ⟨ownerStarts, inRing, -⟩ := h.passed listed
  dsimp only at inRing ⊢
  rename_i slot
  obtain ⟨n, less, within, gap⟩ := exists_stretch inRing (Occupied taken placed)
  have begins : ∀ entry ∈ placed, distance size entry.2 slot ≤ n → distance size (start entry.1) slot ≤ n := by
    intro ⟨key, place⟩ listed near
    obtain ⟨starts, inRing', passed⟩ := h.passed listed
    dsimp only at near ⊢
    by_contra far
    have bound := distance_lt starts inRing
    obtain ⟨s, inRing'', apart, empty⟩ := gap (by omega)
    have same : distance size (ahead size (start key) (distance size (start key) slot - (n + 1))) slot = distance size s slot := by
      rw [distance_ahead starts inRing (by omega), apart]
      omega
    have reached := distance_injective (ahead_lt starts (by omega)) inRing'' same
    refine empty (reached ▸ passed _ ?_)
    by_contra beyond
    have before : distance size (start key) place ≤ distance size (start key) slot := by omega
    have rest := distance_ahead starts inRing before
    rw [ahead_distance starts inRing'] at rest
    omega
  refine ⟨h.free slot member, n, less, ?_⟩
  -- this slot and the free ones before it are the slots of keys that begin in the stretch
  rw [List.countP_map, List.countP_eq_length_filter, List.countP_eq_length_filter]
  have subset : slot :: (List.range size).filter
      (fun s => !taken s && decide (1 ≤ distance size s slot) && decide (distance size s slot ≤ n)) ⊆
      (placed.filter ((fun key => decide (distance size (start key) slot ≤ n)) ∘ Prod.fst)).map Prod.snd := by
    have found : ∀ s ∈ placed.map Prod.snd, distance size s slot ≤ n → s ∈
        (placed.filter ((fun key => decide (distance size (start key) slot ≤ n)) ∘ Prod.fst)).map Prod.snd := by
      intro s filled near
      obtain ⟨entry, listed, rfl⟩ := List.mem_map.mp filled
      exact List.mem_map.mpr ⟨entry, List.mem_filter.mpr ⟨listed, by simpa using begins entry listed near⟩, rfl⟩
    intro s listed
    rcases List.mem_cons.mp listed with rfl | earlier
    · exact found s member (by simp [(distance_eq_zero inRing).mpr rfl])
    · obtain ⟨inRing', free⟩ := List.mem_filter.mp earlier
      simp only [Bool.and_eq_true, Bool.not_eq_true', decide_eq_true_eq] at free
      obtain ⟨⟨free, some_⟩, near⟩ := free
      rcases within s (List.mem_range.mp inRing') some_ near with busy | filled
      · rw [free] at busy
        cases busy
      · exact found s filled near
  have nodup : (slot :: (List.range size).filter
      (fun s => !taken s && decide (1 ≤ distance size s slot) && decide (distance size s slot ≤ n))).Nodup := by
    refine List.nodup_cons.mpr ⟨fun listed => ?_, List.nodup_range.filter _⟩
    have some_ := (List.mem_filter.mp listed).2
    simp [(distance_eq_zero inRing).mpr rfl] at some_
  have count := (nodup.subperm subset).length_le
  rw [List.length_map, List.length_cons] at count
  exact count

theorem Placed.filled_iff (h : Placed size start taken placed) {slot : Nat} (inRing : slot < size) :
    Filled size start taken (placed.map Prod.fst) slot ↔ slot ∈ placed.map Prod.snd := by
  refine ⟨fun filled => ?_, h.filled⟩
  by_contra empty
  exact h.not_filled inRing empty filled

/-- If the slot is filled at all, this key fills it. -/
def Spares (size : Nat) (start : α → Nat) (taken : Nat → Bool) (keys : List α) (slot : Nat) (key : α) : Prop :=
  Filled size start taken keys slot → ∃ before after, keys = before ++ key :: after ∧
    ¬ Filled size start taken before slot ∧ Filled size start taken (before ++ [key]) slot

theorem filled_reverse {keys : List α} {slot : Nat} :
    Filled size start taken keys.reverse slot ↔ Filled size start taken keys slot := by
  unfold Filled
  simp only [List.countP_reverse]

theorem Placed.filled_reverse_iff (h : Placed size start taken placed) {slot : Nat} (inRing : slot < size) :
    Filled size start taken (placed.map Prod.fst).reverse slot ↔ slot ∈ placed.map Prod.snd :=
  filled_reverse.trans (h.filled_iff inRing)

theorem Placed.spares_iff (h : Placed size start taken placed) {slot : Nat} (inRing : slot < size) {key : α} :
    Spares size start taken (placed.map Prod.fst).reverse slot key ↔ ∀ owner, (owner, slot) ∈ placed → owner = key := by
  constructor
  · intro spares owner member
    have filled := (h.filled_reverse_iff inRing).mpr (List.mem_map.mpr ⟨_, member, rfl⟩)
    obtain ⟨before, after, split, empty, fills⟩ := spares filled
    have order : placed.map Prod.fst = after.reverse ++ key :: before.reverse := by
      rw [← List.reverse_reverse (placed.map Prod.fst), split]
      simp
    obtain ⟨later, rest, rfl, -, names⟩ := List.map_eq_append_iff.mp order
    obtain ⟨⟨k, place⟩, earlier, rfl, rfl, same⟩ := List.map_eq_cons_iff.mp names
    have upTo := h.of_suffix (List.suffix_append later _)
    have sofar := upTo.of_suffix (List.suffix_cons _ _)
    have names' : before = (earlier.map Prod.fst).reverse := by rw [same, List.reverse_reverse]
    subst names'
    rw [sofar.filled_reverse_iff inRing] at empty
    have fills' : slot ∈ ((k, place) :: earlier).map Prod.snd := (upTo.filled_reverse_iff inRing).mp (by simpa using fills)
    rcases List.mem_cons.mp fills' with here | before
    · have unique := List.inj_on_of_nodup_map h.nodup member (List.mem_append_right later (.head _)) here
      exact congrArg Prod.fst unique
    · exact absurd before empty
  · intro own filled
    obtain ⟨⟨owner, _⟩, member, rfl⟩ := List.mem_map.mp ((h.filled_reverse_iff inRing).mp filled)
    obtain rfl := own owner member
    obtain ⟨later, earlier, rfl⟩ := List.append_of_mem member
    have upTo := h.of_suffix (List.suffix_append later _)
    have sofar := upTo.of_suffix (List.suffix_cons _ _)
    refine ⟨(earlier.map Prod.fst).reverse, (later.map Prod.fst).reverse, by simp, ?_, ?_⟩
    · rw [sofar.filled_reverse_iff inRing]
      exact (List.nodup_cons.mp upTo.nodup).1
    · have fills := (upTo.filled_reverse_iff inRing).mpr (.head _)
      simpa using fills

end Placing
end Probing
