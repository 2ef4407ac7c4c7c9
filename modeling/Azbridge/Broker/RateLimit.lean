import Mathlib.Data.List.Induction
import Mathlib.Logic.Function.Basic

/-!
# Rate limits

Each bucket keeps the times of its admitted calls that are still within its window. The window law
is proved from what the queue of a bucket is of the calls that it has admitted so far.
-/

namespace Azbridge.Broker.RateLimit

/-- A call of `rate_limit` at the clock's reading. -/
structure Call where
  bucket : String
  now : Nat
  deriving DecidableEq, Repr

/-- What each bucket may admit, and how long an admitted call counts. -/
structure Limits where
  capacity : String → Nat
  window : String → Nat

/-- The queue of each bucket, with the oldest call at its front. -/
abbrev Entries := String → List Nat

variable (limits : Limits)

/-- The calls that are left at the front once those out of the window are popped. -/
def expire (entries : Entries) (call : Call) : List Nat :=
  (entries call.bucket).dropWhile fun at_ => limits.window call.bucket ≤ call.now - at_

/-- `rate_limit`: whether the call is admitted, and the queues after it. -/
def rateLimit (entries : Entries) (call : Call) : Bool × Entries :=
  let left := expire limits entries call
  if limits.capacity call.bucket ≤ left.length then (false, Function.update entries call.bucket left)
  else (true, Function.update entries call.bucket (left ++ [call.now]))

/-- A call with its outcome. -/
structure Outcome where
  call : Call
  admitted : Bool
  deriving DecidableEq, Repr

def outcomes : Entries → List Call → List Outcome
  | _, [] => []
  | entries, call :: rest =>
    let (admitted, entries) := rateLimit limits entries call
    ⟨call, admitted⟩ :: outcomes entries rest

def after (entries : Entries) (calls : List Call) : Entries := calls.foldl (fun entries call => (rateLimit limits entries call).2) entries

/-- No calls yet. -/
def empty : Entries := fun _ => []

def admittedAt (bucket : String) (done : List Outcome) : List Nat :=
  (done.filter fun o => o.admitted && o.call.bucket == bucket).map (·.call.now)

/-- The clock's readings do not go back. -/
def Ordered (calls : List Call) : Prop := calls.Pairwise fun earlier later => earlier.now ≤ later.now

variable {limits}

theorem outcomes_append (entries : Entries) (before rest : List Call) :
    outcomes limits entries (before ++ rest) = outcomes limits entries before ++ outcomes limits (after limits entries before) rest := by
  induction before generalizing entries with
  | nil => rfl
  | cons call before ih =>
    show _ :: outcomes limits _ (before ++ rest) = _
    rw [ih]
    rfl

theorem admittedAt_append (bucket : String) (done done' : List Outcome) :
    admittedAt bucket (done ++ done') = admittedAt bucket done ++ admittedAt bucket done' := by
  simp [admittedAt]

theorem after_append (entries : Entries) (before : List Call) (call : Call) :
    after limits entries (before ++ [call]) = (rateLimit limits (after limits entries before) call).2 := by
  simp [after]

/-- Where an outcome stands among the others, its call stands among the calls. -/
theorem outcomes_split {entries : Entries} {calls : List Call} {done rest : List Outcome} {outcome : Outcome}
    (same : outcomes limits entries calls = done ++ outcome :: rest) :
    ∃ before later, calls = before ++ outcome.call :: later ∧ done = outcomes limits entries before ∧
      outcome.admitted = (rateLimit limits (after limits entries before) outcome.call).1 := by
  induction done generalizing entries calls with
  | nil =>
    cases calls with
    | nil => cases same
    | cons call later =>
      cases same
      exact ⟨[], later, rfl, rfl, rfl⟩
  | cons first done ih =>
    cases calls with
    | nil => cases same
    | cons call later =>
      obtain ⟨rfl, others⟩ := List.cons.inj same
      obtain ⟨before, later, rfl, rfl, admitted⟩ := ih others
      exact ⟨call :: before, later, rfl, rfl, admitted⟩

/-- What a queue is, of the calls of its bucket: the last of those admitted, the others being out of the
window. -/
structure Keeps (limits : Limits) (bucket : String) (now : Nat) (admitted entries : List Nat) : Prop where
  split : ∃ expired, admitted = expired ++ entries ∧ ∀ t ∈ expired, t + limits.window bucket ≤ now
  sorted : admitted.Pairwise (· ≤ ·)
  past : ∀ t ∈ admitted, t ≤ now
  bound : entries.length ≤ limits.capacity bucket

/-- No time span as long as the window holds more calls than the bucket may admit. -/
def Spaced (limits : Limits) (bucket : String) (admitted : List Nat) : Prop :=
  ∀ start length, length ≤ limits.window bucket →
    (admitted.countP fun t => start ≤ t && t < start + length) ≤ limits.capacity bucket

section Step

variable {bucket : String} {now : Nat} {admitted : List Nat} {entries : Entries} {call : Call}

theorem Keeps.later {queue : List Nat} {now' : Nat} (keeps : Keeps limits bucket now admitted queue) (le : now ≤ now') :
    Keeps limits bucket now' admitted queue := by
  obtain ⟨expired, same, out⟩ := keeps.split
  exact ⟨⟨expired, same, fun t member => Nat.le_trans (out t member) le⟩, keeps.sorted,
    fun t member => Nat.le_trans (keeps.past t member) le, keeps.bound⟩

/-- What is popped is out of the window. -/
theorem Keeps.expire (keeps : Keeps limits call.bucket call.now admitted (entries call.bucket)) :
    Keeps limits call.bucket call.now admitted (expire limits entries call) := by
  obtain ⟨expired, same, out⟩ := keeps.split
  have parts := List.takeWhile_append_dropWhile (p := fun at_ => decide (limits.window call.bucket ≤ call.now - at_)) (l := entries call.bucket)
  constructor
  · refine ⟨expired ++ (entries call.bucket).takeWhile fun at_ => limits.window call.bucket ≤ call.now - at_, ?_, ?_⟩
    · rw [List.append_assoc]
      unfold RateLimit.expire
      rw [parts, same]
    · intro t member
      obtain before | popped := List.mem_append.mp member
      · exact out t before
      · have past : t ≤ call.now := keeps.past t (by
          rw [same, List.mem_append]
          exact .inr ((List.takeWhile_prefix _).subset popped))
        have old := List.all_eq_true.mp List.all_takeWhile t popped
        simp only [decide_eq_true_eq] at old
        omega
  · exact keeps.sorted
  · exact keeps.past
  · exact Nat.le_trans (List.dropWhile_suffix _).length_le keeps.bound

theorem Keeps.within (keeps : Keeps limits call.bucket call.now admitted (entries call.bucket)) {t : Nat}
    (member : t ∈ RateLimit.expire limits entries call) : call.now < t + limits.window call.bucket := by
  have sorted : (RateLimit.expire limits entries call).Pairwise (· ≤ ·) := by
    obtain ⟨expired, same, _⟩ := keeps.expire.split
    have whole := keeps.sorted
    rw [same] at whole
    exact (List.pairwise_append.mp whole).2.1
  unfold RateLimit.expire at member sorted
  have first := List.head?_dropWhile_not (fun at_ => decide (limits.window call.bucket ≤ call.now - at_)) (entries call.bucket)
  generalize (entries call.bucket).dropWhile _ = left at member sorted first
  cases left with
  | nil => cases member
  | cons front rest =>
    have fresh : ¬ limits.window call.bucket ≤ call.now - front := by simpa using first
    have oldest : front ≤ t := by
      cases member with
      | head => exact Nat.le_refl _
      | tail _ later => exact (List.pairwise_cons.mp sorted).1 t later
    omega

theorem rateLimit_full (full : limits.capacity call.bucket ≤ (expire limits entries call).length) :
    rateLimit limits entries call = (false, Function.update entries call.bucket (expire limits entries call)) := if_pos full

theorem rateLimit_room (room : ¬ limits.capacity call.bucket ≤ (expire limits entries call).length) : rateLimit limits entries call =
    (true, Function.update entries call.bucket (expire limits entries call ++ [call.now])) := if_neg room

theorem rateLimit_other (other : bucket ≠ call.bucket) : (rateLimit limits entries call).2 bucket = entries bucket := by
  by_cases full : limits.capacity call.bucket ≤ (expire limits entries call).length
  · rw [rateLimit_full full]
    exact Function.update_of_ne other _ _
  · rw [rateLimit_room full]
    exact Function.update_of_ne other _ _

/-- A call that finds its queue full comes after that many calls within the window. -/
theorem refused_full (keeps : Keeps limits call.bucket call.now admitted (entries call.bucket))
    (refused : (rateLimit limits entries call).1 = false) :
    limits.capacity call.bucket ≤ admitted.countP fun t => t ≤ call.now && call.now < t + limits.window call.bucket := by
  obtain ⟨expired, same, _⟩ := keeps.expire.split
  have full : limits.capacity call.bucket ≤ (expire limits entries call).length := by
    by_contra room
    rw [rateLimit_room room] at refused
    cases refused
  have all : (expire limits entries call).countP (fun t => t ≤ call.now && call.now < t + limits.window call.bucket) =
      (expire limits entries call).length := by
    rw [List.countP_eq_length]
    intro t member
    have past := keeps.past t (by
      rw [same]
      exact List.mem_append_right _ member)
    simp [past, keeps.within member]
  rw [same, List.countP_append, all]
  omega

/-- An admitted call leaves room for itself in every time span that holds it. -/
theorem spaced_push (keeps : Keeps limits call.bucket call.now admitted (entries call.bucket))
    (spaced : Spaced limits call.bucket admitted) (room : (expire limits entries call).length < limits.capacity call.bucket) :
    Spaced limits call.bucket (admitted ++ [call.now]) := by
  intro start length short
  obtain ⟨expired, same, out⟩ := keeps.expire.split
  rw [List.countP_append]
  by_cases inside : start ≤ call.now ∧ call.now < start + length
  · have none_ : expired.countP (fun t => start ≤ t && t < start + length) = 0 := by
      rw [List.countP_eq_zero]
      intro t member
      have old := out t member
      simp only [Bool.and_eq_true, decide_eq_true_eq]
      omega
    have few := List.countP_le_length (p := fun t => decide (start ≤ t) && decide (t < start + length)) (l := expire limits entries call)
    rw [same, List.countP_append, none_]
    simp only [List.countP_singleton]
    split <;> omega
  · have outside : [call.now].countP (fun t => start ≤ t && t < start + length) = 0 := by
      rw [List.countP_eq_zero]
      intro t member
      obtain rfl := List.mem_singleton.mp member
      simpa using inside
    rw [outside]
    exact spaced start length short

theorem keeps_push (keeps : Keeps limits call.bucket call.now admitted (entries call.bucket))
    (room : (expire limits entries call).length < limits.capacity call.bucket) :
    Keeps limits call.bucket call.now (admitted ++ [call.now]) (expire limits entries call ++ [call.now]) := by
  obtain ⟨expired, same, out⟩ := keeps.expire.split
  constructor
  · exact ⟨expired, by rw [same, List.append_assoc], out⟩
  · rw [List.pairwise_append]
    refine ⟨keeps.sorted, List.pairwise_singleton _ _, ?_⟩
    intro t member u there
    obtain rfl := List.mem_singleton.mp there
    exact keeps.past t member
  · intro t member
    obtain before | last := List.mem_append.mp member
    · exact keeps.past t before
    · exact Nat.le_of_eq (List.mem_singleton.mp last)
  · rw [List.length_append, List.length_singleton]
    exact room

end Step

theorem admittedAt_outcome (bucket : String) (outcome : Outcome) :
    admittedAt bucket [outcome] = if outcome.admitted && outcome.call.bucket == bucket then [outcome.call.now] else [] := by
  unfold admittedAt
  rw [List.filter_cons, List.filter_nil]
  split <;> rfl

/-- After any calls, the queue of each bucket is what it should be, and its calls are spaced. -/
theorem run_keeps {calls : List Call} (ordered : Ordered calls) (bucket : String) {now : Nat} (past : ∀ call ∈ calls, call.now ≤ now) :
    Keeps limits bucket now (admittedAt bucket (outcomes limits empty calls)) (after limits empty calls bucket) ∧
      Spaced limits bucket (admittedAt bucket (outcomes limits empty calls)) := by
  induction calls using List.reverseRecOn generalizing now with
  | nil =>
    constructor
    · exact ⟨⟨[], rfl, nofun⟩, .nil, nofun, Nat.zero_le _⟩
    · intro start length short
      exact Nat.zero_le _
  | append_singleton calls call ih =>
    have earlier := List.pairwise_append.mp ordered
    have before : ∀ other ∈ calls, other.now ≤ call.now := fun other member => earlier.2.2 other member call (.head _)
    have le : call.now ≤ now := past call (List.mem_append_right _ (.head _))
    obtain ⟨keeps, spaced⟩ := ih earlier.1 before
    have last : outcomes limits (after limits empty calls) [call] = [⟨call, (rateLimit limits (after limits empty calls) call).1⟩] := rfl
    rw [outcomes_append, admittedAt_append, after_append, last, admittedAt_outcome]
    by_cases own : bucket = call.bucket
    · subst own
      by_cases full : limits.capacity call.bucket ≤ (expire limits (after limits empty calls) call).length
      · rw [rateLimit_full full]
        simp only [Bool.false_and, Bool.false_eq_true, if_false, List.append_nil, Function.update_self]
        exact ⟨keeps.expire.later le, spaced⟩
      · have room : (expire limits (after limits empty calls) call).length < limits.capacity call.bucket := by omega
        rw [rateLimit_room full]
        simp only [Bool.true_and, beq_self_eq_true, if_true, Function.update_self]
        exact ⟨(keeps_push keeps room).later le, spaced_push keeps spaced room⟩
    · have different : (call.bucket == bucket) = false := by simpa using fun same => own same.symm
      rw [different, Bool.and_false, if_neg (by decide), List.append_nil, rateLimit_other own]
      exact ⟨keeps.later le, spaced⟩

theorem outcomes_filter (bucket : String) {entries entries' : Entries} (same : entries bucket = entries' bucket) (calls : List Call) :
    (outcomes limits entries calls).filter (·.call.bucket == bucket) = outcomes limits entries' (calls.filter (·.bucket == bucket)) := by
  induction calls generalizing entries entries' with
  | nil => rfl
  | cons call rest ih =>
    show ((⟨call, (rateLimit limits entries call).1⟩ :: outcomes limits (rateLimit limits entries call).2 rest).filter _) = _
    by_cases own : bucket = call.bucket
    · subst own
      have left : expire limits entries call = expire limits entries' call := by
        unfold expire
        rw [same]
      rw [List.filter_cons_of_pos (by simp), List.filter_cons_of_pos (by simp)]
      show _ = ⟨call, (rateLimit limits entries' call).1⟩ :: outcomes limits (rateLimit limits entries' call).2 _
      by_cases full : limits.capacity call.bucket ≤ (expire limits entries call).length
      · rw [rateLimit_full full, rateLimit_full (left ▸ full)]
        exact congrArg _ (ih (by simp [left]))
      · rw [rateLimit_room full, rateLimit_room (left ▸ full)]
        exact congrArg _ (ih (by simp [left]))
    · have different : (call.bucket == bucket) = false := by simpa using fun same => own same.symm
      rw [List.filter_cons_of_neg (by simp [different]), List.filter_cons_of_neg (by simp [different])]
      exact ih (by rw [rateLimit_other own, same])

theorem exists_now (calls : List Call) : ∃ now, ∀ call ∈ calls, call.now ≤ now := by
  induction calls with
  | nil => exact ⟨0, nofun⟩
  | cons call rest ih =>
    obtain ⟨now, past⟩ := ih
    refine ⟨max call.now now, ?_⟩
    intro other member
    cases member with
    | head => omega
    | tail _ later =>
      have := past other later
      omega

/-- However many calls come: no window of a bucket holds more than its capacity of admitted calls, a call is
refused only after that many within its window, and the buckets do not touch each other. -/
theorem rate_limit_law {calls : List Call} (ordered : Ordered calls) :
    (∀ bucket, Spaced limits bucket (admittedAt bucket (outcomes limits empty calls))) ∧
      (∀ done call rest, outcomes limits empty calls = done ++ ⟨call, false⟩ :: rest → limits.capacity call.bucket ≤
        (admittedAt call.bucket done).countP fun t => t ≤ call.now && call.now < t + limits.window call.bucket) ∧
      ∀ bucket, (outcomes limits empty calls).filter (·.call.bucket == bucket) =
        outcomes limits empty (calls.filter (·.bucket == bucket)) := by
  refine ⟨?_, ?_, fun bucket => outcomes_filter bucket rfl calls⟩
  · intro bucket
    obtain ⟨now, past⟩ := exists_now calls
    exact (run_keeps ordered bucket past).2
  · intro done call rest same
    obtain ⟨before, later, rfl, rfl, refused⟩ := outcomes_split same
    have earlier := List.pairwise_append.mp ordered
    have past : ∀ other ∈ before, other.now ≤ call.now := fun other member => earlier.2.2 other member call (.head _)
    exact refused_full (run_keeps earlier.1 call.bucket past).1 refused.symm

/-- Two calls within ten ticks. -/
theorem rate_limit_law_pair : (outcomes ⟨fun _ => 2, fun _ => 10⟩ empty [⟨"a", 0⟩, ⟨"a", 4⟩, ⟨"b", 5⟩, ⟨"a", 9⟩, ⟨"a", 10⟩]).map (·.admitted) =
      [true, true, true, false, true] ∧
    2 ≤ ([0, 4].countP fun t => t ≤ 9 && 9 < t + 10) := by
  have law := @rate_limit_law ⟨fun _ => 2, fun _ => 10⟩ [⟨"a", 0⟩, ⟨"a", 4⟩, ⟨"b", 5⟩, ⟨"a", 9⟩, ⟨"a", 10⟩]
    (by unfold Ordered; decide)
  refine ⟨by decide, ?_⟩
  exact law.2.1 [⟨⟨"a", 0⟩, true⟩, ⟨⟨"a", 4⟩, true⟩, ⟨⟨"b", 5⟩, true⟩] ⟨"a", 9⟩ [⟨⟨"a", 10⟩, true⟩] (by decide)

end Azbridge.Broker.RateLimit
