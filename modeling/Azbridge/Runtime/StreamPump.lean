import Azbridge.Lib.Traces
import Mathlib.Logic.Function.Basic

/-!
# The stream pump

Two tasks copy between two streams, one in each direction. `run` waits for the first of them, gives
the other five seconds, and returns what each has counted.
-/

namespace Azbridge.StreamPump

abbrev Bytes := List UInt8

def bufferSize : Nat := 65536

/-- What the handle of a task gives once the task is over. -/
inductive Outcome where
  | returned (result : Except String Nat)
  | panicked
  deriving DecidableEq

/-- Where a `copy_with_shutdown` waits. -/
inductive Stage where
  | reading
  /-- In `write_all` of a chunk of this length, of which these bytes are left. -/
  | writing (n : Nat) (left : Bytes)
  | flushing (n : Nat)
  | shuttingDown
  | ended (outcome : Outcome)
  deriving DecidableEq

structure Copy where
  stage : Stage := .reading
  /-- A `u64`, which no stream comes near to filling. -/
  total : Nat := 0
  /-- All that the reader has given so far. -/
  read : Bytes := []
  /-- All that the writer has taken so far. -/
  written : Bytes := []
  deriving DecidableEq

def Copy.hasEnded (c : Copy) : Bool :=
  match c.stage with
  | .ended _ => true
  | _ => false

inductive Move where
  /-- No bytes are the end of the stream. -/
  | read (data : Bytes)
  | wrote (n : Nat)
  | flushed
  | shutDown
  /-- What is awaited fails. -/
  | failed (error : String)
  | panicked

/-- One step of `copy_with_shutdown`. -/
def move (c : Copy) : Move → Option Copy
  | .read data =>
    if c.stage = .reading ∧ data.length ≤ bufferSize then
      some { c with read := c.read ++ data, stage := if data = [] then .shuttingDown else .writing data.length data }
    else none
  | .wrote n =>
    match c.stage with
    | .writing size left =>
      if 0 < n ∧ n ≤ left.length then
        some { c with
          written := c.written ++ left.take n
          stage := if left.drop n = [] then .flushing size else .writing size (left.drop n) }
      else none
    | _ => none
  | .flushed =>
    match c.stage with
    | .flushing size => some { c with total := c.total + size, stage := .reading }
    | _ => none
  | .shutDown => if c.stage = .shuttingDown then some { c with stage := .ended (.returned (.ok c.total)) } else none
  | .failed error => if c.hasEnded then none else some { c with stage := .ended (.returned (.error error)) }
  | .panicked => if c.hasEnded then none else some { c with stage := .ended .panicked }

inductive Direction where
  | aToB | bToA
  deriving DecidableEq, Repr

def Direction.other : Direction → Direction
  | .aToB => .bToA
  | .bToA => .aToB

/-- Where `run` is. -/
inductive Phase where
  | selecting
  /-- One direction came to its end with so many bytes; the other has five seconds. -/
  | waiting (first : Direction) (bytes : Nat)
  | returned (result : Except String (Nat × Nat))

structure State where
  copies : Direction → Copy := fun _ => {}
  phase : Phase := .selecting

inductive Event where
  | copy (d : Direction) (m : Move)
  /-- The select finds a task that is over. -/
  | selected (d : Direction)
  | joined
  /-- The five seconds pass. -/
  | elapsed

def counts (first : Direction) (bytes later : Nat) : Nat × Nat :=
  match first with
  | .aToB => (bytes, later)
  | .bToA => (later, bytes)

def step (s : State) : Event → Option State
  | .copy d m => (move (s.copies d) m).map fun c => { s with copies := Function.update s.copies d c }
  | .selected d =>
    match s.phase, (s.copies d).stage with
    | .selecting, .ended (.returned (.ok n)) => some { s with phase := .waiting d n }
    | .selecting, .ended (.returned (.error e)) => some { s with phase := .returned (.error e) }
    | .selecting, .ended .panicked => some { s with phase := .returned (.error "task panicked") }
    | _, _ => none
  | .joined =>
    match s.phase with
    | .waiting first bytes =>
      match (s.copies first.other).stage with
      | .ended (.returned (.ok n)) => some { s with phase := .returned (.ok (counts first bytes n)) }
      | .ended _ => some { s with phase := .returned (.ok (counts first bytes 0)) }
      | _ => none
    | _ => none
  | .elapsed =>
    match s.phase with
    | .waiting first bytes =>
      -- a task that is over by then is found first
      if (s.copies first.other).hasEnded then none else some { s with phase := .returned (.ok (counts first bytes 0)) }
    | _ => none

abbrev run := Traces.run step

/-- The bytes written in each direction are the first of those read, in order. -/
def InOrder (s : State) : Prop := ∀ d, (s.copies d).written <+: (s.copies d).read

/-- Once `run` has returned, no task runs, and the counts are those of the bytes written. -/
def Complete (s : State) : Prop :=
  ∀ result, s.phase = .returned result → (∀ d, (s.copies d).hasEnded = true) ∧
    ∀ a b, result = .ok (a, b) → a = (s.copies .aToB).written.length ∧ b = (s.copies .bToA).written.length

/-- The other task is over when the first has failed, the five seconds do not pass, and a direction that
failed in them had written nothing. -/
def careful (s : State) : Event → Bool
  | .copy _ _ => true
  | .selected d =>
    match (s.copies d).stage with
    | .ended (.returned (.ok _)) => true
    | _ => (s.copies d.other).hasEnded
  | .joined =>
    match s.phase with
    | .waiting first _ =>
      match (s.copies first.other).stage with
      | .ended (.returned (.ok _)) => true
      | _ => (s.copies first.other).written = []
    | _ => true
  | .elapsed => false

/-- What is written is in order, and counted when it has been flushed. -/
def Copy.Holds (c : Copy) : Prop :=
  c.written <+: c.read ∧
    match c.stage with
    | .reading | .shuttingDown => c.read = c.written ∧ c.written.length = c.total
    | .writing n left => c.read = c.written ++ left ∧ c.written.length + left.length = c.total + n
    | .flushing n => c.read = c.written ∧ c.written.length = c.total + n
    | .ended (.returned (.ok n)) => n = c.written.length
    | .ended _ => True

theorem move_holds {c c' : Copy} {m : Move} (holds : c.Holds) (moved : move c m = some c') : c'.Holds := by
  obtain ⟨ordered, at_stage⟩ := holds
  unfold move at moved
  cases m with
  | read data =>
    simp only at moved
    split at moved <;> cases moved
    rename_i can
    rw [can.1] at at_stage
    obtain ⟨same, counted⟩ := at_stage
    refine ⟨ordered.trans (List.prefix_append ..), ?_⟩
    by_cases last : data = []
    · simp [last, same, counted]
    · simp only [last, if_false]
      exact ⟨by rw [same], by omega⟩
  | wrote n =>
    simp only at moved
    split at moved <;> try cases moved
    rename_i size left here
    split at moved <;> cases moved
    rename_i bounds
    rw [here] at at_stage
    obtain ⟨same, counted⟩ := at_stage
    have parts : c.written ++ left = (c.written ++ left.take n) ++ left.drop n := by
      rw [List.append_assoc, List.take_append_drop]
    have lengths : (left.take n).length + (left.drop n).length = left.length := by
      rw [← List.length_append, List.take_append_drop]
    have read : c.read = (c.written ++ left.take n) ++ left.drop n := same.trans parts
    refine ⟨⟨left.drop n, read.symm⟩, ?_⟩
    by_cases all : left.drop n = []
    · rw [all, List.append_nil] at read
      rw [all, List.length_nil] at lengths
      simp only [all, if_true, List.length_append]
      exact ⟨read, by omega⟩
    · simp only [all, if_false, List.length_append]
      exact ⟨read, by omega⟩
  | flushed =>
    simp only at moved
    split at moved <;> cases moved
    rename_i size here
    rw [here] at at_stage
    exact ⟨ordered, at_stage⟩
  | shutDown =>
    simp only at moved
    split at moved <;> cases moved
    rename_i here
    rw [here] at at_stage
    exact ⟨ordered, at_stage.2.symm⟩
  | failed error =>
    simp only at moved
    split at moved <;> cases moved
    exact ⟨ordered, trivial⟩
  | panicked =>
    simp only at moved
    split at moved <;> cases moved
    exact ⟨ordered, trivial⟩

/-- A task that is over does nothing more. -/
theorem move_of_ended {c : Copy} (ended : c.hasEnded = true) (m : Move) : move c m = none := by
  unfold Copy.hasEnded at ended
  cases m <;> unfold move <;> split at ended <;> simp_all [Copy.hasEnded]

theorem hasEnded_iff {c : Copy} : c.hasEnded = true ↔ ∃ outcome, c.stage = .ended outcome := by
  unfold Copy.hasEnded
  cases c.stage <;> simp

theorem Copy.Holds.result {c : Copy} (holds : c.Holds) {n : Nat} (ended : c.stage = .ended (.returned (.ok n))) :
    n = c.written.length := by
  have at_stage := holds.2
  rw [ended] at at_stage
  exact at_stage

structure Holds (s : State) : Prop where
  copies : ∀ d, (s.copies d).Holds
  waits : ∀ first bytes, s.phase = .waiting first bytes → (s.copies first).stage = .ended (.returned (.ok bytes))

variable {s t : State} {e : Event}

theorem Holds.inOrder (holds : Holds s) : InOrder s := fun d => (holds.copies d).1

theorem Holds.step (holds : Holds s) (came : step s e = some t) : Holds t := by
  cases e with
  | copy d m =>
    obtain ⟨c, moved, rfl⟩ := Option.map_eq_some_iff.mp came
    constructor
    · intro d'
      by_cases same : d' = d
      · subst same
        simpa using move_holds (holds.copies d') moved
      · simpa [same] using holds.copies d'
    · intro first bytes waiting
      have ended := holds.waits first bytes waiting
      have other : first ≠ d := by
        intro same
        rw [same] at ended
        rw [move_of_ended (hasEnded_iff.mpr ⟨_, ended⟩)] at moved
        cases moved
      simpa [other] using ended
  | selected d =>
    simp only [StreamPump.step] at came
    split at came <;> cases came
    · rename_i n _ ended
      refine ⟨holds.copies, ?_⟩
      intro first bytes waiting
      cases waiting
      exact ended
    all_goals exact ⟨holds.copies, by simp⟩
  | joined =>
    simp only [StreamPump.step] at came
    split at came <;> try cases came
    split at came <;> cases came
    all_goals exact ⟨holds.copies, by simp⟩
  | elapsed =>
    simp only [StreamPump.step] at came
    split at came <;> try cases came
    split at came <;> cases came
    exact ⟨holds.copies, by simp⟩

theorem each_direction {p : Direction → Prop} (d : Direction) : (∀ d, p d) ↔ p d ∧ p d.other := by
  constructor
  · exact fun all => ⟨all d, all d.other⟩
  · rintro ⟨first, second⟩ d'
    cases d <;> cases d' <;> assumption

theorem counts_right {first : Direction} {bytes later : Nat} {copies : Direction → Copy}
    (counted : bytes = (copies first).written.length) : (∀ a b, (Except.ok (counts first bytes later) : Except String _) = .ok (a, b) →
      a = (copies .aToB).written.length ∧ b = (copies .bToA).written.length) ↔ later = (copies first.other).written.length := by
  cases first <;> simp_all [counts, Direction.other]

theorem complete_iff_careful (holds : Holds s) (complete : Complete s) (came : step s e = some t) :
    Complete t ↔ careful s e = true := by
  cases e with
  | copy d m =>
    obtain ⟨c, moved, rfl⟩ := Option.map_eq_some_iff.mp came
    simp only [careful, iff_true]
    intro result returned
    have ended := (complete result returned).1 d
    rw [move_of_ended ended] at moved
    cases moved
  | selected d =>
    simp only [StreamPump.step] at came
    split at came <;> cases came
    · rename_i n _ ended
      simp [careful, ended, Complete]
    all_goals
      rename_i ended
      have finished : (s.copies d).hasEnded = true := hasEnded_iff.mpr ⟨_, ended⟩
      simp [careful, ended, Complete, each_direction d, finished]
  | joined =>
    simp only [StreamPump.step] at came
    split at came <;> try cases came
    rename_i first bytes waiting
    have counted := (holds.copies first).result (holds.waits first bytes waiting)
    have finished := hasEnded_iff.mpr ⟨_, holds.waits first bytes waiting⟩
    split at came <;> cases came
    · rename_i n ended
      have finished' := hasEnded_iff.mpr ⟨_, ended⟩
      simp only [careful, waiting, ended, iff_true]
      intro result returned
      cases returned
      exact ⟨(each_direction first).mpr ⟨finished, finished'⟩, (counts_right counted).mpr ((holds.copies first.other).result ended)⟩
    · rename_i outcome failed ended
      have finished' := hasEnded_iff.mpr ⟨_, ended⟩
      have admitted : careful s .joined = decide ((s.copies first.other).written = []) := by
        simp only [careful, waiting]
        split
        · rename_i ended'
          exact absurd (ended.symm.trans ended') (by simpa using failed _)
        · rfl
      rw [admitted, decide_eq_true_iff, ← List.length_eq_zero_iff]
      constructor
      · intro right
        exact ((counts_right counted).mp (right _ rfl).2).symm
      · intro nothing result returned
        cases returned
        exact ⟨(each_direction first).mpr ⟨finished, finished'⟩, (counts_right counted).mpr nothing.symm⟩
  | elapsed =>
    simp only [StreamPump.step] at came
    split at came <;> try cases came
    rename_i first bytes waiting
    split at came <;> cases came
    rename_i runs
    simp only [careful, Bool.false_eq_true, iff_false]
    intro right
    exact runs ((right _ rfl).1 first.other)

/-- What is written is always what was read, in order. And `run` returns with both directions over and
their true counts exactly in the runs whose steps are all careful. -/
theorem pump_completes_iff {events : List Event} (ran : run {} events = some s) :
    Traces.Throughout step InOrder {} events ∧
      (Traces.Throughout step Complete {} events ↔ Traces.Admitted step (fun s e => careful s e = true) {} events) := by
  have start : Holds {} := ⟨fun d => by simp [Copy.Holds], by simp⟩
  constructor
  · exact Traces.throughout_of_kept (fun _ _ _ holds came => Holds.step holds came) (fun _ holds => holds.inOrder) start
  · exact Traces.throughout_iff_admitted (fun _ _ _ holds came => Holds.step holds came)
      (fun _ _ _ holds complete came => complete_iff_careful holds complete came) ran start (by simp [Complete])

/-- One direction copies three bytes in two writes, the other none, and both come to their ends. -/
def transfer : List Event :=
  [.copy .aToB (.read [1, 2, 3]), .copy .aToB (.wrote 2), .copy .aToB (.wrote 1), .copy .aToB .flushed, .copy .bToA (.read []),
    .copy .aToB (.read []), .copy .aToB .shutDown, .selected .aToB, .copy .bToA .shutDown, .joined]

theorem pump_completes_iff_transfer : ∃ s, run {} transfer = some s ∧ Traces.Throughout step InOrder {} transfer ∧
    (Traces.Throughout step Complete {} transfer ↔ Traces.Admitted step (fun s e => careful s e = true) {} transfer) :=
  ⟨_, rfl, pump_completes_iff rfl⟩

/-- One direction ends at once. The other has written a byte and waits for more when the time is up: it
goes on, and no byte is counted. -/
def overdue : List Event :=
  [.copy .aToB (.read []), .copy .aToB .shutDown, .selected .aToB, .copy .bToA (.read [7]), .copy .bToA (.wrote 1),
    .copy .bToA .flushed, .elapsed]

theorem overdue_direction_goes_on : ¬ ∀ events s, run {} events = some s →
    Traces.Throughout step InOrder {} events ∧ Traces.Throughout step Complete {} events := by
  intro completes
  have start : Holds {} := ⟨fun d => by simp [Copy.Holds], by simp⟩
  have complete := (completes overdue _ rfl).2
  have careful : Traces.Admitted step (fun s e => careful s e = true) {} overdue :=
    (Traces.throughout_iff_admitted (fun _ _ _ holds came => Holds.step holds came)
      (fun _ _ _ holds complete came => complete_iff_careful holds complete came)
      (show run {} overdue = some _ from rfl) start (by simp [Complete])).mp complete
  exact absurd careful (by decide)

end Azbridge.StreamPump
