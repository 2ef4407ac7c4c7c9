import Mathlib.Logic.Function.Basic
import Mathlib.Logic.Relation
import Mathlib.Data.List.Pairwise
import Azbridge.Lib.Program

/-!
# Interleaved programs

Any number of programs share one world. They interleave at the granularity of single requests,
each may be dropped while it waits for a reply, `admits` says which operations may start in a
world, and `overlap` which of them may be under way at the same time (mutual exclusion is an
`overlap` that some pairs do not have).
-/

namespace Interleaving
variable {Op Req : Type} {Rep : Req → Type} {ε α W : Type}

structure Thread (Op Req : Type) (Rep : Req → Type) (ε α : Type) where
  op : Op
  program : Program Req Rep ε α
  dropped : Bool

/-- The operation is under way: neither dropped nor finished. -/
def Thread.Running (th : Thread Op Req Rep ε α) : Prop :=
  th.dropped = false ∧ ∀ result, th.program ≠ .done result

structure Pool (Op Req : Type) (Rep : Req → Type) (ε α W : Type) where
  world : W
  threads : Nat → Option (Thread Op Req Rep ε α)

/-- Nothing started yet. -/
def Pool.fresh (w : W) : Pool Op Req Rep ε α W := ⟨w, fun _ => none⟩

/-- Thread `t` ran `o` to its end. -/
def Pool.Returned (p : Pool Op Req Rep ε α W) (t : Nat) (o : Op) (result : Except ε α) : Prop :=
  p.threads t = some ⟨o, .done result, false⟩

structure System (Op Req : Type) (Rep : Req → Type) (ε α W : Type) where
  program : Op → Program Req Rep ε α
  answers : Nat → W → (r : Req) → Except ε (Rep r) → W → Prop
  admits : Op → W → Prop
  overlap : Op → Op → Prop

inductive Step (s : System Op Req Rep ε α W) : Pool Op Req Rep ε α W → Pool Op Req Rep ε α W → Prop
  | start {p : Pool Op Req Rep ε α W} (t : Nat) (o : Op) (unused : p.threads t = none) (admitted : s.admits o p.world)
      (alone : ∀ t' th, p.threads t' = some th → th.Running → s.overlap th.op o ∧ s.overlap o th.op) :
      Step s p { p with threads := Function.update p.threads t (some ⟨o, s.program o, false⟩) }
  | answer {p : Pool Op Req Rep ε α W} {t : Nat} {th : Thread Op Req Rep ε α} {r : Req}
      {next : Except ε (Rep r) → Program Req Rep ε α} {reply : Except ε (Rep r)} {w : W}
      (held : p.threads t = some th) (live : th.dropped = false) (waiting : th.program = .call r next)
      (answered : s.answers t p.world r reply w) :
      Step s p ⟨w, Function.update p.threads t (some { th with program := next reply })⟩
  | drop {p : Pool Op Req Rep ε α W} {t : Nat} {th : Thread Op Req Rep ε α}
      (held : p.threads t = some th) (running : th.Running) :
      Step s p { p with threads := Function.update p.threads t (some { th with dropped := true }) }

/-- A thread goes on with its operation; once it is dropped or finished it stays as it is. -/
theorem Step.thread {s : System Op Req Rep ε α W} {p p' : Pool Op Req Rep ε α W} (step : Step s p p') {t : Nat}
    {th : Thread Op Req Rep ε α} (held : p.threads t = some th) :
    ∃ th', p'.threads t = some th' ∧ th'.op = th.op ∧ (¬ th.Running → th' = th) := by
  cases step with
  | start t' o unused admitted alone =>
    have other : t ≠ t' := by
      rintro rfl
      rw [held] at unused
      cases unused
    exact ⟨th, (Function.update_of_ne other ..).trans held, rfl, fun _ => rfl⟩
  | @answer t' th' r next reply w held' live waiting answered =>
    by_cases same : t = t'
    · subst same
      obtain rfl := Option.some.inj (held.symm.trans held')
      exact ⟨_, Function.update_self .., rfl, fun stopped => absurd ⟨live, by simp [waiting]⟩ stopped⟩
    · exact ⟨th, (Function.update_of_ne same ..).trans held, rfl, fun _ => rfl⟩
  | @drop t' th' held' running =>
    by_cases same : t = t'
    · subst same
      obtain rfl := Option.some.inj (held.symm.trans held')
      exact ⟨_, Function.update_self .., rfl, fun stopped => absurd running stopped⟩
    · exact ⟨th, (Function.update_of_ne same ..).trans held, rfl, fun _ => rfl⟩

/-- Any number of steps. -/
def Reaches (s : System Op Req Rep ε α W) : Pool Op Req Rep ε α W → Pool Op Req Rep ε α W → Prop :=
  Relation.ReflTransGen (Step s)

theorem Reaches.thread {s : System Op Req Rep ε α W} {p p' : Pool Op Req Rep ε α W} (run : Reaches s p p') {t : Nat}
    {th : Thread Op Req Rep ε α} (held : p.threads t = some th) :
    ∃ th', p'.threads t = some th' ∧ th'.op = th.op ∧ (¬ th.Running → th' = th) := by
  induction run with
  | refl => exact ⟨th, held, rfl, fun _ => rfl⟩
  | tail _ step ih =>
    obtain ⟨th₁, held₁, op₁, kept₁⟩ := ih
    obtain ⟨th₂, held₂, op₂, kept₂⟩ := step.thread held₁
    refine ⟨th₂, held₂, op₂.trans op₁, fun stopped => ?_⟩
    obtain rfl := kept₁ stopped
    exact kept₂ stopped

/-- What is said of the operations under way, and of all that start, stays so. -/
theorem running_step {s : System Op Req Rep ε α W} {C : Op → Prop} {p p' : Pool Op Req Rep ε α W}
    (admits : ∀ o w, s.admits o w → C o) (first : ∀ t th, p.threads t = some th → th.Running → C th.op) (step : Step s p p') :
    ∀ t th, p'.threads t = some th → th.Running → C th.op := by
  intro t th held running
  cases step with
  | start t' o unused admitted alone =>
    by_cases same : t = t'
    · subst same
      simp only [Function.update_self, Option.some.injEq] at held
      exact held ▸ admits o _ admitted
    · simp only [Function.update_of_ne same] at held
      exact first t th held running
  | @answer t' th' r next reply w held' live waiting answered =>
    by_cases same : t = t'
    · subst same
      simp only [Function.update_self, Option.some.injEq] at held
      exact held ▸ first t th' held' ⟨live, by simp [waiting]⟩
    · simp only [Function.update_of_ne same] at held
      exact first t th held running
  | @drop t' th' held' running' =>
    by_cases same : t = t'
    · subst same
      simp only [Function.update_self, Option.some.injEq] at held
      exact held ▸ first t th' held' running'
    · simp only [Function.update_of_ne same] at held
      exact first t th held running

theorem Reaches.returning {s : System Op Req Rep ε α W} {w : W} {p : Pool Op Req Rep ε α W} {t : Nat} {o : Op}
    {result : Except ε α} (run : Reaches s (Pool.fresh w) p) (returned : p.Returned t o result) :
    ∃ p₀ p₁, Reaches s (Pool.fresh w) p₀ ∧ Step s p₀ p₁ ∧ ¬ p₀.Returned t o result ∧ p₁.Returned t o result ∧
      Reaches s p₁ p := by
  induction run with
  | refl => cases returned
  | @tail q q' before step ih =>
    by_cases earlier : q.Returned t o result
    · obtain ⟨p₀, p₁, run, first, pending, returned', later⟩ := ih earlier
      exact ⟨p₀, p₁, run, first, pending, returned', later.tail step⟩
    · exact ⟨q, q', before, step, earlier, returned, .refl⟩

/-! ### Scripted runs -/

section Scripts
variable {V : Type} {s : System Op Req Rep ε α W} {answer : V → (r : Req) → Option (Except ε (Rep r) × V)} {world : V → W}

/-- No operation is under way. -/
def Pool.Idle (p : Pool Op Req Rep ε α W) : Prop := ∀ t th, p.threads t = some th → ¬ th.Running

theorem Pool.update_held {p : Pool Op Req Rep ε α W} {t : Nat} {th : Thread Op Req Rep ε α}
    (held : p.threads t = some th) : (⟨p.world, Function.update p.threads t (some th)⟩ : Pool Op Req Rep ε α W) = p := by
  rw [Function.update_eq_self_iff.mpr held.symm]

theorem reaches_advance
    (sound : ∀ t v r reply v', answer v r = some (reply, v') → s.answers t (world v) r reply (world v'))
    {n : Nat} {program rest : Program Req Rep ε α} {v v' : V} (ran : program.advance answer n v = some (rest, v'))
    {p : Pool Op Req Rep ε α W} {t : Nat} {o : Op} (held : p.threads t = some ⟨o, program, false⟩)
    (same : p.world = world v) :
    Reaches s p ⟨world v', Function.update p.threads t (some ⟨o, rest, false⟩)⟩ := by
  induction n generalizing program v p with
  | zero =>
    obtain ⟨rfl, rfl⟩ : program = rest ∧ v = v' := by simpa [Program.advance] using ran
    rw [← same, Pool.update_held held]
    exact .refl
  | succ n ih =>
    cases program with
    | done result =>
      obtain ⟨rfl, rfl⟩ : .done result = rest ∧ v = v' := by simpa [Program.advance] using ran
      rw [← same, Pool.update_held held]
      exact .refl
    | call r next =>
      simp only [Program.advance] at ran
      split at ran
      · next reply v₁ answered =>
        have step : Step s p ⟨world v₁, Function.update p.threads t (some ⟨o, next reply, false⟩)⟩ :=
          .answer held rfl rfl (same ▸ sound t v r reply v₁ answered)
        have later := ih ran (p := ⟨world v₁, Function.update p.threads t (some ⟨o, next reply, false⟩)⟩)
          (Function.update_self ..) rfl
        rw [Function.update_idem] at later
        exact .head step later
      · cases ran

/-- An operation started beside others that let it overlap and wait meanwhile. -/
theorem reaches_beside (sound : ∀ t v r reply v', answer v r = some (reply, v') → s.answers t (world v) r reply (world v'))
    {n : Nat} {o : Op} {rest : Program Req Rep ε α} {v v' : V} (admitted : s.admits o (world v))
    (ran : (s.program o).advance answer n v = some (rest, v')) {p : Pool Op Req Rep ε α W} {t : Nat}
    (alone : ∀ t' th, p.threads t' = some th → th.Running → s.overlap th.op o ∧ s.overlap o th.op)
    (unused : p.threads t = none) (same : p.world = world v) :
    Reaches s p ⟨world v', Function.update p.threads t (some ⟨o, rest, false⟩)⟩ := by
  have start : Step s p { p with threads := Function.update p.threads t (some ⟨o, s.program o, false⟩) } :=
    .start t o unused (same ▸ admitted) alone
  have later := reaches_advance sound ran (p := { p with threads := Function.update p.threads t (some ⟨o, s.program o, false⟩) })
    (Function.update_self ..) same
  rw [Function.update_idem] at later
  exact .head start later

/-- An operation started while nothing else runs. -/
theorem reaches_start (sound : ∀ t v r reply v', answer v r = some (reply, v') → s.answers t (world v) r reply (world v'))
    {n : Nat} {o : Op} {rest : Program Req Rep ε α} {v v' : V} (admitted : s.admits o (world v))
    (ran : (s.program o).advance answer n v = some (rest, v')) {p : Pool Op Req Rep ε α W} {t : Nat} (idle : p.Idle)
    (unused : p.threads t = none) (same : p.world = world v) :
    Reaches s p ⟨world v', Function.update p.threads t (some ⟨o, rest, false⟩)⟩ :=
  reaches_beside sound admitted ran (fun t' th held running => absurd running (idle t' th held)) unused same

theorem Pool.Idle.update {p : Pool Op Req Rep ε α W} (idle : p.Idle) {w : W} {t : Nat} {th : Thread Op Req Rep ε α}
    (stopped : ¬ th.Running) : (⟨w, Function.update p.threads t (some th)⟩ : Pool Op Req Rep ε α W).Idle := by
  intro t' th' held
  by_cases own : t' = t
  · subst own
    simp only [Function.update_self, Option.some.injEq] at held
    exact held ▸ stopped
  · simp only [Function.update_of_ne own] at held
    exact idle t' th' held

/-- Whatever is left of an operation can be dropped. -/
theorem reaches_stopped {p : Pool Op Req Rep ε α W} {w : W} {t : Nat} {o : Op} {rest : Program Req Rep ε α}
    (run : Reaches s p ⟨w, Function.update p.threads t (some ⟨o, rest, false⟩)⟩) :
    ∃ th : Thread Op Req Rep ε α, ¬ th.Running ∧ Reaches s p ⟨w, Function.update p.threads t (some th)⟩ := by
  by_cases finished : ∃ result, rest = .done result
  · obtain ⟨result, rfl⟩ := finished
    exact ⟨_, fun running => running.2 result rfl, run⟩
  · have dropped := Relation.ReflTransGen.tail run (.drop (t := t) (Function.update_self ..)
      ⟨rfl, fun result same => finished ⟨result, same⟩⟩)
    rw [Function.update_idem] at dropped
    exact ⟨_, fun running => Bool.noConfusion running.1, dropped⟩

/-- One operation after the other, each dropped after so many requests unless it is finished by then. -/
def play (program : Op → Program Req Rep ε α) (guard : Op → V → Bool)
    (answer : V → (r : Req) → Option (Except ε (Rep r) × V)) : List (Op × Nat) → V → Option V
  | [], v => some v
  | (o, n) :: rest, v =>
    if guard o v then
      match (program o).advance answer n v with
      | some (_, v') => play program guard answer rest v'
      | none => none
    else none

theorem reaches_play (sound : ∀ t v r reply v', answer v r = some (reply, v') → s.answers t (world v) r reply (world v'))
    {guard : Op → V → Bool} (admits : ∀ o v, guard o v = true → s.admits o (world v)) {script : List (Op × Nat)} {v v' : V}
    (played : play s.program guard answer script v = some v') {p : Pool Op Req Rep ε α W} {k : Nat} (idle : p.Idle)
    (unused : ∀ t, k ≤ t → p.threads t = none) (same : p.world = world v) :
    ∃ p', Reaches s p p' ∧ p'.world = world v' ∧ p'.Idle ∧ ∀ t, k + script.length ≤ t → p'.threads t = none := by
  induction script generalizing v p k with
  | nil =>
    cases played
    exact ⟨p, .refl, same, idle, unused⟩
  | cons head script ih =>
    obtain ⟨o, n⟩ := head
    simp only [play] at played
    split at played
    · next guarded =>
      split at played
      · next rest v₁ ran =>
        obtain ⟨th, stopped, run⟩ := reaches_stopped
          (reaches_start sound (admits o v guarded) ran idle (unused k (Nat.le_refl k)) same)
        have later : ∀ t, k + 1 ≤ t → Function.update p.threads k (some th) t = none := by
          intro t after
          rw [Function.update_of_ne (by omega)]
          exact unused t (by omega)
        obtain ⟨p', run', same', idle', unused'⟩ := ih played (idle.update (w := world v₁) stopped) later rfl
        exact ⟨p', run.trans run', same', idle', fun t after => unused' t (by simp at after; omega)⟩
      · cases played
    · cases played

end Scripts

/-! ### Proof outlines -/

/-- What each thread relies on and guarantees, and what its result means for good. -/
structure Outline (s : System Op Req Rep ε α W) where
  invariant : W → Prop
  rely : Nat → Op → W → W → Prop
  guarantee : Nat → Op → W → Req → W → Prop
  post : Nat → Op → Except ε α → W → Prop
  rely_refl : ∀ {t o w}, invariant w → rely t o w w
  rely_trans : ∀ {t o w₁ w₂ w₃}, rely t o w₁ w₂ → rely t o w₂ w₃ → rely t o w₁ w₃
  preserves : ∀ {t o w r w'}, invariant w → guarantee t o w r w' → invariant w'
  compatible : ∀ {t t' o o' w r w'}, t ≠ t' → s.overlap o o' → invariant w →
    guarantee t o w r w' → rely t' o' w w'
  settled : ∀ {t t' o o' w r w' result}, t ≠ t' → invariant w → guarantee t o w r w' →
    post t' o' result w → post t' o' result w'

namespace Outline
variable {s : System Op Req Rep ε α W} (d : Outline s)

def contract (t : Nat) (o : Op) : Program.Contract Req Rep ε W :=
  ⟨s.answers t, d.invariant, d.rely t o, d.guarantee t o⟩

def Meets (t : Nat) (o : Op) : Program Req Rep ε α → W → Prop :=
  Program.Meets (d.contract t o) (fun a => d.post t o (.ok a)) fun e => d.post t o (.error e)

/-- Operations under way at the same time are operations that may overlap. -/
def Apart (s : System Op Req Rep ε α W) (threads : Nat → Option (Thread Op Req Rep ε α)) : Prop :=
  ∀ t t' th th', t ≠ t' → threads t = some th → threads t' = some th' → th.Running → th'.Running →
    s.overlap th.op th'.op

/-- Every thread that was not dropped still meets its contract. -/
structure Holds (p : Pool Op Req Rep ε α W) : Prop where
  invariant : d.invariant p.world
  meets : ∀ t th, p.threads t = some th → th.dropped = false → d.Meets t th.op th.program p.world
  apart : Apart s p.threads

theorem Apart.update {threads : Nat → Option (Thread Op Req Rep ε α)} {t : Nat}
    {new : Thread Op Req Rep ε α} (apart : Apart s threads)
    (fits : new.Running → ∀ t' th, t' ≠ t → threads t' = some th → th.Running →
      s.overlap th.op new.op ∧ s.overlap new.op th.op) :
    Apart s (Function.update threads t (some new)) := by
  intro t₁ t₂ th₁ th₂ different held₁ held₂ run₁ run₂
  by_cases same₁ : t₁ = t
  · subst same₁
    rw [Function.update_self] at held₁
    rw [Function.update_of_ne different.symm] at held₂
    cases held₁
    exact (fits run₁ t₂ th₂ different.symm held₂ run₂).2
  · rw [Function.update_of_ne same₁] at held₁
    by_cases same₂ : t₂ = t
    · subst same₂
      rw [Function.update_self] at held₂
      cases held₂
      exact (fits run₂ t₁ th₁ different held₁ run₁).1
    · rw [Function.update_of_ne same₂] at held₂
      exact apart t₁ t₂ th₁ th₂ different held₁ held₂ run₁ run₂

/-- Whatever runs beside an operation that just returned may overlap with it. -/
theorem Apart.returned {p p' : Pool Op Req Rep ε α W} {t : Nat} {o : Op} {result : Except ε α} (apart : Apart s p.threads)
    (step : Step s p p') (before : ¬ p.Returned t o result) (returned : p'.Returned t o result) {t' : Nat}
    {th : Thread Op Req Rep ε α} (held : p'.threads t' = some th) (running : th.Running) : s.overlap th.op o := by
  have different : t' ≠ t := by
    rintro rfl
    rw [returned, Option.some.injEq] at held
    subst held
    exact running.2 result rfl
  cases step with
  | start t₁ o₁ unused admitted alone =>
    by_cases same : t = t₁
    · subst same
      simp only [Pool.Returned, Function.update_self, Option.some.injEq, Thread.mk.injEq] at returned
      simp only [Function.update_of_ne different] at held
      exact returned.1 ▸ (alone t' th held running).1
    · simp only [Pool.Returned, Function.update_of_ne same] at returned
      exact absurd returned before
  | @answer t₁ th₁ r next reply w held₁ live waiting answered =>
    by_cases same : t = t₁
    · subst same
      simp only [Pool.Returned, Function.update_self, Option.some.injEq, Thread.mk.injEq] at returned
      simp only [Function.update_of_ne different] at held
      exact returned.1 ▸ apart t' t th th₁ different held held₁ running ⟨live, by simp [waiting]⟩
    · simp only [Pool.Returned, Function.update_of_ne same] at returned
      exact absurd returned before
  | @drop t₁ th₁ held₁ running₁ =>
    by_cases same : t = t₁
    · subst same
      simp [Pool.Returned] at returned
    · simp only [Pool.Returned, Function.update_of_ne same] at returned
      exact absurd returned before

variable {d}

theorem holds_fresh {w : W} (start : d.invariant w) : d.Holds (Pool.fresh w) :=
  ⟨start, by simp [Pool.fresh], by simp [Pool.fresh, Apart]⟩

private theorem meets_other {t t' : Nat} {o o' : Op} {r : Req} {w w' : W} {p : Program Req Rep ε α}
    (different : t ≠ t') (inv : d.invariant w) (kept : d.guarantee t o w r w')
    (overlap : (∀ result, p ≠ .done result) → s.overlap o o') (h : d.Meets t' o' p w) : d.Meets t' o' p w' := by
  cases p with
  | done result => cases result <;> exact d.settled different inv kept h
  | call r next =>
    have pending : ∀ result, Program.call r next ≠ .done result := by simp
    exact Program.Meets.stable h (fun _ _ _ => d.rely_trans)
      (d.compatible different (overlap pending) inv kept) pending

theorem holds_step {p p' : Pool Op Req Rep ε α W}
    (starts : ∀ t o w, d.invariant w → s.admits o w → d.Meets t o (s.program o) w)
    (h : d.Holds p) (step : Step s p p') : d.Holds p' := by
  obtain ⟨inv, meets, apart⟩ := h
  cases step with
  | start t o unused admitted alone =>
    refine ⟨inv, ?_, apart.update fun _ t' th _ held running => alone t' th held running⟩
    intro t' th held live
    by_cases same : t' = t
    · subst same
      simp only [Function.update_self, Option.some.injEq] at held
      subst held
      exact starts t' o _ inv admitted
    · simp only [Function.update_of_ne same] at held
      exact meets t' th held live
  | @answer t th r next reply w held live waiting answered =>
    have current := meets t th held live
    rw [waiting] at current
    obtain ⟨kept, rest⟩ := current _ (d.rely_refl inv) inv reply w answered
    have running : th.Running := ⟨live, by simp [waiting]⟩
    refine ⟨d.preserves inv kept, ?_, apart.update fun _ t' th' different held' running' =>
      ⟨apart t' t th' th different held' held running' running,
        apart t t' th th' different.symm held held' running running'⟩⟩
    intro t' th' held' live'
    by_cases same : t' = t
    · subst same
      simp only [Function.update_self, Option.some.injEq] at held'
      subst held'
      exact rest
    · simp only [Function.update_of_ne same] at held'
      exact meets_other (Ne.symm same) inv kept
        (fun pending => apart t t' th th' (Ne.symm same) held held' running ⟨live', pending⟩)
        (meets t' th' held' live')
  | @drop t th held running =>
    refine ⟨inv, ?_, apart.update fun impossible => absurd impossible.1 (by simp)⟩
    intro t' th' held' live'
    by_cases same : t' = t
    · subst same
      simp only [Function.update_self, Option.some.injEq] at held'
      subst held'
      cases live'
    · simp only [Function.update_of_ne same] at held'
      exact meets t' th' held' live'

theorem holds_reaches {p p' : Pool Op Req Rep ε α W}
    (starts : ∀ t o w, d.invariant w → s.admits o w → d.Meets t o (s.program o) w)
    (h : d.Holds p) (run : Reaches s p p') : d.Holds p' := by
  induction run with
  | refl => exact h
  | tail _ step ih => exact holds_step starts ih step

theorem Holds.returned {p : Pool Op Req Rep ε α W} {t : Nat} {o : Op} {result : Except ε α}
    (h : d.Holds p) (returned : p.Returned t o result) : d.post t o result p.world := by
  have meets := h.meets t _ returned rfl
  cases result <;> exact meets

theorem Holds.guarantees {p : Pool Op Req Rep ε α W} {t : Nat} {th : Thread Op Req Rep ε α} {r : Req}
    {next : Except ε (Rep r) → Program Req Rep ε α} {reply : Except ε (Rep r)} {w : W} (h : d.Holds p)
    (held : p.threads t = some th) (live : th.dropped = false) (waiting : th.program = .call r next)
    (answered : s.answers t p.world r reply w) : d.guarantee t th.op p.world r w := by
  have current := h.meets t th held live
  rw [waiting] at current
  exact (current _ (d.rely_refl h.invariant) h.invariant reply w answered).1

/-- A step leaves the world as it is, or changes it as a thread that runs guarantees. -/
theorem Holds.world_step {p p' : Pool Op Req Rep ε α W} (h : d.Holds p) (step : Step s p p') :
    p'.world = p.world ∨ ∃ t th r, p.threads t = some th ∧ th.Running ∧ d.guarantee t th.op p.world r p'.world := by
  cases step with
  | start => exact .inl rfl
  | drop => exact .inl rfl
  | @answer t th r next reply w held live waiting answered =>
    exact .inr ⟨t, th, r, held, ⟨live, by simp [waiting]⟩, h.guarantees held live waiting answered⟩

/-- The same outline where one more thing is known of the world. -/
def strengthen (d : Outline s) (J : W → Prop)
    (kept : ∀ {t o w r w'}, d.invariant w → J w → d.guarantee t o w r w' → J w') : Outline s where
  invariant w := d.invariant w ∧ J w
  rely := d.rely
  guarantee := d.guarantee
  post := d.post
  rely_refl inv := d.rely_refl inv.1
  rely_trans := d.rely_trans
  preserves inv ensured := ⟨d.preserves inv.1 ensured, kept inv.1 inv.2 ensured⟩
  compatible different overlap inv := d.compatible different overlap inv.1
  settled different inv := d.settled different inv.1

theorem meets_strengthen {J : W → Prop} (kept : ∀ {t o w r w'}, d.invariant w → J w → d.guarantee t o w r w' → J w')
    {t : Nat} {o : Op} {p : Program Req Rep ε α} {w : W} (h : d.Meets t o p w) : (d.strengthen J kept).Meets t o p w :=
  Program.Meets.answers h (fun _ _ _ _ answered => answered) (fun _ inv => inv.1) (fun _ _ relied => relied)
    fun _ _ _ _ ensured => ensured

/-- The same outline where every result is as `Q` says. -/
def concluding (d : Outline s) (Q : Op → Except ε α → Prop) : Outline s :=
  { d with
    post := fun _ o result _ => Q o result
    settled := fun _ _ _ concluded => concluded }

/-! ### What a result means when it is returned -/

/-- The program ends as `Q` says; nothing is said of later states. -/
def Ends (d : Outline s) (Q : Nat → Op → Except ε α → W → Prop) (t : Nat) (o : Op) : Program Req Rep ε α → W → Prop :=
  Program.Meets (d.contract t o) (fun a => Q t o (.ok a)) fun e => Q t o (.error e)

structure Engaged (d : Outline s) (Q : Nat → Op → Except ε α → W → Prop) (p : Pool Op Req Rep ε α W) : Prop where
  invariant : d.invariant p.world
  ends : ∀ t th, p.threads t = some th → th.Running → d.Ends Q t th.op th.program p.world
  apart : Apart s p.threads

variable {Q : Nat → Op → Except ε α → W → Prop}

theorem engaged_fresh {w : W} (start : d.invariant w) : d.Engaged Q (Pool.fresh w) :=
  ⟨start, by simp [Pool.fresh], by simp [Pool.fresh, Apart]⟩

theorem engaged_step {p p' : Pool Op Req Rep ε α W}
    (starts : ∀ t o w, d.invariant w → s.admits o w → d.Ends Q t o (s.program o) w)
    (h : d.Engaged Q p) (step : Step s p p') : d.Engaged Q p' := by
  obtain ⟨inv, ends, apart⟩ := h
  cases step with
  | start t o unused admitted alone =>
    refine ⟨inv, ?_, apart.update fun _ t' th _ held running => alone t' th held running⟩
    intro t' th held running
    by_cases same : t' = t
    · subst same
      simp only [Function.update_self, Option.some.injEq] at held
      subst held
      exact starts t' o _ inv admitted
    · simp only [Function.update_of_ne same] at held
      exact ends t' th held running
  | @answer t th r next reply w held live waiting answered =>
    have running : th.Running := ⟨live, by simp [waiting]⟩
    have current := ends t th held running
    rw [waiting] at current
    obtain ⟨kept, rest⟩ := current _ (d.rely_refl inv) inv reply w answered
    refine ⟨d.preserves inv kept, ?_, apart.update fun _ t' th' different held' running' =>
      ⟨apart t' t th' th different held' held running' running,
        apart t t' th th' different.symm held held' running running'⟩⟩
    intro t' th' held' running'
    by_cases same : t' = t
    · subst same
      simp only [Function.update_self, Option.some.injEq] at held'
      subst held'
      exact rest
    · simp only [Function.update_of_ne same] at held'
      have relied := d.compatible (Ne.symm same) (apart t t' th th' (Ne.symm same) held held' running running') inv kept
      exact (ends t' th' held' running').stable (fun _ _ _ => d.rely_trans) relied running'.2
  | @drop t th held running =>
    refine ⟨inv, ?_, apart.update fun impossible => absurd impossible.1 (by simp)⟩
    intro t' th' held' running'
    by_cases same : t' = t
    · subst same
      simp only [Function.update_self, Option.some.injEq] at held'
      subst held'
      cases running'.1
    · simp only [Function.update_of_ne same] at held'
      exact ends t' th' held' running'

theorem engaged_reaches {p p' : Pool Op Req Rep ε α W}
    (starts : ∀ t o w, d.invariant w → s.admits o w → d.Ends Q t o (s.program o) w)
    (h : d.Engaged Q p) (run : Reaches s p p') : d.Engaged Q p' := by
  induction run with
  | refl => exact h
  | tail _ step ih => exact engaged_step starts ih step

/-- The step that returns a result ends as `Q` says. -/
theorem Engaged.returned {p p' : Pool Op Req Rep ε α W} {t : Nat} {o : Op} {result : Except ε α}
    (starts : ∀ t o w, d.invariant w → s.admits o w → d.Ends Q t o (s.program o) w) (h : d.Engaged Q p)
    (step : Step s p p') (before : ¬ p.Returned t o result) (returned : p'.Returned t o result) :
    Q t o result p'.world := by
  have ended : ∀ {w}, d.Ends Q t o (.done result) w → Q t o result w := by
    intro w ends
    cases result <;> exact ends
  cases step with
  | start t' o' unused admitted alone =>
    by_cases same : t = t'
    · subst same
      simp only [Pool.Returned, Function.update_self, Option.some.injEq, Thread.mk.injEq] at returned
      obtain ⟨rfl, finished, -⟩ := returned
      exact ended (finished ▸ starts t o' _ h.invariant admitted)
    · simp only [Pool.Returned, Function.update_of_ne same] at returned
      exact absurd returned before
  | @answer t' th r next reply w held live waiting answered =>
    by_cases same : t = t'
    · subst same
      simp only [Pool.Returned, Function.update_self, Option.some.injEq, Thread.mk.injEq] at returned
      obtain ⟨rfl, finished, -⟩ := returned
      have current := h.ends t th held ⟨live, by simp [waiting]⟩
      rw [waiting] at current
      exact ended (finished ▸ (current _ (d.rely_refl h.invariant) h.invariant reply w answered).2)
    · simp only [Pool.Returned, Function.update_of_ne same] at returned
      exact absurd returned before
  | @drop t' th held running =>
    by_cases same : t = t'
    · subst same
      simp [Pool.Returned] at returned
    · simp only [Pool.Returned, Function.update_of_ne same] at returned
      exact absurd returned before

end Outline

/-! ### Recorded history -/

/-- One answered request and the thread that put it. -/
abbrev Event (Req : Type) (Rep : Req → Type) (ε : Type) := Nat × (r : Req) × Except ε (Rep r)

/-- Answer as before and append what happened to the record. -/
def observe (answers : W → (r : Req) → Except ε (Rep r) → W → Prop) (t : Nat)
    (w : W × List (Event Req Rep ε)) (r : Req) (reply : Except ε (Rep r))
    (w' : W × List (Event Req Rep ε)) : Prop :=
  answers w.1 r reply w'.1 ∧ w'.2 = w.2 ++ [(t, ⟨r, reply⟩)]

/-- What thread `t` has asked and been told so far. -/
def trace (t : Nat) (history : List (Event Req Rep ε)) : List ((r : Req) × Except ε (Rep r)) :=
  history.filterMap fun e => if e.1 = t then some e.2 else none

theorem trace_own (t : Nat) (history : List (Event Req Rep ε)) (e : (r : Req) × Except ε (Rep r)) :
    trace t (history ++ [(t, e)]) = trace t history ++ [e] := by
  simp [trace, List.filterMap_append]

theorem trace_other {t t' : Nat} (different : t' ≠ t) (history : List (Event Req Rep ε))
    (e : (r : Req) × Except ε (Rep r)) : trace t (history ++ [(t', e)]) = trace t history := by
  simp [trace, List.filterMap_append, different]

theorem mem_trace {t : Nat} {history : List (Event Req Rep ε)} {e : (r : Req) × Except ε (Rep r)} :
    e ∈ trace t history ↔ (t, e) ∈ history := by
  simp only [trace, List.mem_filterMap, Option.ite_none_right_eq_some, Option.some.injEq]
  constructor
  · rintro ⟨⟨t', e'⟩, member, rfl, rfl⟩
    exact member
  · intro member
    exact ⟨(t, e), member, rfl, rfl⟩

/-- At most one event of the record satisfies `P`. -/
def AtMostOnce (P : Event Req Rep ε → Prop) (history : List (Event Req Rep ε)) : Prop :=
  history.Pairwise fun a b => ¬ (P a ∧ P b)

/-- An event that needs `P` never to have happened happens once. -/
theorem AtMostOnce.append {P : Event Req Rep ε → Prop} {history : List (Event Req Rep ε)}
    {e : Event Req Rep ε} (once : AtMostOnce P history) (first : P e → ∀ a ∈ history, ¬ P a) :
    AtMostOnce P (history ++ [e]) := by
  refine List.pairwise_append.mpr ⟨once, List.pairwise_singleton _ _, ?_⟩
  intro a member b new both
  obtain rfl := List.mem_singleton.mp new
  exact first both.2 a member both.1

theorem AtMostOnce.unique {P : Event Req Rep ε → Prop} {history : List (Event Req Rep ε)}
    (once : AtMostOnce P history) {a b : Event Req Rep ε} (ha : a ∈ history) (hb : b ∈ history)
    (pa : P a) (pb : P b) : a = b := by
  by_contra different
  have symmetric : Std.Symm fun a b : Event Req Rep ε => ¬ (P a ∧ P b) := ⟨fun _ _ h both => h both.symm⟩
  exact List.Pairwise.forall once ha hb different ⟨pa, pb⟩

end Interleaving
