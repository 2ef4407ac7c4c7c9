import Mathlib.Logic.Function.Basic
import Mathlib.Logic.Relation
import Azbridge.Lib.Program

/-!
# Calls under one lock

Any number of calls share data that each of them locks and holds to its end. A call runs without
interruption from one await to the next, and at an await it may be cancelled, which frees the lock
and leaves the data as they are. The log of a run tells who took the lock, what was answered and how
each call ended.
-/

namespace Locked

/-- What a call does: read or write the data, read its surroundings, or await an answer. -/
inductive Query (D A : Type)
  | get
  | put (data : D)
  | readings
  | await (request : A)

variable {Op D A Ω ε α β : Type} {R : A → Type}

@[reducible] def Query.Reply (Ω : Type) (R : A → Type) : Query D A → Type
  | .get => D
  | .put _ => Unit
  | .readings => Ω
  | .await request => R request

/-- A call that holds the lock. -/
abbrev Body (D A Ω : Type) (R : A → Type) (ε α : Type) := Program (Query D A) (Query.Reply Ω R) ε α

def settle : Body D A Ω R ε α → D → Ω → Body D A Ω R ε α × D
  | .done result, data, _ => (.done result, data)
  | .call .get next, data, ω => settle (next (.ok data)) data ω
  | .call (.put data) next, _, ω => settle (next (.ok ())) data ω
  | .call .readings next, data, ω => settle (next (.ok ω)) data ω
  | .call (.await request) next, data, _ => (.call (.await request) next, data)

inductive Phase (D A Ω : Type) (R : A → Type) (ε α : Type)
  | waiting
  | inside (body : Body D A Ω R ε α)
  | finished

inductive Event (Op A Ω : Type) (R : A → Type) (ε α : Type)
  | took (t : Nat) (op : Op)
  | answered (t : Nat) (request : A) (reply : Except ε (R request)) (readings : Ω)
  /-- Without a result the call was cancelled. -/
  | ended (t : Nat) (op : Op) (result : Option (Except ε α))

structure State (Op D A Ω : Type) (R : A → Type) (ε α : Type) where
  data : D
  calls : Nat → Option (Op × Phase D A Ω R ε α)
  log : List (Event Op A Ω R ε α)

/-- No call yet. -/
def State.fresh (data : D) : State Op D A Ω R ε α := ⟨data, fun _ => none, []⟩

/-- No call holds the lock. -/
def State.Free (s : State Op D A Ω R ε α) : Prop := ∀ t op body, s.calls t ≠ some (op, .inside body)

/-- The call went on as far as it could. -/
def State.resume (s : State Op D A Ω R ε α) (t : Nat) (op : Op) (event : Event Op A Ω R ε α)
    (settled : Body D A Ω R ε α × D) : State Op D A Ω R ε α :=
  match settled with
  | (.done result, data) =>
    ⟨data, Function.update s.calls t (some (op, .finished)), s.log ++ [event, .ended t op (some result)]⟩
  | (body, data) => ⟨data, Function.update s.calls t (some (op, .inside body)), s.log ++ [event]⟩

/-- What each operation does under the lock, unless it is refused before. -/
abbrev Calls (Op D A Ω : Type) (R : A → Type) (ε α : Type) := Op → Except ε (Body D A Ω R ε α)

inductive Step (calls : Calls Op D A Ω R ε α) : State Op D A Ω R ε α → State Op D A Ω R ε α → Prop
  | start {s : State Op D A Ω R ε α} (t : Nat) (op : Op) {body : Body D A Ω R ε α} (unused : s.calls t = none)
      (locks : calls op = .ok body) : Step calls s { s with calls := Function.update s.calls t (some (op, .waiting)) }
  | refuse {s : State Op D A Ω R ε α} (t : Nat) (op : Op) {e : ε} (unused : s.calls t = none) (refused : calls op = .error e) :
      Step calls s ⟨s.data, Function.update s.calls t (some (op, .finished)), s.log ++ [.ended t op (some (.error e))]⟩
  | take {s : State Op D A Ω R ε α} {t : Nat} {op : Op} {body : Body D A Ω R ε α} (ω : Ω)
      (held : s.calls t = some (op, .waiting)) (free : s.Free) (locks : calls op = .ok body) :
      Step calls s (s.resume t op (.took t op) (settle body s.data ω))
  | answer {s : State Op D A Ω R ε α} {t : Nat} {op : Op} {request : A}
      {next : Except ε (R request) → Body D A Ω R ε α} (reply : Except ε (R request)) (ω : Ω)
      (held : s.calls t = some (op, .inside (.call (.await request) next))) :
      Step calls s (s.resume t op (.answered t request reply ω) (settle (next reply) s.data ω))
  | cancel {s : State Op D A Ω R ε α} {t : Nat} {op : Op} {phase : Phase D A Ω R ε α} (held : s.calls t = some (op, phase))
      (running : phase ≠ .finished) :
      Step calls s ⟨s.data, Function.update s.calls t (some (op, .finished)), s.log ++ [.ended t op none]⟩

def Reaches (calls : Calls Op D A Ω R ε α) : State Op D A Ω R ε α → State Op D A Ω R ε α → Prop :=
  Relation.ReflTransGen (Step calls)

/-! ### What every run keeps -/

abbrev Log (Op A Ω : Type) (R : A → Type) (ε α : Type) := List (Event Op A Ω R ε α)

/-- Every call that took the lock has ended. -/
def Closed (log : Log Op A Ω R ε α) : Prop := ∀ t op, .took t op ∈ log → ∃ result, .ended t op result ∈ log

/-- Nobody took the lock and no call returned a value. -/
def Event.Quiet : Event Op A Ω R ε α → Prop
  | .took _ _ => False
  | .ended _ _ (some (.ok _)) => False
  | _ => True

/-- A call other than this one was refused or cancelled. -/
def Event.EndsOther (t : Nat) (e : Event Op A Ω R ε α) : Prop := e.Quiet ∧ ∃ t' op result, t' ≠ t ∧ e = .ended t' op result

/-- Nobody took the lock. -/
def Untaken (log : Log Op A Ω R ε α) : Prop := ∀ t op, .took t op ∉ log

theorem untaken_nil : Untaken ([] : Log Op A Ω R ε α) := by
  simp [Untaken]

theorem Untaken.append {log : Log Op A Ω R ε α} (untaken : Untaken log) {e : Event Op A Ω R ε α} (quiet : e.Quiet) :
    Untaken (log ++ [e]) := by
  intro t op took
  rcases List.mem_append.mp took with earlier | last
  · exact untaken t op earlier
  · rw [← List.mem_singleton.mp last] at quiet
    exact quiet

/-- Who took the lock by now did so before, unless it was the call itself. -/
theorem Untaken.took {before mid : Log Op A Ω R ε α} {t t' : Nat} {op op' : Op} (untaken : Untaken mid)
    (took : .took t' op' ∈ before ++ .took t op :: mid) : .took t' op' ∈ before ∨ t' = t ∧ op' = op := by
  rcases List.mem_append.mp took with earlier | later
  · exact .inl earlier
  · rcases List.mem_cons.mp later with own | later
    · rw [Event.took.injEq] at own
      exact .inr own
    · exact absurd later (untaken t' op')

section Rules
variable {γ : Type} (J : Log Op A Ω R ε γ → D → Prop) (t : Nat)

/-- The call keeps the invariant at each of its awaits, whatever is answered and whichever other
calls end meanwhile; a result satisfies `Q` and an error satisfies `E`. -/
def Meets (Q : α → D → Ω → Log Op A Ω R ε γ → Prop) (E : ε → D → Ω → Log Op A Ω R ε γ → Prop) :
    Body D A Ω R ε α → D → Ω → Log Op A Ω R ε γ → Prop
  | .done (.ok a), data, ω, log => Q a data ω log
  | .done (.error e), data, ω, log => E e data ω log
  | .call .get next, data, ω, log => Meets Q E (next (.ok data)) data ω log
  | .call (.put data) next, _, ω, log => Meets Q E (next (.ok ())) data ω log
  | .call .readings next, data, ω, log => Meets Q E (next (.ok ω)) data ω log
  | .call (.await request) next, data, _, log => J log data ∧
      ∀ others, (∀ e ∈ others, e.EndsOther t) → ∀ reply ω,
        Meets Q E (next reply) data ω (log ++ others ++ [.answered t request reply ω])

variable {J t} {Q Q' : α → D → Ω → Log Op A Ω R ε γ → Prop} {E E' : ε → D → Ω → Log Op A Ω R ε γ → Prop}
  {body : Body D A Ω R ε α} {data : D} {ω : Ω} {log : Log Op A Ω R ε γ}

theorem Meets.mono (h : Meets J t Q E body data ω log) (ok : ∀ a d ω l, Q a d ω l → Q' a d ω l)
    (err : ∀ e d ω l, E e d ω l → E' e d ω l) : Meets J t Q' E' body data ω log := by
  induction body generalizing data ω log with
  | done result =>
    cases result with
    | ok a => exact ok a data ω log h
    | error e => exact err e data ω log h
  | call query next ih =>
    cases query with
    | get => exact ih _ h
    | put data => exact ih _ h
    | readings => exact ih _ h
    | await request => exact ⟨h.1, fun others ended reply ω => ih reply (h.2 others ended reply ω)⟩

theorem meets_bind {Q : β → D → Ω → Log Op A Ω R ε γ → Prop} {f : α → Body D A Ω R ε β}
    (h : Meets J t (fun a d ω l => Meets J t Q E (f a) d ω l) E body data ω log) :
    Meets J t Q E (body >>= f) data ω log := by
  change Meets J t Q E (body.bind f) data ω log
  induction body generalizing data ω log with
  | done result =>
    cases result with
    | ok a => exact h
    | error e => exact h
  | call query next ih =>
    cases query with
    | get => exact ih _ h
    | put data => exact ih _ h
    | readings => exact ih _ h
    | await request => exact ⟨h.1, fun others ended reply ω => ih reply (h.2 others ended reply ω)⟩

theorem meets_settle (h : Meets J t Q E body data ω log) : Meets J t Q E (settle body data ω).1 (settle body data ω).2 ω log := by
  induction body generalizing data ω log with
  | done result => exact h
  | call query next ih =>
    cases query with
    | get => exact ih _ h
    | put data => exact ih _ h
    | readings => exact ih _ h
    | await request => exact h

theorem settle_cases (body : Body D A Ω R ε α) (data : D) (ω : Ω) :
    (∃ result d, settle body data ω = (.done result, d)) ∨
      ∃ request next d, settle body data ω = (.call (.await request) next, d) := by
  induction body generalizing data ω with
  | done result => exact .inl ⟨_, _, rfl⟩
  | call query next ih =>
    cases query with
    | get => exact ih _ data ω
    | put data => exact ih _ data ω
    | readings => exact ih _ data ω
    | await request => exact .inr ⟨_, _, _, rfl⟩

theorem quiet_others {K : Log Op A Ω R ε γ → Prop} (quiet : ∀ log (e : Event Op A Ω R ε γ), K log → e.Quiet → K (log ++ [e]))
    {others : Log Op A Ω R ε γ} (ended : ∀ e ∈ others, e.EndsOther t) (holds : K log) : K (log ++ others) := by
  induction others generalizing log with
  | nil => simpa using holds
  | cons e others ih =>
    have one := quiet log e holds (ended e (.head _)).1
    have all := ih (fun e' member => ended e' (.tail _ member)) one
    simpa using all

/-- One await of the call that took the lock after `before`. -/
theorem meets_request {Q : R request → D → Ω → Log Op A Ω R ε γ → Prop} {before mid : Log Op A Ω R ε γ} {op : Op}
    (quiet : ∀ log data (e : Event Op A Ω R ε γ), J log data → e.Quiet → J (log ++ [e]) data)
    (holds : J (before ++ .took t op :: mid) data) (untaken : Untaken mid)
    (ok : ∀ reply ω others, J (before ++ .took t op :: (mid ++ others)) data → Untaken (mid ++ others) →
      Q reply data ω (before ++ .took t op :: (mid ++ others ++ [.answered t request (.ok reply) ω]))) :
    Meets J t Q (fun _ d _ l => J l d) (Program.request (Query.await request)) data ω (before ++ .took t op :: mid) := by
  refine ⟨holds, fun others ended reply ω' => ?_⟩
  have kept := quiet_others (K := fun log => J log data) (fun log e kept calm => quiet log data e kept calm) ended holds
  have calm := quiet_others (K := Untaken) (fun _ _ calm quiet => calm.append quiet) ended untaken
  cases reply with
  | ok reply =>
    have next := ok reply ω' others (by simpa using kept) calm
    simpa [Meets] using next
  | error e => exact quiet _ _ _ kept trivial

end Rules

section Invariant
variable {calls : Calls Op D A Ω R ε α} {J : Log Op A Ω R ε α → D → Prop}

/-- At its end the call keeps the invariant. -/
def Kept (J : Log Op A Ω R ε α → D → Prop) (t : Nat) (op : Op) (body : Body D A Ω R ε α) (data : D) (ω : Ω)
    (log : Log Op A Ω R ε α) : Prop :=
  Meets J t (fun a d _ l => J (l ++ [.ended t op (some (.ok a))]) d) (fun e d _ l => J (l ++ [.ended t op (some (.error e))]) d)
    body data ω log

/-- An error, like a cancellation, is quiet. -/
theorem kept_of_meets (quiet : ∀ log data (e : Event Op A Ω R ε α), J log data → e.Quiet → J (log ++ [e]) data)
    {t : Nat} {op : Op} {body : Body D A Ω R ε α} {data : D} {ω : Ω} {log : Log Op A Ω R ε α}
    (h : Meets J t (fun a d _ l => J (l ++ [.ended t op (some (.ok a))]) d) (fun _ d _ l => J l d) body data ω log) :
    Kept J t op body data ω log :=
  h.mono (fun _ _ _ _ holds => holds) fun _ _ _ _ holds => quiet _ _ _ holds trivial

/-- The invariant holds, and the call that has the lock, if there is one, keeps it. -/
structure Sound (J : Log Op A Ω R ε α → D → Prop) (s : State Op D A Ω R ε α) : Prop where
  holds : J s.log s.data
  inside : ∀ t op body, s.calls t = some (op, .inside body) →
    (∃ request next, body = .call (.await request) next) ∧ (∀ ω, Kept J t op body s.data ω s.log) ∧
      (∀ t' op' body', s.calls t' = some (op', .inside body') → t' = t) ∧
      ∀ t' op', .took t' op' ∈ s.log → t' = t ∧ op' = op ∨ ∃ result, .ended t' op' result ∈ s.log
  free : s.Free → Closed s.log

theorem Sound.fresh {data : D} (initial : J [] data) : Sound J (State.fresh data) where
  holds := initial
  inside := fun _ _ _ held => nomatch held
  free := fun _ _ _ member => nomatch member

theorem Kept.others {t : Nat} {op : Op} {request : A} {next : Except ε (R request) → Body D A Ω R ε α} {data : D} {ω : Ω}
    {log : Log Op A Ω R ε α} (h : Kept J t op (.call (.await request) next) data ω log) {e : Event Op A Ω R ε α}
    (other : e.EndsOther t) (holds : J (log ++ [e]) data) : Kept J t op (.call (.await request) next) data ω (log ++ [e]) := by
  refine ⟨holds, fun others ended reply ω => ?_⟩
  have later := h.2 (e :: others) (List.forall_mem_cons.mpr ⟨other, ended⟩) reply ω
  simpa using later

/-- Another call ends, or gives up waiting. -/
theorem Sound.ended {s : State Op D A Ω R ε α} (sound : Sound J s) {t : Nat} {op : Op} {result : Option (Except ε α)}
    (outside : ∀ op body, s.calls t ≠ some (op, .inside body)) (quiet : Event.Quiet (.ended t op result : Event Op A Ω R ε α))
    (holds : J (s.log ++ [.ended t op result]) s.data) :
    Sound J ⟨s.data, Function.update s.calls t (some (op, .finished)), s.log ++ [.ended t op result]⟩ := by
  have same : ∀ t' op' body, Function.update s.calls t (some (op, .finished)) t' = some (op', .inside body) ↔
      s.calls t' = some (op', .inside body) := by
    intro t' op' body
    by_cases own : t' = t
    · subst own
      simp [outside]
    · rw [Function.update_of_ne own]
  refine ⟨holds, ?_, ?_⟩
  · intro t' op' body held
    have held' := (same t' op' body).mp held
    obtain ⟨⟨request, next, rfl⟩, kept, alone, taken⟩ := sound.inside t' op' body held'
    have apart : t ≠ t' := by
      rintro rfl
      exact outside op' _ held'
    refine ⟨⟨request, next, rfl⟩, fun ω => (kept ω).others ⟨quiet, t, op, result, apart, rfl⟩ holds, ?_, ?_⟩
    · intro t'' op'' body' held''
      exact alone t'' op'' body' ((same t'' op'' body').mp held'')
    · intro t'' op'' took
      rcases List.mem_append.mp took with earlier | last
      · rcases taken t'' op'' earlier with own | ⟨result, ended⟩
        · exact .inl own
        · exact .inr ⟨result, List.mem_append_left _ ended⟩
      · simp at last
  · intro free t' op' took
    rcases List.mem_append.mp took with earlier | last
    · obtain ⟨result, ended⟩ := sound.free (fun t op body held => free t op body ((same t op body).mpr held)) t' op' earlier
      exact ⟨result, List.mem_append_left _ ended⟩
    · simp at last

/-- The call that has the lock goes on. -/
theorem Sound.resume {s : State Op D A Ω R ε α} {t : Nat} {op : Op} {event : Event Op A Ω R ε α} {body : Body D A Ω R ε α}
    {ω : Ω} (kept : Kept J t op body s.data ω (s.log ++ [event]))
    (alone : ∀ t' op' body', s.calls t' = some (op', .inside body') → t' = t)
    (taken : ∀ t' op', .took t' op' ∈ s.log ++ [event] →
      t' = t ∧ op' = op ∨ ∃ result, .ended t' op' result ∈ s.log ++ [event]) :
    Sound J (s.resume t op event (settle body s.data ω)) := by
  have settled := meets_settle kept
  have outside : ∀ t' op' body' x, Function.update s.calls t (some (op, x)) t' = some (op', .inside body') → t' = t := by
    intro t' op' body' x held
    by_contra other
    rw [Function.update_of_ne other] at held
    exact other (alone t' op' body' held)
  rcases settle_cases body s.data ω with ⟨result, data, ends⟩ | ⟨request, next, data, waits⟩
  · rw [ends] at settled
    simp only [State.resume, ends]
    have all : ∀ t' op', .took t' op' ∈ s.log ++ [event, .ended t op (some result)] →
        ∃ result', .ended t' op' result' ∈ s.log ++ [event, .ended t op (some result)] := by
      intro t' op' took
      have earlier : .took t' op' ∈ s.log ++ [event] := by simpa using took
      rcases taken t' op' earlier with ⟨rfl, rfl⟩ | ⟨result', ended⟩
      · exact ⟨some result, by simp⟩
      · refine ⟨result', ?_⟩
        have longer := List.mem_append_left [.ended t op (some result)] ended
        simpa using longer
    refine ⟨?_, ?_, fun _ => all⟩
    · cases result with
      | ok a => simpa [Kept, Meets] using settled
      | error e => simpa [Kept, Meets] using settled
    · intro t' op' body' held
      have own := outside t' op' body' _ held
      subst own
      simp at held
  · rw [waits] at settled
    simp only [State.resume, waits]
    refine ⟨settled.1, ?_, ?_⟩
    · intro t' op' body' held
      have own := outside t' op' body' _ held
      subst own
      simp only [Function.update_self, Option.some.injEq, Prod.mk.injEq, Phase.inside.injEq] at held
      obtain ⟨rfl, rfl⟩ := held
      exact ⟨⟨request, next, rfl⟩, fun _ => settled, fun t'' op'' body'' held' => outside t'' op'' body'' _ held', taken⟩
    · intro free
      exact absurd (Function.update_self ..) (free t op _)

/-- The invariant holds in every run if each call keeps it once it has the lock. -/
theorem Sound.step {s s' : State Op D A Ω R ε α} (sound : Sound J s) (step : Step calls s s')
    (quiet : ∀ log data (e : Event Op A Ω R ε α), J log data → e.Quiet → J (log ++ [e]) data)
    (enter : ∀ log data t op body ω, J log data → Closed log → calls op = .ok body →
      Kept J t op body data ω (log ++ [.took t op])) : Sound J s' := by
  cases step with
  | start t op unused locks =>
    have same : ∀ t' op' body, Function.update s.calls t (some (op, .waiting)) t' = some (op', .inside body) ↔
        s.calls t' = some (op', .inside body) := by
      intro t' op' body
      by_cases own : t' = t
      · subst own
        simp [unused]
      · rw [Function.update_of_ne own]
    refine ⟨sound.holds, ?_, ?_⟩
    · intro t' op' body held
      obtain ⟨waits, kept, alone, taken⟩ := sound.inside t' op' body ((same t' op' body).mp held)
      exact ⟨waits, kept, fun t'' op'' body' held' => alone t'' op'' body' ((same t'' op'' body').mp held'), taken⟩
    · intro free
      exact sound.free fun t op body held => free t op body ((same t op body).mpr held)
  | refuse t op unused refusal =>
    exact sound.ended (by simp [unused]) trivial (quiet _ _ _ sound.holds trivial)
  | take ω held free locks =>
    have closed := sound.free free
    apply Sound.resume (enter _ _ _ _ _ ω sound.holds closed locks)
    · intro t' op' body' held'
      exact absurd held' (free t' op' body')
    · intro t' op' took
      rcases List.mem_append.mp took with earlier | last
      · obtain ⟨result, ended⟩ := closed t' op' earlier
        exact .inr ⟨result, List.mem_append_left _ ended⟩
      · have same := List.mem_singleton.mp last
        simp only [Event.took.injEq] at same
        exact .inl same
  | answer reply ω held =>
    obtain ⟨-, kept, alone, taken⟩ := sound.inside _ _ _ held
    have later := (kept ω).2 [] (by simp) reply ω
    rw [List.append_nil] at later
    apply Sound.resume later alone
    intro t' op' took
    rcases List.mem_append.mp took with earlier | last
    · rcases taken t' op' earlier with own | ⟨result, ended⟩
      · exact .inl own
      · exact .inr ⟨result, List.mem_append_left _ ended⟩
    · simp at last
  | cancel held running =>
    next t op phase =>
    have holds := quiet _ _ (.ended t op none) sound.holds trivial
    cases phase with
    | finished => exact absurd rfl running
    | waiting => exact sound.ended (by simp [held]) trivial holds
    | inside body =>
      obtain ⟨-, -, alone, taken⟩ := sound.inside t op body held
      refine ⟨holds, ?_, fun _ => ?_⟩
      · intro t' op' body' held'
        by_cases own : t' = t
        · subst own
          simp at held'
        · have kept : s.calls t' = some (op', .inside body') := by simpa [Function.update_of_ne own] using held'
          exact absurd (alone t' op' body' kept) own
      · intro t' op' took
        rcases List.mem_append.mp took with earlier | last
        · rcases taken t' op' earlier with ⟨rfl, rfl⟩ | ⟨result, ended⟩
          · exact ⟨none, by simp⟩
          · exact ⟨result, List.mem_append_left _ ended⟩
        · simp at last

theorem sound_reaches {s s' : State Op D A Ω R ε α} (sound : Sound J s) (run : Reaches calls s s')
    (quiet : ∀ log data (e : Event Op A Ω R ε α), J log data → e.Quiet → J (log ++ [e]) data)
    (enter : ∀ log data t op body ω, J log data → Closed log → calls op = .ok body →
      Kept J t op body data ω (log ++ [.took t op])) : Sound J s' := by
  induction run with
  | refl => exact sound
  | tail _ step ih => exact ih.step step quiet enter

end Invariant

section Turns

def Event.turn? : Event Op A Ω R ε α → Option (Nat × Op)
  | .took t op => some (t, op)
  | _ => none

theorem Event.turn?_eq_some {e : Event Op A Ω R ε α} {t : Nat} {op : Op} : e.turn? = some (t, op) ↔ e = .took t op := by
  cases e <;> simp [Event.turn?]

def Event.value? : Event Op A Ω R ε α → Option (Nat × Op × α)
  | .ended t op (some (.ok a)) => some (t, op, a)
  | _ => none

theorem Event.value?_eq_some {e : Event Op A Ω R ε α} {t : Nat} {op : Op} {a : α} :
    e.value? = some (t, op, a) ↔ e = .ended t op (some (.ok a)) := by
  rcases e with _ | _ | ⟨_, _, _ | _ | _⟩ <;> simp [Event.value?]

/-- A call and what it is answered, one after the other, at its awaits. -/
structure Turn (Op A Ω : Type) (R : A → Type) (ε : Type) where
  op : Op
  readings : Ω
  answers : List (((request : A) → Except ε (R request)) × Ω)

/-- The call runs to its end if it asks exactly as often as it is answered. -/
def converse (t : Nat) : List (((request : A) → Except ε (R request)) × Ω) → Body D A Ω R ε α → D → Log Op A Ω R ε α →
    Option (Except ε α × D × Log Op A Ω R ε α)
  | [], .done result, data, log => some (result, data, log)
  | (answer, ω) :: rest, .call (.await request) next, data, log =>
    let settled := settle (next (answer request)) data ω
    converse t rest settled.1 settled.2 (log ++ [.answered t request (answer request) ω])
  | _, _, _, _ => none

/-- One call after the other, numbered from `t`; what they leave behind. -/
def play (calls : Calls Op D A Ω R ε α) : List (Turn Op A Ω R ε) → Nat → D → Log Op A Ω R ε α → Option (D × Log Op A Ω R ε α)
  | [], _, data, log => some (data, log)
  | turn :: rest, t, data, log => do
    let body ← (calls turn.op).toOption
    let settled := settle body data turn.readings
    let left ← converse t turn.answers settled.1 settled.2 (log ++ [.took t turn.op])
    play calls rest (t + 1) left.2.1 (left.2.2 ++ [.ended t turn.op (some left.1)])

theorem reaches_converse {s : State Op D A Ω R ε α} {t : Nat} (op : Op) {event : Event Op A Ω R ε α}
    {answers : List (((request : A) → Except ε (R request)) × Ω)} {body : Body D A Ω R ε α} {data : D}
    {left : Except ε α × D × Log Op A Ω R ε α} (ran : converse t answers body data (s.log ++ [event]) = some left) :
    Reaches calls (s.resume t op event (body, data))
      ⟨left.2.1, Function.update s.calls t (some (op, .finished)), left.2.2 ++ [.ended t op (some left.1)]⟩ := by
  induction answers generalizing s event body data with
  | nil =>
    cases body with
    | done result =>
      obtain rfl := Option.some.inj ran
      simp only [State.resume, List.append_assoc, List.cons_append, List.nil_append]
      exact .refl
    | call query next => cases ran
  | cons answer rest ih =>
    cases body with
    | done result => cases ran
    | call query next =>
      cases query with
      | get | put | readings => cases ran
      | await request =>
        have went := ih (s := s.resume t op event (.call (.await request) next, data)) ran
        have same : Function.update (s.resume t op event (.call (.await request) next, data)).calls t (some (op, .finished)) =
            Function.update s.calls t (some (op, .finished)) := Function.update_idem ..
        have answered : Step calls (s.resume t op event (.call (.await request) next, data)) _ :=
          .answer (answer.1 request) answer.2 (Function.update_self ..)
        rw [same] at went
        exact .head answered went

/-- What calls do one after the other is a run of them. -/
theorem reaches_play {turns : List (Turn Op A Ω R ε)} {s : State Op D A Ω R ε α} {t : Nat}
    {left : D × Log Op A Ω R ε α} (ran : play calls turns t s.data s.log = some left) (free : s.Free)
    (unused : ∀ t', t ≤ t' → s.calls t' = none) : ∃ s', Reaches calls s s' ∧ s'.data = left.1 ∧ s'.log = left.2 := by
  induction turns generalizing s t with
  | nil =>
    obtain rfl := Option.some.inj ran
    exact ⟨s, .refl, rfl, rfl⟩
  | cons turn rest ih =>
    obtain ⟨body, locks, ran⟩ := Option.bind_eq_some_iff.mp ran
    obtain ⟨one, talked, ran⟩ := Option.bind_eq_some_iff.mp ran
    have locks : calls turn.op = .ok body := by
      cases called : calls turn.op with
      | error e =>
        rw [called] at locks
        cases locks
      | ok body' =>
        rw [called] at locks
        exact congrArg _ (Option.some.inj locks)
    let waiting : State Op D A Ω R ε α := { s with calls := Function.update s.calls t (some (turn.op, .waiting)) }
    have outside : ∀ phase : Phase D A Ω R ε α, (∀ body, phase ≠ .inside body) → ∀ t' op body,
        Function.update s.calls t (some (turn.op, phase)) t' ≠ some (op, .inside body) := by
      intro phase other t' op body held
      by_cases own : t' = t
      · subst own
        rw [Function.update_self, Option.some.injEq, Prod.mk.injEq] at held
        exact other body held.2
      · rw [Function.update_of_ne own] at held
        exact free t' op body held
    have started : Step calls s waiting := .start t turn.op (unused t (Nat.le_refl t)) locks
    have took : Step calls waiting _ :=
      .take turn.readings (Function.update_self ..) (outside .waiting (by rintro _ ⟨⟩)) locks
    have ended : Reaches calls _ _ := reaches_converse (s := waiting) turn.op talked
    have same : Function.update waiting.calls t (some (turn.op, .finished)) = Function.update s.calls t (some (turn.op, .finished)) :=
      Function.update_idem ..
    rw [same] at ended
    have later : ∀ t', t + 1 ≤ t' → Function.update s.calls t (some (turn.op, .finished)) t' = none := by
      intro t' past
      rw [Function.update_of_ne (by omega)]
      exact unused t' (by omega)
    obtain ⟨s', run, same⟩ := ih (s := ⟨one.2.1, Function.update s.calls t (some (turn.op, .finished)), _⟩) ran
      (outside .finished (by rintro _ ⟨⟩)) later
    exact ⟨s', .head started (.head took (ended.trans run)), same⟩

end Turns

end Locked
