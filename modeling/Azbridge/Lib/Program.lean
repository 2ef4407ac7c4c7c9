/-!
# Programs over requests

A program reaches its environment only by putting one request at a time and waiting for the
reply, which may always be an error. `Program.Meets` is a rely-guarantee judgement over that
shape: it says what a program does at each of its requests, whatever other parties do between
two of them and wherever it is abandoned.
-/

inductive Program (Req : Type) (Rep : Req → Type) (ε α : Type) where
  | done (result : Except ε α)
  | call (request : Req) (next : Except ε (Rep request) → Program Req Rep ε α)

namespace Program
variable {Req : Type} {Rep : Req → Type} {ε α β γ W : Type}

def bind : Program Req Rep ε α → (α → Program Req Rep ε β) → Program Req Rep ε β
  | .done (.ok a), f => f a
  | .done (.error e), _ => .done (.error e)
  | .call r next, f => .call r fun reply => (next reply).bind f

/-- Put one request and return its reply, passing an error on. -/
def request (r : Req) : Program Req Rep ε (Rep r) := .call r .done

/-- Run a program and return its outcome as a value, errors included. -/
def attempt : Program Req Rep ε α → Program Req Rep ε (Except ε α)
  | .done result => .done (.ok result)
  | .call r next => .call r fun reply => (next reply).attempt

instance : Monad (Program Req Rep ε) where
  pure a := .done (.ok a)
  bind := bind

instance : MonadExceptOf ε (Program Req Rep ε) where
  throw e := .done (.error e)
  tryCatch p handler := p.attempt.bind fun
    | .ok a => .done (.ok a)
    | .error e => handler e

/-- Run `f` on each element in order, stopping at the first error. -/
def forEach (f : β → Program Req Rep ε Unit) : List β → Program Req Rep ε Unit
  | [] => pure ()
  | x :: rest => do
    f x
    forEach f rest

theorem bind_assoc {p : Program Req Rep ε α} {f : α → Program Req Rep ε β} {g : β → Program Req Rep ε γ} :
    (p >>= f) >>= g = p >>= fun a => f a >>= g := by
  change (p.bind f).bind g = p.bind fun a => (f a).bind g
  induction p with
  | done result => cases result <;> rfl
  | call r next ih =>
    simp only [bind, call.injEq, heq_eq_eq, true_and]
    exact funext ih

/-! ### Running against an environment that answers -/

/-- Run to the end, with `answer` giving each reply and the next world; `none` if it gives none. -/
def exec (answer : W → (r : Req) → Option (Except ε (Rep r) × W)) :
    Program Req Rep ε α → W → Option (Except ε α × W)
  | .done result, w => some (result, w)
  | .call r next, w =>
    match answer w r with
    | some (reply, w') => (next reply).exec answer w'
    | none => none

/-- Put at most `n` requests; what is left of the program then. -/
def advance (answer : W → (r : Req) → Option (Except ε (Rep r) × W)) :
    Nat → Program Req Rep ε α → W → Option (Program Req Rep ε α × W)
  | 0, p, w => some (p, w)
  | _ + 1, .done result, w => some (.done result, w)
  | n + 1, .call r next, w =>
    match answer w r with
    | some (reply, w') => advance answer n (next reply) w'
    | none => none

/-- A program that ends does so after some number of requests. -/
theorem advance_of_exec {answer : W → (r : Req) → Option (Except ε (Rep r) × W)} {p : Program Req Rep ε α} {w w' : W}
    {result : Except ε α} (ran : p.exec answer w = some (result, w')) : ∃ n, p.advance answer n w = some (.done result, w') := by
  induction p generalizing w with
  | done ended =>
    cases ran
    exact ⟨0, rfl⟩
  | call r next ih =>
    simp only [exec] at ran
    split at ran
    · next reply w₁ answered =>
      obtain ⟨n, later⟩ := ih reply ran
      refine ⟨n + 1, ?_⟩
      simp only [advance, answered]
      exact later
    · cases ran

theorem exec_bind {answer : W → (r : Req) → Option (Except ε (Rep r) × W)}
    {p : Program Req Rep ε α} {f : α → Program Req Rep ε β} {a : α} {w w' : W}
    (first : p.exec answer w = some (.ok a, w')) :
    (p >>= f).exec answer w = (f a).exec answer w' := by
  change (p.bind f).exec answer w = _
  induction p generalizing w with
  | done result =>
    simp only [exec, Option.some.injEq, Prod.mk.injEq] at first
    obtain ⟨rfl, rfl⟩ := first
    rfl
  | call r next ih =>
    simp only [exec, bind] at first ⊢
    split at first
    · next reply w₁ answered => exact ih reply first
    · cases first

/-- A program ends with the error of its first part, or goes on from it. -/
theorem exec_bind_cases {answer : W → (r : Req) → Option (Except ε (Rep r) × W)} {p : Program Req Rep ε α}
    {f : α → Program Req Rep ε β} {result : Except ε β} {w w' : W} (h : (p >>= f).exec answer w = some (result, w')) :
    (∃ e, p.exec answer w = some (.error e, w') ∧ result = .error e) ∨
      ∃ a w₁, p.exec answer w = some (.ok a, w₁) ∧ (f a).exec answer w₁ = some (result, w') := by
  change (p.bind f).exec answer w = _ at h
  induction p generalizing w with
  | done ended =>
    cases ended with
    | ok a => exact .inr ⟨a, w, rfl, h⟩
    | error e =>
      simp only [bind, exec, Option.some.injEq, Prod.mk.injEq] at h
      obtain ⟨rfl, rfl⟩ := h
      exact .inl ⟨e, rfl, rfl⟩
  | call r next ih =>
    simp only [bind, exec] at h ⊢
    split at h
    · next reply w₁ answered => exact ih reply h
    · cases h

/-- A program that succeeds has run its first part with success. -/
theorem exec_bind_ok {answer : W → (r : Req) → Option (Except ε (Rep r) × W)} {p : Program Req Rep ε α}
    {f : α → Program Req Rep ε β} {b : β} {w w' : W} (h : (p >>= f).exec answer w = some (.ok b, w')) :
    ∃ a w₁, p.exec answer w = some (.ok a, w₁) ∧ (f a).exec answer w₁ = some (.ok b, w') := by
  cases exec_bind_cases h with
  | inl failed =>
    obtain ⟨e, _, same⟩ := failed
    cases same
  | inr passed => exact passed

/-- A program whose first part gets no answer gets none. -/
theorem exec_bind_none {answer : W → (r : Req) → Option (Except ε (Rep r) × W)} {p : Program Req Rep ε α}
    {f : α → Program Req Rep ε β} {w : W} (stuck : p.exec answer w = none) : (p >>= f).exec answer w = none := by
  change (p.bind f).exec answer w = none
  induction p generalizing w with
  | done result => cases stuck
  | call r next ih =>
    simp only [bind, exec] at stuck ⊢
    split at stuck
    · next reply w₁ answered => exact ih reply stuck
    · rfl

theorem exec_mono {answer answer' : W → (r : Req) → Option (Except ε (Rep r) × W)} {p : Program Req Rep ε α}
    (more : ∀ w r reply, answer w r = some reply → answer' w r = some reply) {w : W} {ended : Except ε α × W}
    (h : p.exec answer w = some ended) : p.exec answer' w = some ended := by
  induction p generalizing w with
  | done result => exact h
  | call r next ih =>
    simp only [exec] at h ⊢
    split at h
    · next reply w₁ answered =>
      rw [more w r _ answered]
      exact ih reply h
    · cases h

/-! ### Rely-guarantee -/

/-- What a program may count on and must respect: how requests are answered, an invariant of
the world, what others may do between its requests, and what its own requests may do. -/
structure Contract (Req : Type) (Rep : Req → Type) (ε W : Type) where
  answers : W → (r : Req) → Except ε (Rep r) → W → Prop
  invariant : W → Prop
  rely : W → W → Prop
  guarantee : W → Req → W → Prop

/-- Every request keeps the guarantee, a result satisfies `Q` and an error satisfies `E`. -/
def Meets (c : Contract Req Rep ε W) (Q : α → W → Prop) (E : ε → W → Prop) :
    Program Req Rep ε α → W → Prop
  | .done (.ok a), w => Q a w
  | .done (.error e), w => E e w
  | .call r next, w => ∀ w₁, c.rely w w₁ → c.invariant w₁ → ∀ reply w₂, c.answers w₁ r reply w₂ →
      c.guarantee w₁ r w₂ ∧ Meets c Q E (next reply) w₂

variable {c : Contract Req Rep ε W} {Q Q' : α → W → Prop} {E E' : ε → W → Prop} {w : W}

theorem meets_pure {a : α} (h : Q a w) : Meets c Q E (pure a) w := h

theorem Meets.mono {p : Program Req Rep ε α} (h : Meets c Q E p w)
    (ok : ∀ a w, Q a w → Q' a w) (err : ∀ e w, E e w → E' e w) : Meets c Q' E' p w := by
  induction p generalizing w with
  | done result =>
    cases result with
    | ok a => exact ok a w h
    | error e => exact err e w h
  | call r next ih =>
    intro w₁ rely inv reply w₂ answered
    obtain ⟨guarantee, rest⟩ := h w₁ rely inv reply w₂ answered
    exact ⟨guarantee, ih reply rest⟩

theorem meets_bind {Q : β → W → Prop} {p : Program Req Rep ε α} {f : α → Program Req Rep ε β}
    (h : Meets c (fun a w => Meets c Q E (f a) w) E p w) : Meets c Q E (p >>= f) w := by
  change Meets c Q E (p.bind f) w
  induction p generalizing w with
  | done result =>
    cases result with
    | ok a => exact h
    | error e => exact h
  | call r next ih =>
    intro w₁ rely inv reply w₂ answered
    obtain ⟨guarantee, rest⟩ := h w₁ rely inv reply w₂ answered
    exact ⟨guarantee, ih reply rest⟩

theorem Meets.bind {Q : β → W → Prop} {P : α → W → Prop} {p : Program Req Rep ε α}
    {f : α → Program Req Rep ε β} (first : Meets c P E p w)
    (rest : ∀ a w, P a w → Meets c Q E (f a) w) : Meets c Q E (p >>= f) w :=
  meets_bind (first.mono rest fun _ _ h => h)

theorem meets_attempt {Q : Except ε α → W → Prop} {p : Program Req Rep ε α}
    (h : Meets c (fun a w => Q (.ok a) w) (fun e w => Q (.error e) w) p w) :
    Meets c Q E p.attempt w := by
  induction p generalizing w with
  | done result => cases result <;> exact h
  | call r next ih =>
    intro w₁ rely inv reply w₂ answered
    obtain ⟨guarantee, rest⟩ := h w₁ rely inv reply w₂ answered
    exact ⟨guarantee, ih reply rest⟩

/-- The loop rule: `P rest` holds whenever the elements of `rest` are still to be visited. -/
theorem meets_forEach {P : List β → W → Prop} {f : β → Program Req Rep ε Unit}
    (body : ∀ x rest w, P (x :: rest) w → Meets c (fun _ w => P rest w) E (f x) w) :
    ∀ {xs : List β} {w : W}, P xs w → Meets c (fun _ w => P [] w) E (forEach f xs) w := by
  intro xs
  induction xs with
  | nil => intro w start; exact start
  | cons x rest ih =>
    intro w start
    exact (body x rest w start).bind fun _ _ next => ih next

/-- Whatever every step keeps is kept to the end. -/
theorem Meets.reached {R : W → W → Prop} {p : Program Req Rep ε α} (h : Meets c Q E p w)
    (refl : ∀ w, R w w) (trans : ∀ w₁ w₂ w₃, R w₁ w₂ → R w₂ w₃ → R w₁ w₃)
    (rely : ∀ w w', c.rely w w' → R w w') (guarantee : ∀ w r w', c.guarantee w r w' → R w w') :
    Meets c (fun a w' => R w w' ∧ Q a w') (fun e w' => R w w' ∧ E e w') p w := by
  induction p generalizing w with
  | done result => cases result <;> exact ⟨refl w, h⟩
  | call r next ih =>
    intro w₁ others inv reply w₂ answered
    obtain ⟨kept, rest⟩ := h w₁ others inv reply w₂ answered
    have before : R w w₂ := trans _ _ _ (rely _ _ others) (guarantee _ _ _ kept)
    exact ⟨kept, (ih reply rest).mono (fun _ _ h => ⟨trans _ _ _ before h.1, h.2⟩)
      fun _ _ h => ⟨trans _ _ _ before h.1, h.2⟩⟩

/-- What a contract promises of a success holds where nobody interferes with a run. -/
theorem Meets.exec {answer : W → (r : Req) → Option (Except ε (Rep r) × W)} {p : Program Req Rep ε α} {a : α} {w' : W}
    (h : Meets c Q E p w) (sound : ∀ w r reply w', answer w r = some (reply, w') → c.answers w r reply w')
    (refl : ∀ w, c.rely w w) (keeps : ∀ w r w', c.invariant w → c.guarantee w r w' → c.invariant w') (inv : c.invariant w)
    (ran : p.exec answer w = some (.ok a, w')) : Q a w' := by
  induction p generalizing w with
  | done result =>
    obtain ⟨rfl, rfl⟩ := Prod.mk.inj (Option.some.inj ran)
    exact h
  | call r next ih =>
    simp only [Program.exec] at ran
    split at ran
    · next reply w₁ answered =>
      obtain ⟨kept, rest⟩ := h w (refl w) inv reply w₁ (sound _ _ _ _ answered)
      exact ih reply rest (keeps _ _ _ inv kept) ran
    · cases ran

/-- A pending program keeps meeting its contract while others act as it relies on. -/
theorem Meets.stable {p : Program Req Rep ε α} {w' : W} (h : Meets c Q E p w)
    (trans : ∀ w₁ w₂ w₃, c.rely w₁ w₂ → c.rely w₂ w₃ → c.rely w₁ w₃) (rely : c.rely w w')
    (pending : ∀ result, p ≠ .done result) : Meets c Q E p w' := by
  cases p with
  | done result => exact (pending result rfl).elim
  | call r next => exact fun w₁ later => h w₁ (trans _ _ _ rely later)

theorem Meets.answers {d : Contract Req Rep ε W} {p : Program Req Rep ε α}
    (h : Meets c Q E p w) (answers : ∀ w r reply w', d.answers w r reply w' → c.answers w r reply w')
    (invariant : ∀ w, d.invariant w → c.invariant w) (rely : ∀ w w', d.rely w w' → c.rely w w')
    (guarantee : ∀ w r w', d.invariant w → c.guarantee w r w' → d.guarantee w r w') :
    Meets d Q E p w := by
  induction p generalizing w with
  | done result => cases result <;> exact h
  | call r next ih =>
    intro w₁ rely' inv reply w₂ answered
    obtain ⟨kept, rest⟩ := h w₁ (rely _ _ rely') (invariant _ inv) reply w₂ (answers _ _ _ _ answered)
    exact ⟨guarantee _ _ _ inv kept, ih reply rest⟩

/-! ### The requests a program may put -/

/-- Every request satisfies `P`, whatever is answered. -/
inductive Uses (P : Req → Prop) : Program Req Rep ε α → Prop
  | done {result : Except ε α} : Uses P (.done result)
  | call {r : Req} {next : Except ε (Rep r) → Program Req Rep ε α} (h : P r)
      (rest : ∀ reply, Uses P (next reply)) : Uses P (.call r next)

variable {P : Req → Prop}

theorem uses_pure (a : α) : Uses P (pure a : Program Req Rep ε α) := .done

theorem uses_throw (e : ε) : Uses P (throw e : Program Req Rep ε α) := .done

theorem uses_request {r : Req} (h : P r) : Uses P (request r : Program Req Rep ε (Rep r)) :=
  .call h fun _ => .done

theorem Uses.bind {p : Program Req Rep ε α} {f : α → Program Req Rep ε β} (first : Uses P p)
    (rest : ∀ a, Uses P (f a)) : Uses P (p >>= f) := by
  change Uses P (p.bind f)
  induction first with
  | @done result =>
    cases result with
    | ok a => exact rest a
    | error e => exact .done
  | call h _ ih => exact .call h ih

theorem Uses.attempt {p : Program Req Rep ε α} (h : Uses P p) : Uses P p.attempt := by
  induction h with
  | done => exact .done
  | call h _ ih => exact .call h ih

theorem Uses.forEach {f : β → Program Req Rep ε Unit} (h : ∀ x, Uses P (f x)) :
    ∀ xs, Uses P (forEach f xs)
  | [] => .done
  | x :: rest => (h x).bind fun _ => Uses.forEach h rest

theorem Uses.mono {P' : Req → Prop} {p : Program Req Rep ε α} (h : Uses P p) (sub : ∀ r, P r → P' r) :
    Uses P' p := by
  induction h with
  | done => exact .done
  | call h _ ih => exact .call (sub _ h) ih

/-- What neither others nor these requests change holds throughout. -/
theorem Uses.meets {J : W → Prop} {p : Program Req Rep ε α} (uses : p.Uses P)
    (rely : ∀ w w', J w → c.rely w w' → J w')
    (step : ∀ w r reply w', J w → c.invariant w → P r → c.answers w r reply w' → c.guarantee w r w' ∧ J w')
    (start : J w) : Meets c (fun _ => J) (fun _ => J) p w := by
  induction uses generalizing w with
  | @done result => cases result <;> exact start
  | @call r next allowed _ ih =>
    intro w₁ others inv reply w₂ answered
    obtain ⟨kept, holds⟩ := step w₁ r reply w₂ (rely _ _ start others) inv allowed answered
    exact ⟨kept, ih reply holds⟩

end Program
