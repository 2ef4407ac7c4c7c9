import Azbridge.Lib.Program

/-!
# How a run may go

Others act before each request, and a program may be left at any of its requests. What a contract promises of
every request holds wherever it is left, and what it promises of results holds of those that are returned.
-/

namespace Program
variable {Req : Type} {Rep : Req → Type} {ε α W : Type}

/-- A run that ends with a result, or is left without one. -/
inductive Ends (answers : W → (r : Req) → Except ε (Rep r) → W → Prop) (rely : W → W → Prop) :
    Program Req Rep ε α → W → Option (Except ε α) → W → Prop
  | done {result : Except ε α} {w : W} : Ends answers rely (.done result) w (some result) w
  | left {p : Program Req Rep ε α} {w : W} : Ends answers rely p w none w
  | call {r : Req} {next : Except ε (Rep r) → Program Req Rep ε α} {w w₁ w₂ w' : W} {reply : Except ε (Rep r)}
      {ended : Option (Except ε α)} (others : rely w w₁) (answered : answers w₁ r reply w₂)
      (rest : Ends answers rely (next reply) w₂ ended w') : Ends answers rely (.call r next) w ended w'

/-- What a run that ended so may say of its world. -/
def Ended (Q : α → W → Prop) (E : ε → W → Prop) : Option (Except ε α) → W → Prop
  | some (.ok a), w => Q a w
  | some (.error e), w => E e w
  | none, _ => True

theorem Meets.ends {c : Contract Req Rep ε W} {P : W → Prop} {Q : α → W → Prop} {E : ε → W → Prop} {p : Program Req Rep ε α}
    {w w' : W} {ended : Option (Except ε α)} (meets : Meets c Q E p w) (free : ∀ w, c.invariant w)
    (kept : ∀ w r w', c.guarantee w r w' → P w') (start : P w)
    (run : Ends c.answers c.rely p w ended w') : P w' ∧ Ended Q E ended w' := by
  induction run with
  | @done result w =>
    cases result with
    | ok a => exact ⟨start, meets⟩
    | error e => exact ⟨start, meets⟩
  | left => exact ⟨start, trivial⟩
  | call others answered rest ih =>
    obtain ⟨guarantee, later⟩ := meets _ others (free _) _ _ answered
    exact ih later (kept _ _ _ guarantee)

/-- A run in which nobody else acts and each request is answered, seen in the world. -/
theorem Ends.of_exec {V : Type} (view : V → W) {answers : W → (r : Req) → Except ε (Rep r) → W → Prop} {rely : W → W → Prop}
    {answer : V → (r : Req) → Option (Except ε (Rep r) × V)} {p : Program Req Rep ε α} {v v' : V} {result : Except ε α}
    (sound : ∀ v r reply v', answer v r = some (reply, v') → answers (view v) r reply (view v')) (refl : ∀ w, rely w w)
    (ran : p.exec answer v = some (result, v')) : Ends answers rely p (view v) (some result) (view v') := by
  induction p generalizing v with
  | done ended =>
    obtain ⟨rfl, rfl⟩ := Prod.mk.inj (Option.some.inj ran)
    exact .done
  | call r next ih =>
    simp only [exec] at ran
    split at ran
    · next reply v₁ answered => exact .call (refl _) (sound _ _ _ _ answered) (ih reply ran)
    · cases ran

end Program
