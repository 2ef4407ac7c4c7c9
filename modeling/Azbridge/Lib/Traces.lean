import Mathlib.Data.List.Basic

/-!
# Runs of a machine that is told what happens next
-/

namespace Traces

variable {S E : Type}

/-- What a list of events makes of a state, if each of them can happen when it comes. -/
def run (step : S → E → Option S) : S → List E → Option S
  | s, [] => some s
  | s, e :: events => (step s e).bind fun t => run step t events

def Admitted (step : S → E → Option S) (admits : S → E → Prop) : S → List E → Prop
  | _, [] => True
  | s, e :: events => admits s e ∧ ∀ t ∈ step s e, Admitted step admits t events

/-- It holds in every state along the run. -/
def Throughout (step : S → E → Option S) (P : S → Prop) : S → List E → Prop
  | s, [] => P s
  | s, e :: events => P s ∧ ∀ t ∈ step s e, Throughout step P t events

instance decideAdmitted (step : S → E → Option S) (admits : S → E → Prop) [∀ s e, Decidable (admits s e)] :
    ∀ s events, Decidable (Admitted step admits s events)
  | _, [] => isTrue trivial
  | s, e :: events =>
    have _rest (t : S) := decideAdmitted step admits t events
    inferInstanceAs (Decidable (admits s e ∧ ∀ t ∈ step s e, Admitted step admits t events))

variable {step : S → E → Option S} {admits : S → E → Prop} {s u : S} {before after : List E}

theorem run_append : run step s (before ++ after) = (run step s before).bind fun t => run step t after := by
  induction before generalizing s with
  | nil => rfl
  | cons e before ih =>
    show ((step s e).bind fun t => run step t (before ++ after)) = _
    cases came : step s e with
    | none => simp [run, came]
    | some t => simpa [run, came] using ih

theorem run_split (ran : run step s (before ++ after) = some u) :
    ∃ t, run step s before = some t ∧ run step t after = some u :=
  Option.bind_eq_some_iff.mp (run_append.symm.trans ran)

theorem admitted_append (admitted : Admitted step admits s (before ++ after)) :
    Admitted step admits s before ∧ ∀ t, run step s before = some t → Admitted step admits t after := by
  induction before generalizing s with
  | nil =>
    refine ⟨trivial, ?_⟩
    intro t ran
    obtain rfl := Option.some.inj ran
    exact admitted
  | cons e before ih =>
    refine ⟨⟨admitted.1, fun t came => (ih (admitted.2 t came)).1⟩, ?_⟩
    intro u ran
    obtain ⟨t, came, rest⟩ := Option.bind_eq_some_iff.mp ran
    exact (ih (admitted.2 t came)).2 u rest

theorem admitted_true : Admitted step (fun _ _ => True) s before := by
  induction before generalizing s with
  | nil => trivial
  | cons e before ih => exact ⟨trivial, fun _ _ => ih⟩

theorem keeps {P : S → Prop} (kept : ∀ s e t, P s → admits s e → step s e = some t → P t)
    (admitted : Admitted step admits s before) (ran : run step s before = some u) (holds : P s) : P u := by
  induction before generalizing s with
  | nil =>
    obtain rfl := Option.some.inj ran
    exact holds
  | cons e before ih =>
    obtain ⟨t, came, rest⟩ := Option.bind_eq_some_iff.mp ran
    exact ih (admitted.2 t came) rest (kept s e t holds admitted.1 came)

/-- And each event of the run came to a state in which it held. -/
theorem comes {P : S → Prop} (kept : ∀ s e t, P s → admits s e → step s e = some t → P t)
    (admitted : Admitted step admits s before) (ran : run step s before = some u) (holds : P s) :
    ∀ e ∈ before, ∃ t t', P t ∧ admits t e ∧ step t e = some t' := by
  induction before generalizing s with
  | nil => nofun
  | cons first before ih =>
    obtain ⟨t, came, rest⟩ := Option.bind_eq_some_iff.mp ran
    intro e member
    cases member with
    | head => exact ⟨s, t, holds, admitted.1, came⟩
    | tail _ later => exact ih (admitted.2 t came) rest (kept s first t holds admitted.1 came) e later

theorem Admitted.imp {admits' : S → E → Prop} (admitted : Admitted step admits s before)
    (implied : ∀ s, ∀ e ∈ before, admits s e → admits' s e) : Admitted step admits' s before := by
  induction before generalizing s with
  | nil => trivial
  | cons e before ih =>
    refine ⟨implied s e List.mem_cons_self admitted.1, ?_⟩
    intro t came
    exact ih (admitted.2 t came) fun s e later => implied s e (List.mem_cons_of_mem _ later)

theorem throughout_of_kept {I P : S → Prop} (kept : ∀ s e t, I s → step s e = some t → I t)
    (implied : ∀ s, I s → P s) (invariant : I s) : Throughout step P s before := by
  induction before generalizing s with
  | nil => exact implied s invariant
  | cons e before ih => exact ⟨implied s invariant, fun t came => ih (kept s e t invariant came)⟩

/-- A property that exactly the admitted steps keep holds throughout exactly the admitted runs. -/
theorem throughout_iff_admitted {I P : S → Prop} (kept : ∀ s e t, I s → step s e = some t → I t)
    (exactly : ∀ s e t, I s → P s → step s e = some t → (P t ↔ admits s e)) (ran : run step s before = some u)
    (invariant : I s) (holds : P s) : Throughout step P s before ↔ Admitted step admits s before := by
  induction before generalizing s with
  | nil => exact ⟨fun _ => trivial, fun _ => holds⟩
  | cons e before ih =>
    obtain ⟨t, came, rest⟩ := Option.bind_eq_some_iff.mp ran
    have only : ∀ t' ∈ step s e, t' = t := fun t' other => Option.some.inj (other.symm.trans came)
    constructor
    · rintro ⟨_, along⟩
      have later := along t came
      have now : P t := by cases before with
        | nil => exact later
        | cons _ _ => exact later.1
      refine ⟨(exactly s e t invariant holds came).mp now, ?_⟩
      intro t' other
      obtain rfl := only t' other
      exact (ih rest (kept s e t' invariant came) now).mp later
    · rintro ⟨admitted, along⟩
      have now := (exactly s e t invariant holds came).mpr admitted
      refine ⟨holds, ?_⟩
      intro t' other
      obtain rfl := only t' other
      exact (ih rest (kept s e t' invariant came) now).mpr (along t' came)

end Traces
