import Azbridge.Broker.Invariants
import Azbridge.Broker.Store

/-!
# Locked operations

While a locked operation runs, others leave the ledger alone and only shrink the enrollments.
`Sound` follows such an operation through the ledger it has to itself: its rules say what each
request returns, and which row writes it is answerable for.
-/

namespace Azbridge.Broker
open Ledger

/-! ### Enrollments -/

/-- Some enrollment refers to the workspace. -/
def World.Enrolled (w : World) (ws : String) : Prop :=
  ∃ k e, k.table = .enrollments ∧ w.store.lookup k = some e ∧ e.data.workspaceId = some ws

structure Sane (w : World) : Prop where
  valid : w.ledger.Valid
  placed : ∀ k e, k.table = .enrollments → w.store.lookup k = some e → k.partition = platformPartition
  enrolled : ∀ ws, w.Enrolled ws → w.ledger.Present ws

/-- What unlocked operations do: enrollments may go, and new ones refer to no workspace. -/
structure Quiet (w w' : World) : Prop where
  ledger : w'.ledger = w.ledger
  rows : ∀ k e, k.table = .enrollments → w'.store.lookup k = some e →
    w.store.lookup k = some e ∨ (k.partition = platformPartition ∧ e.data.workspaceId = none)

/-- What one request of a locked operation does. -/
structure LockedStep (G : Ledger → Key → Option Value → Option Value → Prop) (w w' : World) : Prop where
  ledger : w'.ledger = w.ledger ∨ Step G w.ledger w'.ledger
  enrolled : ∀ ws, w'.Enrolled ws → w.Enrolled ws ∨ w'.ledger.Present ws
  removed : ∀ ws, w.ledger.Present ws → ¬ w'.ledger.Present ws → ¬ w'.Enrolled ws
  placed : ∀ k e, k.table = .enrollments → w'.store.lookup k = some e →
    w.store.lookup k ≠ none ∨ k.partition = platformPartition

theorem Quiet.refl (w : World) : Quiet w w := ⟨rfl, fun _ _ _ held => .inl held⟩

theorem Quiet.trans {w₁ w₂ w₃ : World} (first : Quiet w₁ w₂) (second : Quiet w₂ w₃) : Quiet w₁ w₃ := by
  refine ⟨second.ledger.trans first.ledger, fun k e table held => ?_⟩
  rcases second.rows k e table held with before | fresh
  · exact first.rows k e table before
  · exact .inr fresh

theorem Quiet.enrolled {w w' : World} (h : Quiet w w') {ws : String} (enrolled : w'.Enrolled ws) : w.Enrolled ws := by
  obtain ⟨k, e, table, held, refers⟩ := enrolled
  rcases h.rows k e table held with before | ⟨-, none⟩
  · exact ⟨k, e, table, before, refers⟩
  · rw [none] at refers
    cases refers

theorem Quiet.locked {G : Ledger → Key → Option Value → Option Value → Prop} {w w' : World} (h : Quiet w w') :
    LockedStep G w w' := by
  refine ⟨.inl h.ledger, fun ws enrolled => .inl (h.enrolled enrolled), fun ws present gone => ?_,
    fun k e table held => ?_⟩
  · rw [h.ledger] at gone
    exact absurd present gone
  · rcases h.rows k e table held with before | ⟨platform, -⟩
    · exact .inl (by simp [before])
    · exact .inr platform

theorem LockedStep.mono {G G' : Ledger → Key → Option Value → Option Value → Prop} {w w' : World}
    (h : LockedStep G w w') (sub : ∀ c k old new, G c k old new → G' c k old new) : LockedStep G' w w' :=
  ⟨h.ledger.imp_right fun step => step.mono sub, h.enrolled, h.removed, h.placed⟩

theorem Sane.step {app : App} {d : Discipline} {w w' : World} (sane : Sane w)
    (step : LockedStep (Write app d) w w') : Sane w' := by
  have valid : w'.ledger.Valid := by
    rcases step.ledger with same | step
    · rw [same]
      exact sane.valid
    · exact sane.valid.step step
  refine ⟨valid, fun k e table held => ?_, fun ws enrolled => ?_⟩
  · rcases step.placed k e table held with before | platform
    · obtain ⟨e', found⟩ := Option.ne_none_iff_exists'.mp before
      exact sane.placed k e' table found
    · exact platform
  · rcases step.enrolled ws enrolled with before | present
    · by_contra gone
      exact step.removed ws (sane.enrolled ws before) gone enrolled
    · exact present

/-! ### The ledger a locked operation sees -/

/-- The ledger, and the workspaces that enrollments may refer to. -/
structure View where
  ledger : Ledger
  enrolled : String → Prop

structure World.Within (w : World) (v : View) : Prop where
  ledger : w.ledger = v.ledger
  enrolled : ∀ ws, w.Enrolled ws → v.enrolled ws

/-- The ledger after a step, with the same enrollments. -/
def View.with (v : View) (c : Ledger) : View := { v with ledger := c }

@[simp] theorem View.with_ledger {v : View} {c : Ledger} : (v.with c).ledger = c := rfl

theorem World.Within.quiet {w w' : World} {v : View} (h : w.Within v) (quiet : Quiet w w') : w'.Within v :=
  ⟨quiet.ledger.trans h.ledger, fun ws enrolled => h.enrolled ws (quiet.enrolled enrolled)⟩

/-- The views agree apart from the rows under these keys; enrollments refer to the same workspaces. -/
structure View.AgreeApart (touched : Key → Prop) (v v' : View) : Prop where
  rows : ∀ k, ¬ touched k → v'.ledger.rows k = v.ledger.rows k
  enrolled : v'.enrolled = v.enrolled

namespace View.AgreeApart
variable {touched touched' : Key → Prop} {v v' v'' : View} {ws user : String}

theorem refl (v : View) : AgreeApart touched v v := ⟨fun _ _ => rfl, rfl⟩

theorem trans (first : AgreeApart touched v v') (second : AgreeApart touched v' v'') : AgreeApart touched v v'' :=
  ⟨fun k free => (second.rows k free).trans (first.rows k free), second.enrolled.trans first.enrolled⟩

theorem mono (h : AgreeApart touched v v') (sub : ∀ k, touched k → touched' k) : AgreeApart touched' v v' :=
  ⟨fun k free => h.rows k fun yes => free (sub k yes), h.enrolled⟩

theorem set {k : Key} {e : Option (Entity Value)} (k_touched : touched k) :
    AgreeApart touched v (v.with (v.ledger.set k e)) :=
  ⟨fun k' free => set_rows_other (by rintro rfl; exact free k_touched), rfl⟩

theorem draw {u : Uuid} : AgreeApart touched v (v.with (v.ledger.draw u)) := ⟨fun _ _ => rfl, rfl⟩

theorem value (h : AgreeApart touched v v') {k : Key} (free : ¬ touched k) : v'.ledger.value k = v.ledger.value k := by
  rw [Ledger.value, h.rows k free, Ledger.value]

theorem inState {P : ProvisioningState → Prop} (h : AgreeApart touched v v') (free : ¬ touched (workspaceKey ws))
    (held : v.ledger.InState ws P) : v'.ledger.InState ws P := by
  obtain ⟨r, x, row, state⟩ := held
  exact ⟨r, x, (h.value free).trans row, state⟩

theorem joined (h : AgreeApart touched v v') (free : ¬ touched ⟨.members, ws, user⟩) (held : v.ledger.Joined ws user) :
    v'.ledger.Joined ws user := by rwa [Ledger.Joined, h.rows _ free]

theorem hasAdmin (h : AgreeApart touched v v') (free : ∀ user, ¬ touched ⟨.members, ws, user⟩)
    (held : v.ledger.HasAdmin ws) : v'.ledger.HasAdmin ws := by
  obtain ⟨user, m, row, role⟩ := held
  exact ⟨user, m, (h.value (free user)).trans row, role⟩

end View.AgreeApart

/-- Requests that create or delete cloud resources or remove the rows of these, and those for relay tokens. -/
def Request.Governed : Request → Prop
  | .ensureNamespace .. | .deleteNamespace _ | .ensureConnection .. | .deleteConnection .. | .issueToken .. => True
  | .delete table .. => table = .connections ∨ table = .workspaces
  | _ => False

/-- The cloud says that the resource is gone. -/
def Request.Confirms : (r : Request) → Except BrokerError (Reply r) → Prop
  | .deleteNamespace _, .ok gone => gone = true
  | .deleteConnection .., .ok gone => gone = true
  | _, _ => False

/-- What a locked operation may do: which row writes, and which of the governed requests, where some
requests are never confirmed to it. -/
structure Permits where
  writes : Ledger → Key → Option Value → Option Value → Prop
  calls : World → Request → Prop
  denied : Request → Prop

def Permits.contract (m : Permits) : Program.Contract Request Reply BrokerError World where
  answers w r reply w' := Responds anyTime w r reply w' ∧ (r.Confirms reply → ¬ m.denied r)
  invariant := Sane
  rely := Quiet
  guarantee w r w' := LockedStep m.writes w w' ∧ (r.Governed → m.calls w r)

/-- From this view the program does what it may, and ends as `Q` or with an error as `E` says. -/
structure Sound {α : Type} (m : Permits) (v : View) (Q : α → View → Prop) (E : BrokerError → View → Prop)
    (p : Handler α) : Prop where
  meets : ∀ w, w.Within v → Program.Meets m.contract (fun a w' => ∃ v', w'.Within v' ∧ Q a v')
    (fun e w' => ∃ v', w'.Within v' ∧ E e v') p w

/-- `Sound` where nothing is said about errors. -/
def Safe {α : Type} (m : Permits) (v : View) (Q : α → View → Prop) (p : Handler α) : Prop :=
  Sound m v Q (fun _ _ => True) p

section Rules
variable {α β : Type} {m : Permits} {v : View} {P : α → View → Prop} {Q : β → View → Prop}
  {E E' : BrokerError → View → Prop} {p : Handler α} {f : α → Handler β}

theorem Sound.mono {P' : α → View → Prop} (h : Sound m v P E p) (ok : ∀ a v', P a v' → P' a v')
    (err : ∀ e v', E e v' → E' e v') : Sound m v P' E' p where
  meets w within := (h.meets w within).mono (fun a _ ⟨v', within', holds⟩ => ⟨v', within', ok a v' holds⟩)
    fun e _ ⟨v', within', holds⟩ => ⟨v', within', err e v' holds⟩

theorem Sound.safe (h : Sound m v P E p) : Safe m v P p := h.mono (fun _ _ h => h) fun _ _ _ => trivial

theorem Safe.mono {P' : α → View → Prop} (h : Safe m v P p) (ok : ∀ a v', P a v' → P' a v') : Safe m v P' p :=
  Sound.mono h ok fun _ _ h => h

theorem Safe.pure {b : β} (h : Q b v) : Safe m v Q (pure b) := ⟨fun _ within => ⟨v, within, h⟩⟩

theorem Safe.throw {e : BrokerError} : Safe m v Q (throw e : Handler β) :=
  ⟨fun _ within => ⟨v, within, trivial⟩⟩

theorem Sound.bind {E : BrokerError → View → Prop} (first : Sound m v P E p)
    (rest : ∀ a v', P a v' → Sound m v' Q E (f a)) : Sound m v Q E (p >>= f) where
  meets w within := (first.meets w within).bind fun a _ ⟨v', within', holds⟩ => (rest a v' holds).meets _ within'

theorem Safe.bind (first : Safe m v P p) (rest : ∀ a v', P a v' → Safe m v' Q (f a)) :
    Safe m v Q (p >>= f) := Sound.bind first rest

theorem Safe.require_done {Q : Unit → View → Prop} {condition : Bool} {e : BrokerError}
    (holds : condition = true → Q () v) : Safe m v Q (require condition e) := by
  cases condition with
  | true => exact Safe.pure (holds rfl)
  | false => exact Safe.throw

theorem Safe.require_bind {condition : Bool} {e : BrokerError} {f : Unit → Handler β}
    (rest : condition = true → Safe m v Q (f ())) : Safe m v Q (require condition e >>= f) := by
  cases condition with
  | true => exact rest rfl
  | false => exact Safe.throw

theorem Safe.okOr_bind {value : Option α} {e : BrokerError} (rest : ∀ a, value = some a → Safe m v Q (f a)) :
    Safe m v Q (okOr value e >>= f) := by
  cases value with
  | some a => exact rest a rfl
  | none => exact Safe.throw

theorem Safe.decode_bind [Record α] {value : Value} (rest : ∀ a, Record.decode value = some a → Safe m v Q (f a)) :
    Safe m v Q (decode value >>= f) := Safe.okOr_bind rest

theorem Safe.ite {c : Prop} [Decidable c] {p q : Handler β} (yes : c → Safe m v Q p) (no : ¬ c → Safe m v Q q) :
    Safe m v Q (if c then p else q) := by
  split
  · next h => exact yes h
  · next h => exact no h

/-- Continue after an outcome that the program looks at. -/
theorem Sound.attempt_bind {f : Except BrokerError α → Handler β} (first : Sound m v P E p)
    (ok : ∀ a v', P a v' → Safe m v' Q (f (.ok a)))
    (err : ∀ e v', E e v' → Safe m v' Q (f (.error e))) : Safe m v Q (p.attempt >>= f) := by
  refine ⟨fun w within => ?_⟩
  refine Program.Meets.bind (P := fun result w' => ∃ v', w'.Within v' ∧ match result with
    | .ok a => P a v'
    | .error e => E e v') (Program.meets_attempt (first.meets w within)) ?_
  rintro result w' ⟨v', within', holds⟩
  cases result with
  | ok a => exact (ok a v' holds).meets w' within'
  | error e => exact (err e v' holds).meets w' within'

theorem Safe.forEach {γ : Type} {I : List γ → View → Prop} {body : γ → Handler Unit}
    (step : ∀ x rest v, I (x :: rest) v → Safe m v (fun _ v' => I rest v') (body x)) {xs : List γ}
    (start : I xs v) : Safe m v (fun _ v' => I [] v') (Program.forEach body xs) := by
  refine ⟨fun w within => ?_⟩
  refine Program.meets_forEach (P := fun rest (w : World) => ∃ v', w.Within v' ∧ I rest v') ?_ ⟨v, within, start⟩
  rintro x rest w' ⟨v', within', holds⟩
  exact (step x rest v' holds).meets w' within'

/-- Whatever every write keeps is kept, also where the program fails. -/
theorem Sound.reached {R : Ledger → Ledger → Prop} (h : Sound m v P E p) (refl : ∀ c, R c c)
    (trans : ∀ c₁ c₂ c₃, R c₁ c₂ → R c₂ c₃ → R c₁ c₃) (step : ∀ c c', Step m.writes c c' → R c c') :
    Sound m v (fun a v' => R v.ledger v'.ledger ∧ P a v') (fun e v' => R v.ledger v'.ledger ∧ E e v') p := by
  refine ⟨fun w within => ?_⟩
  have reached := (h.meets w within).reached (R := fun w w' => R w.ledger w'.ledger) (fun w => refl _)
    (fun _ _ _ => trans _ _ _) (fun w w' quiet => quiet.ledger ▸ refl _) ?_
  · refine reached.mono ?_ ?_
    · rintro a w' ⟨kept, v', within', holds⟩
      exact ⟨v', within', within.ledger ▸ within'.ledger ▸ kept, holds⟩
    · rintro e w' ⟨kept, v', within', holds⟩
      exact ⟨v', within', within.ledger ▸ within'.ledger ▸ kept, holds⟩
  · rintro w r w' ⟨locked, -⟩
    rcases locked.ledger with same | change
    · exact same ▸ refl _
    · exact step _ _ change

/-- A program that may do less may do more. -/
theorem Sound.weaken {m' : Permits} (h : Sound m v P E p)
    (writes : ∀ c k old new, m.writes c k old new → m'.writes c k old new)
    (calls : ∀ w r, m.calls w r → m'.calls w r) (denied : m.denied = m'.denied) : Sound m' v P E p where
  meets w within := (h.meets w within).answers (d := m'.contract) (fun _ _ _ _ answered => ⟨answered.1, denied ▸ answered.2⟩)
    (fun _ h => h) (fun _ _ h => h)
    fun w r _ _ kept => ⟨kept.1.mono writes, fun governed => calls w r (kept.2 governed)⟩

end Rules

end Azbridge.Broker
