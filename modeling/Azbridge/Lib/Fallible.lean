import Mathlib.Data.List.Induction
import Mathlib.Data.List.Forall2

/-!
# Computations that may fail

What is known once a computation has come to an end.
-/

namespace Fallible

variable {ε α β σ : Type}

theorem bind_eq_ok {first : Except ε α} {next : α → Except ε β} {b : β} :
    (first >>= next) = .ok b ↔ ∃ a, first = .ok a ∧ next a = .ok b := by
  cases first <;> simp [bind, Except.bind]

theorem map_eq_ok {x : Except ε α} {f : α → β} {b : β} : x.map f = .ok b ↔ ∃ a, x = .ok a ∧ f a = b := by
  cases x <;> simp [Except.map]

theorem seq_eq_ok {first next : Except ε Unit} : (first >>= fun _ => next) = .ok () ↔ first = .ok () ∧ next = .ok () := by
  cases first <;> simp [bind, Except.bind]

theorem forM_eq_ok {f : α → Except ε Unit} {entries : List α} : entries.forM f = .ok () ↔ ∀ entry ∈ entries, f entry = .ok () := by
  induction entries with
  | nil => simp [pure, Except.pure]
  | cons entry rest ih =>
    show (f entry >>= fun _ => rest.forM f) = .ok () ↔ _
    rw [seq_eq_ok, ih, List.forall_mem_cons]

theorem mapM_eq_ok {f : α → Except ε β} {entries : List α} {results : List β} :
    entries.mapM f = .ok results ↔ List.Forall₂ (fun entry result => f entry = .ok result) entries results := by
  induction entries generalizing results with
  | nil => simp [pure, Except.pure, eq_comm]
  | cons entry rest ih =>
    rw [List.mapM_cons, bind_eq_ok, List.forall₂_cons_left_iff]
    constructor
    · rintro ⟨result, first, done⟩
      obtain ⟨others, later, same⟩ := bind_eq_ok.mp done
      cases same
      exact ⟨result, others, first, ih.mp later, rfl⟩
    · rintro ⟨result, others, first, later, rfl⟩
      refine ⟨result, first, bind_eq_ok.mpr ⟨others, ih.mpr later, rfl⟩⟩

theorem forall_mem_congr {r : α → β → Prop} {p : α → Prop} {q : β → Prop} {as : List α} {bs : List β}
    (each : List.Forall₂ r as bs) (agree : ∀ a b, r a b → (q b ↔ p a)) : (∀ b ∈ bs, q b) ↔ ∀ a ∈ as, p a := by
  induction each with
  | nil => simp
  | cons first _ ih => rw [List.forall_mem_cons, List.forall_mem_cons, ih, agree _ _ first]

theorem exists_of_forall₂ {r : α → β → Prop} {as : List α} {bs : List β} (each : List.Forall₂ r as bs) {a : α}
    (member : a ∈ as) : ∃ b, r a b := by
  induction each with
  | nil => cases member
  | cons first _ ih =>
    cases member with
    | head => exact ⟨_, first⟩
    | tail _ later => exact ih later

theorem forall₂_toOption {f : α → Except ε β} {entries : List α} (all : ∀ entry ∈ entries, ∃ b, f entry = .ok b) :
    List.Forall₂ (fun entry b => f entry = .ok b) entries (entries.filterMap fun entry => (f entry).toOption) := by
  induction entries with
  | nil => exact .nil
  | cons entry rest ih =>
    obtain ⟨b, found⟩ := all entry (.head _)
    rw [List.filterMap_cons, found]
    exact .cons found (ih fun other later => all other (.tail _ later))

/-- What every step keeps of the entries so far is known of all of them in the end. -/
theorem foldlM_ok {step : σ → α → Except ε σ} {Known : List α → σ → Prop} {init final : σ} {entries : List α}
    (each : ∀ seen entry state next, Known seen state → step state entry = .ok next → Known (seen ++ [entry]) next)
    (start : Known [] init) (done : entries.foldlM step init = .ok final) : Known entries final := by
  induction entries using List.reverseRecOn generalizing final with
  | nil =>
    cases done
    exact start
  | append_singleton entries entry ih =>
    rw [List.foldlM_append] at done
    obtain ⟨state, before, last⟩ := bind_eq_ok.mp done
    obtain ⟨next, stepped, same⟩ := bind_eq_ok.mp last
    cases same
    exact each entries entry state final (ih before) stepped

end Fallible
