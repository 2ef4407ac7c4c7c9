import Mathlib.Data.Set.Finite.Basic

/-!
# Following continuations

A result comes in pages, each of which may name the next one. Whoever follows them stops at a name
that was followed before.
-/

namespace Paging

variable {τ α ε : Type}

/-- The pages from one on, and the names that are followed to the last of them. -/
inductive Chain (fetch : τ → Except ε (List α × Option τ)) : τ → List τ → List α → Prop
  | last {at_ : τ} {page : List α} : fetch at_ = .ok (page, none) → Chain fetch at_ [] page
  | more {at_ next : τ} {page pages : List α} {names : List τ} : fetch at_ = .ok (page, some next) →
    Chain fetch next names pages → Chain fetch at_ (next :: names) (page ++ pages)

variable [DecidableEq τ]

/-- The loop; `none` where the fuel does not reach to its end. -/
def follow (fetch : τ → Except ε (List α × Option τ)) (repeated : ε) :
    Nat → τ → List α → List τ → Option (Except ε (List α))
  | 0, _, _, _ => none
  | fuel + 1, at_, gathered, seen =>
    match fetch at_ with
    | .error error => some (.error error)
    | .ok (page, none) => some (.ok (gathered ++ page))
    | .ok (page, some next) =>
      if next ∈ seen then some (.error repeated)
      else follow fetch repeated fuel next (gathered ++ page) (next :: seen)

/-- The names that are fetched in the first turns of the loop, the last one first. -/
def fetched (fetch : τ → Except ε (List α × Option τ)) : Nat → τ → List τ → List τ
  | 0, _, seen => seen
  | fuel + 1, at_, seen =>
    match fetch at_ with
    | .ok (_, some next) => if next ∈ seen then seen else fetched fetch fuel next (next :: seen)
    | _ => seen

section Laws
variable {fetch : τ → Except ε (List α × Option τ)} {repeated : ε} {at_ : τ} {gathered : List α} {seen : List τ}

theorem follow_of_chain {names : List τ} {pages : List α} (chain : Chain fetch at_ names pages) (fresh : names.Nodup)
    (apart : ∀ name ∈ names, name ∉ seen) :
    follow fetch repeated (names.length + 1) at_ gathered seen = some (.ok (gathered ++ pages)) := by
  induction chain generalizing gathered seen with
  | last ended => simp [follow, ended]
  | @more at_ next page pages names continued _ ih =>
    obtain ⟨once, later⟩ := List.nodup_cons.mp fresh
    have new : next ∉ seen := apart next (.head _)
    have rest : ∀ name ∈ names, name ∉ next :: seen := by
      intro name member old
      rcases List.mem_cons.mp old with rfl | old
      · exact once member
      · exact apart name (.tail _ member) old
    rw [List.length_cons, follow, continued]
    simp only [new, if_false]
    rw [ih later rest, List.append_assoc]

theorem chain_of_follow {fuel : Nat} {result : List α}
    (done : follow fetch repeated fuel at_ gathered seen = some (.ok result)) :
    ∃ names pages, Chain fetch at_ names pages ∧ names.Nodup ∧ (∀ name ∈ names, name ∉ seen) ∧ result = gathered ++ pages := by
  induction fuel generalizing at_ gathered seen with
  | zero => cases done
  | succ fuel ih =>
    unfold follow at done
    split at done
    · cases done
    · next page ended =>
      cases done
      exact ⟨[], page, .last ended, .nil, nofun, rfl⟩
    · next page next continued =>
      split at done
      · cases done
      · next new =>
        obtain ⟨names, pages, chain, once, apart, rfl⟩ := ih done
        refine ⟨next :: names, page ++ pages, .more continued chain, ?_, ?_, by rw [List.append_assoc]⟩
        · exact List.nodup_cons.mpr ⟨fun member => apart next member (.head _), once⟩
        · intro name member
          rcases List.mem_cons.mp member with rfl | member
          · exact new
          · exact fun old => apart name member (.tail _ old)

/-- The loop returns the pages, all of them, if there is a last one and no name is met twice. -/
theorem follow_ok_iff {result : List α} : (∃ fuel, follow fetch repeated fuel at_ [] [] = some (.ok result)) ↔
    ∃ names, Chain fetch at_ names result ∧ names.Nodup := by
  constructor
  · rintro ⟨fuel, done⟩
    obtain ⟨names, pages, chain, once, -, rfl⟩ := chain_of_follow done
    exact ⟨names, chain, once⟩
  · rintro ⟨names, chain, once⟩
    exact ⟨_, follow_of_chain chain once fun _ _ => List.not_mem_nil⟩

theorem nodup_fetched (fuel : Nat) (once : seen.Nodup) : (fetched fetch fuel at_ seen).Nodup := by
  induction fuel generalizing at_ seen with
  | zero => exact once
  | succ fuel ih =>
    unfold fetched
    split
    · split
      · exact once
      · next new => exact ih (List.nodup_cons.mpr ⟨new, once⟩)
    · exact once

theorem named_of_fetched {fuel : Nat} {name : τ} (member : name ∈ fetched fetch fuel at_ seen) :
    name ∈ seen ∨ ∃ from_ page, fetch from_ = .ok (page, some name) := by
  induction fuel generalizing at_ seen with
  | zero => exact .inl member
  | succ fuel ih =>
    unfold fetched at member
    split at member
    · next page next continued =>
      split at member
      · exact .inl member
      · rcases ih member with old | named
        · rcases List.mem_cons.mp old with rfl | old
          · exact .inr ⟨at_, page, continued⟩
          · exact .inl old
        · exact .inr named
    · exact .inl member

/-- With only so many names the loop ends. -/
theorem follow_ends {all : Finset τ} (named : ∀ at_ page next, fetch at_ = .ok (page, some next) → next ∈ all)
    (within : ∀ name ∈ seen, name ∈ all) (once : seen.Nodup) {fuel : Nat} (enough : all.card < fuel + seen.length) :
    ∃ result, follow fetch repeated fuel at_ gathered seen = some result := by
  induction fuel generalizing at_ gathered seen with
  | zero =>
    have few : seen.toFinset.card ≤ all.card :=
      Finset.card_le_card fun name member => within name (List.mem_toFinset.mp member)
    rw [List.toFinset_card_of_nodup once] at few
    omega
  | succ fuel ih =>
    unfold follow
    split
    · exact ⟨_, rfl⟩
    · exact ⟨_, rfl⟩
    · next page next continued =>
      split
      · exact ⟨_, rfl⟩
      · next new =>
        apply ih
        · intro name member
          rcases List.mem_cons.mp member with rfl | member
          · exact named at_ page name continued
          · exact within name member
        · exact List.nodup_cons.mpr ⟨new, once⟩
        · rw [List.length_cons]
          omega

end Laws
end Paging
