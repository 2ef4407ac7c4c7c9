import Azbridge.Lib.Interleaving

/-!
# Claims and grants

A program may grant something only after it has claimed it, and grants it once. If a claim succeeds for one
thread at most, then so does what is granted on it, however the threads interleave and wherever they stop. The
claims are found in a record of all requests and replies, which is kept beside the world.
-/

namespace Program
variable {Req : Type} {Rep : Req → Type} {ε α β : Type} {grant : Req → Prop}

/-- One request at most grants, on any way through the program. -/
inductive Spends (grant : Req → Prop) : Program Req Rep ε α → Prop
  | quiet {p : Program Req Rep ε α} (uses : p.Uses fun r => ¬ grant r) : Spends grant p
  | call {r : Req} {next : Except ε (Rep r) → Program Req Rep ε α} (other : ¬ grant r) (rest : ∀ reply, Spends grant (next reply)) :
      Spends grant (.call r next)
  | grant {r : Req} {next : Except ε (Rep r) → Program Req Rep ε α} (rest : ∀ reply, (next reply).Uses fun r => ¬ grant r) :
      Spends grant (.call r next)

theorem Spends.bind {p : Program Req Rep ε α} {f : α → Program Req Rep ε β} (first : Spends grant p)
    (rest : ∀ a, (f a).Uses fun r => ¬ grant r) : Spends grant (p >>= f) := by
  induction first with
  | quiet uses => exact .quiet (uses.bind rest)
  | call other _ ih => exact .call other ih
  | grant uses => exact .grant fun reply => (uses reply).bind rest

theorem Uses.bind_spends {p : Program Req Rep ε α} {f : α → Program Req Rep ε β} (first : p.Uses fun r => ¬ grant r)
    (rest : ∀ a, Spends grant (f a)) : Spends grant (p >>= f) := by
  change Spends grant (p.bind f)
  induction first with
  | @done result =>
    cases result with
    | ok a => exact rest a
    | error e => exact .quiet .done
  | call other _ ih => exact .call other ih

theorem spends_request (r : Req) : Spends grant (request r : Program Req Rep ε (Rep r)) := .grant fun _ => .done

/-- Nothing is granted, by a request or by the result, before a request is answered as `claim` says. -/
inductive Redeems (likely claim : (r : Req) → Except ε (Rep r) → Prop) (grant : Req → Prop) (granted : Except ε α → Prop) :
    Program Req Rep ε α → Prop
  | done {result : Except ε α} (quiet : ¬ granted result) : Redeems likely claim grant granted (.done result)
  | call {r : Req} {next : Except ε (Rep r) → Program Req Rep ε α} (other : ¬ grant r)
      (unclaimed : ∀ reply, likely r reply → ¬ claim r reply → Redeems likely claim grant granted (next reply))
      (claimed : ∀ reply, likely r reply → claim r reply → Spends grant (next reply)) :
      Redeems likely claim grant granted (.call r next)

section Rules
variable {likely claim : (r : Req) → Except ε (Rep r) → Prop} {granted : Except ε β → Prop} {f : α → Program Req Rep ε β}

theorem Uses.bind_redeems {p : Program Req Rep ε α} (first : p.Uses fun r => ¬ grant r ∧ ∀ reply, ¬ claim r reply)
    (failed : ∀ e, ¬ granted (.error e)) (rest : ∀ a, Redeems likely claim grant granted (f a)) :
    Redeems likely claim grant granted (p >>= f) := by
  change Redeems likely claim grant granted (p.bind f)
  induction first with
  | @done result =>
    cases result with
    | ok a => exact rest a
    | error e => exact .done (failed e)
  | call quiet _ ih => exact .call quiet.1 (fun reply _ _ => ih reply) fun reply _ claimed => absurd claimed (quiet.2 reply)

/-- A check of what is known already. -/
theorem redeems_done {result : Except ε α} (failed : ∀ e, ¬ granted (.error e))
    (rest : ∀ a, result = .ok a → Redeems likely claim grant granted (f a)) :
    Redeems likely claim grant granted (.done result >>= f) := by
  cases result with
  | ok a => exact rest a rfl
  | error e => exact .done (failed e)

theorem redeems_request {r : Req} {f : Rep r → Program Req Rep ε β} (quiet : ¬ grant r ∧ ∀ reply, ¬ claim r reply)
    (failed : ∀ e, ¬ granted (.error e)) (rest : ∀ a, likely r (.ok a) → Redeems likely claim grant granted (f a)) :
    Redeems likely claim grant granted (request r >>= f) := by
  apply Redeems.call quiet.1
  · intro reply answered _
    cases reply with
    | ok a => exact rest a answered
    | error e => exact .done (failed e)
  · exact fun reply _ claimed => absurd claimed (quiet.2 reply)

theorem redeems_claim {r : Req} {f : Rep r → Program Req Rep ε β} (other : ¬ grant r) (refused : ∀ e, ¬ claim r (.error e))
    (claims : ∀ a, claim r (.ok a)) (failed : ∀ e, ¬ granted (.error e)) (rest : ∀ a, Spends grant (f a)) :
    Redeems likely claim grant granted (request r >>= f) := by
  apply Redeems.call other
  · intro reply _ unclaimed
    cases reply with
    | ok a => exact absurd (claims a) unclaimed
    | error e => exact .done (failed e)
  · intro reply _ claimed
    cases reply with
    | ok a => exact rest a
    | error e => exact absurd claimed (refused e)

/-- What is returned may be told otherwise. -/
theorem Redeems.map {p : Program Req Rep ε α} {f : α → β}
    (redeems : Redeems likely claim grant (fun result => granted (result.map f)) p) :
    Redeems likely claim grant granted (p >>= fun a => pure (f a)) := by
  change Redeems likely claim grant granted (p.bind fun a => pure (f a))
  induction redeems with
  | @done result quiet => cases result <;> exact .done quiet
  | call other _ claimed ih => exact .call other ih fun reply answered claims => (claimed reply answered claims).bind fun _ => .done

end Rules
end Program

namespace Interleaving
open Program
variable {Op Req : Type} {Rep : Req → Type} {ε α W : Type} {s : System Op Req Rep ε α W}

/-- The same system with every answered request on record. -/
def System.recording (s : System Op Req Rep ε α W) : System Op Req Rep ε α (W × List (Event Req Rep ε)) where
  program := s.program
  answers t := observe (s.answers t) t
  admits o w := s.admits o w.1
  overlap := s.overlap

theorem Reaches.recorded {w : W} {p : Pool Op Req Rep ε α W} (run : Reaches s (Pool.fresh w) p) :
    ∃ history, Reaches s.recording (Pool.fresh (w, [])) ⟨(p.world, history), p.threads⟩ := by
  induction run with
  | refl => exact ⟨[], .refl⟩
  | tail _ step ih =>
    obtain ⟨history, before⟩ := ih
    cases step with
    | start t o unused admitted alone =>
      exact ⟨history, before.tail (.start (s := s.recording) (p := ⟨(_, history), _⟩) t o unused admitted alone)⟩
    | @answer t th r next reply w' held live waiting answered =>
      exact ⟨history ++ [(t, ⟨r, reply⟩)],
        before.tail (.answer (s := s.recording) (p := ⟨(_, history), _⟩) held live waiting ⟨answered, rfl⟩)⟩
    | drop held running =>
      exact ⟨history, before.tail (.drop (s := s.recording) (p := ⟨(_, history), _⟩) held running)⟩

/-- The same system, where some events do not happen. -/
def System.without (s : System Op Req Rep ε α W) (bad : Event Req Rep ε → Prop) : System Op Req Rep ε α W where
  program := s.program
  answers t w r reply w' := s.answers t w r reply w' ∧ ¬ bad (t, ⟨r, reply⟩)
  admits := s.admits
  overlap := s.overlap

theorem Reaches.without {bad : Event Req Rep ε → Prop} {w : W} {p : Pool Op Req Rep ε α (W × List (Event Req Rep ε))}
    (run : Reaches s.recording (Pool.fresh (w, [])) p) (clean : ∀ e ∈ p.world.2, ¬ bad e) :
    Reaches (s.without bad) (Pool.fresh w) ⟨p.world.1, p.threads⟩ := by
  induction run with
  | refl => exact .refl
  | tail _ step ih =>
    cases step with
    | start t o unused admitted alone => exact (ih clean).tail (.start (s := s.without bad) (p := ⟨_, _⟩) t o unused admitted alone)
    | @answer t th r next reply w' held live waiting answered =>
      obtain ⟨replied, record⟩ := answered
      dsimp only at clean
      rw [record] at clean
      have before := ih fun e member => clean e (List.mem_append_left _ member)
      have fine : ¬ bad (t, ⟨r, reply⟩) := clean _ (List.mem_append_right _ (.head _))
      exact before.tail (.answer (s := s.without bad) (p := ⟨_, _⟩) held live waiting ⟨replied, fine⟩)
    | drop held running => exact (ih clean).tail (.drop (s := s.without bad) (p := ⟨_, _⟩) held running)

theorem Reaches.unrecorded {w : W} {p : Pool Op Req Rep ε α (W × List (Event Req Rep ε))}
    (run : Reaches s.recording (Pool.fresh (w, [])) p) : Reaches s (Pool.fresh w) ⟨p.world.1, p.threads⟩ := by
  induction run with
  | refl => exact .refl
  | tail _ step ih =>
    cases step with
    | start t o unused admitted alone => exact ih.tail (.start (p := ⟨_, _⟩) t o unused admitted alone)
    | answer held live waiting answered => exact ih.tail (.answer (p := ⟨_, _⟩) held live waiting answered.1)
    | drop held running => exact ih.tail (.drop (p := ⟨_, _⟩) held running)

/-- What a thread was told so far, and what is left of its program. -/
inductive Account (likely claim : (r : Req) → Except ε (Rep r) → Prop) (grant : Req → Prop) (granted : Except ε α → Prop)
    (told : List ((r : Req) × Except ε (Rep r))) (p : Program Req Rep ε α) : Prop
  | open_ (none_ : ∀ e ∈ told, ¬ grant e.1) (redeems : Redeems likely claim grant granted p)
  | claimed (claims : ∃ e ∈ told, claim e.1 e.2) (none_ : ∀ e ∈ told, ¬ grant e.1) (spends : Spends grant p)
  | spent (claims : ∃ e ∈ told, claim e.1 e.2) (once : told.Pairwise fun a b => ¬ (grant a.1 ∧ grant b.1))
    (uses : p.Uses fun r => ¬ grant r)

section Accounts
variable {likely claim : (r : Req) → Except ε (Rep r) → Prop} {grant : Req → Prop} {granted : Except ε α → Prop}
  {told : List ((r : Req) × Except ε (Rep r))} {p : Program Req Rep ε α}

theorem none_concat {e : (r : Req) × Except ε (Rep r)} (none_ : ∀ e ∈ told, ¬ grant e.1) (other : ¬ grant e.1) :
    ∀ e' ∈ told ++ [e], ¬ grant e'.1 := by
  intro e' member
  rcases List.mem_append.mp member with before | last
  · exact none_ e' before
  · obtain rfl := List.mem_singleton.mp last
    exact other

theorem claims_concat {e : (r : Req) × Except ε (Rep r)} (claims : ∃ e ∈ told, claim e.1 e.2) :
    ∃ e' ∈ told ++ [e], claim e'.1 e'.2 := by
  obtain ⟨e', member, claimed⟩ := claims
  exact ⟨e', List.mem_append_left _ member, claimed⟩

theorem Account.step {r : Req} {next : Except ε (Rep r) → Program Req Rep ε α} {reply : Except ε (Rep r)}
    (account : Account likely claim grant granted told (.call r next)) (answered : likely r reply) :
    Account likely claim grant granted (told ++ [⟨r, reply⟩]) (next reply) := by
  cases account with
  | open_ none_ redeems =>
    cases redeems with
    | call other unclaimed claimed =>
      by_cases claims : claim r reply
      · exact .claimed ⟨_, List.mem_append_right _ (.head _), claims⟩ (none_concat none_ other) (claimed reply answered claims)
      · exact .open_ (none_concat none_ other) (unclaimed reply answered claims)
  | claimed claims none_ spends =>
    cases spends with
    | quiet uses =>
      cases uses with
      | call other rest => exact .claimed (claims_concat claims) (none_concat none_ other) (.quiet (rest reply))
    | call other rest => exact .claimed (claims_concat claims) (none_concat none_ other) (rest reply)
    | grant rest =>
      refine .spent (claims_concat claims) ?_ (rest reply)
      rw [List.pairwise_append]
      refine ⟨?_, List.pairwise_singleton _ _, ?_⟩
      · exact List.pairwise_of_forall_mem_list fun a member _ _ both => none_ a member both.1
      · exact fun a member _ _ both => none_ a member both.1
  | spent claims once uses =>
    cases uses with
    | call other rest =>
      refine .spent (claims_concat claims) ?_ (rest reply)
      rw [List.pairwise_append]
      refine ⟨once, List.pairwise_singleton _ _, ?_⟩
      intro a _ b last both
      obtain rfl := List.mem_singleton.mp last
      exact other both.2

theorem Account.claims (account : Account likely claim grant granted told p) (grants : ∃ e ∈ told, grant e.1) :
    ∃ e ∈ told, claim e.1 e.2 := by
  obtain ⟨e, member, given⟩ := grants
  cases account with
  | open_ none_ redeems => exact absurd given (none_ e member)
  | claimed claims none_ spends => exact claims
  | spent claims once uses => exact claims

theorem Account.once (account : Account likely claim grant granted told p) :
    told.Pairwise fun a b => ¬ (grant a.1 ∧ grant b.1) := by
  have alone : (∀ e ∈ told, ¬ grant e.1) → told.Pairwise fun a b => ¬ (grant a.1 ∧ grant b.1) := fun none_ =>
    List.pairwise_of_forall_mem_list fun a member _ _ both => none_ a member both.1
  cases account with
  | open_ none_ redeems => exact alone none_
  | claimed claims none_ spends => exact alone none_
  | spent claims once uses => exact once

theorem Account.result {result : Except ε α} (account : Account likely claim grant granted told (.done result))
    (given : granted result) : ∃ e ∈ told, claim e.1 e.2 := by
  cases account with
  | open_ none_ redeems =>
    cases redeems with
    | done quiet => exact absurd given quiet
  | claimed claims none_ spends => exact claims
  | spent claims once uses => exact claims

end Accounts

section Runs
variable {likely : (r : Req) → Except ε (Rep r) → Prop} {claim : Op → (r : Req) → Except ε (Rep r) → Prop} {grant : Req → Prop}
  {granted : Except ε α → Prop} {w : W} {p : Pool Op Req Rep ε α (W × List (Event Req Rep ε))}

/-- Every thread's account is in order, and a thread that has not started was told nothing. -/
theorem accounts (redeems : ∀ o w, s.admits o w → Redeems likely (claim o) grant granted (s.program o))
    (sound : ∀ t w r reply w', s.answers t w r reply w' → likely r reply) (run : Reaches s.recording (Pool.fresh (w, [])) p) :
    (∀ t, p.threads t = none → trace t p.world.2 = []) ∧
      ∀ t th, p.threads t = some th → Account likely (claim th.op) grant granted (trace t p.world.2) th.program := by
  induction run with
  | refl => exact ⟨fun _ _ => rfl, nofun⟩
  | tail _ step ih =>
    obtain ⟨untold, accounts⟩ := ih
    cases step with
    | start t o unused admitted alone =>
      constructor
      · intro t' none_
        by_cases same : t' = t
        · subst same
          exact untold t' unused
        · simp only [Function.update_of_ne same] at none_
          exact untold t' none_
      · intro t' th held
        by_cases same : t' = t
        · subst same
          simp only [Function.update_self, Option.some.injEq] at held
          subst held
          refine .open_ ?_ (redeems o _ admitted)
          rw [untold t' unused]
          exact fun _ member => (List.not_mem_nil member).elim
        · simp only [Function.update_of_ne same] at held
          exact accounts t' th held
    | @answer t th r next reply w' held live waiting answered =>
      obtain ⟨replied, record⟩ := answered
      constructor
      · intro t' none_
        have other : t ≠ t' := by
          rintro rfl
          simp only [Function.update_self] at none_
          cases none_
        simp only [Function.update_of_ne other.symm] at none_
        rw [record, trace_other other]
        exact untold t' none_
      · intro t' th' held'
        by_cases same : t' = t
        · subst same
          simp only [Function.update_self, Option.some.injEq] at held'
          subst held'
          have before := accounts t' th held
          rw [waiting] at before
          rw [record, trace_own]
          exact before.step (sound _ _ _ _ _ replied)
        · simp only [Function.update_of_ne same] at held'
          rw [record, trace_other (Ne.symm same)]
          exact accounts t' th' held'
    | @drop t th held running =>
      constructor
      · intro t' none_
        by_cases same : t' = t
        · subst same
          simp only [Function.update_self] at none_
          cases none_
        · simp only [Function.update_of_ne same] at none_
          exact untold t' none_
      · intro t' th' held'
        by_cases same : t' = t
        · subst same
          simp only [Function.update_self, Option.some.injEq] at held'
          subst held'
          exact accounts t' th held
        · simp only [Function.update_of_ne same] at held'
          exact accounts t' th' held'

/-- Every pending request is one that the programs may put. -/
theorem Reaches.uses {P : Req → Prop} {q : Pool Op Req Rep ε α W} (uses : ∀ o w, s.admits o w → (s.program o).Uses P)
    (run : Reaches s (Pool.fresh w) q) : ∀ t th, q.threads t = some th → th.program.Uses P := by
  induction run with
  | refl => nofun
  | tail _ step ih =>
    cases step with
    | start t o unused admitted alone =>
      intro t' th held
      by_cases same : t' = t
      · subst same
        simp only [Function.update_self, Option.some.injEq] at held
        subst held
        exact uses o _ admitted
      · simp only [Function.update_of_ne same] at held
        exact ih t' th held
    | @answer t th r next reply w' held live waiting answered =>
      intro t' th' held'
      by_cases same : t' = t
      · subst same
        simp only [Function.update_self, Option.some.injEq] at held'
        subst held'
        have pending := ih t' th held
        rw [waiting] at pending
        cases pending with
        | call _ rest => exact rest reply
      · simp only [Function.update_of_ne same] at held'
        exact ih t' th' held'
    | @drop t th held running =>
      intro t' th' held'
      by_cases same : t' = t
      · subst same
        simp only [Function.update_self, Option.some.injEq] at held'
        subst held'
        exact ih t' th held
      · simp only [Function.update_of_ne same] at held'
        exact ih t' th' held'

/-- What takes something away that nobody puts back happens once. -/
theorem taken_once (hit : Event Req Rep ε → Prop) (gone : W → Prop) {P : Req → Prop}
    (uses : ∀ o w, s.admits o w → (s.program o).Uses P)
    (takes : ∀ t w r reply w', s.answers t w r reply w' → hit (t, ⟨r, reply⟩) → ¬ gone w ∧ gone w')
    (stays : ∀ t w r reply w', s.answers t w r reply w' → P r → gone w → gone w')
    (run : Reaches s.recording (Pool.fresh (w, [])) p) :
    AtMostOnce hit p.world.2 ∧ ((∃ e ∈ p.world.2, hit e) → gone p.world.1) := by
  induction run with
  | refl => exact ⟨List.Pairwise.nil, fun ⟨_, member, _⟩ => (List.not_mem_nil member).elim⟩
  | tail before step ih =>
    obtain ⟨once, taken⟩ := ih
    cases step with
    | start => exact ⟨once, taken⟩
    | drop => exact ⟨once, taken⟩
    | @answer t th r next reply w' held live waiting answered =>
      obtain ⟨replied, record⟩ := answered
      have pending := Reaches.uses (s := s.recording) (fun o w admitted => uses o w.1 admitted) before t th held
      rw [waiting] at pending
      have allowed : P r := by
        cases pending with
        | call h _ => exact h
      dsimp only
      rw [record]
      constructor
      · apply once.append
        intro hits e member hit'
        exact (takes t _ r reply _ replied hits).1 (taken ⟨e, member, hit'⟩)
      · rintro ⟨e, member, hits⟩
        rcases List.mem_append.mp member with earlier | last
        · exact stays t _ r reply _ replied allowed (taken ⟨e, earlier, hits⟩)
        · obtain rfl := List.mem_singleton.mp last
          exact (takes t _ r reply _ replied hits).2

end Runs
end Interleaving
