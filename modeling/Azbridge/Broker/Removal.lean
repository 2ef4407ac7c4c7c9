import Azbridge.Broker.Scripts

/-!
# Removed members

A member that was removed is none again before it is added again, in every run in which nobody
removes the creator of a workspace whose creation was not finished. Without that condition the
repair of the creation restores the creator as an administrator.
-/

namespace Azbridge.Broker
open Ledger Interleaving

variable {app : App} {ws user : String}

namespace Ledger
variable {d : Discipline} {c c' : Ledger}

/-- The workspace has its identifier for good, and its creation no longer concerns the user. -/
structure Past (c : Ledger) (ws user : String) : Prop where
  drawn : c.Drawn ws
  finished : ¬ c.Unfinished ws user

theorem Past.step (past : c.Past ws user) (taken : d.taken ws) (step : Step (Write app d) c c') : c'.Past ws user := by
  refine ⟨past.drawn.step step, ?_⟩
  cases step with
  | blob fresh => exact past.finished
  | uuid fresh => exact past.finished
  | @row k e h =>
    rintro ⟨r, x, held, creator, uninitialised, early⟩
    by_cases key : k = workspaceKey ws
    · subst key
      rw [Workspace, set_value_self] at held
      rw [held] at h
      generalize c.value (workspaceKey ws) = old at h
      cases h with
      | system h =>
        cases h with
        | initialise => exact uninitialised rfl
        | provision live alive initialised kept => exact uninitialised kept
        | deletionFailed deleting => rcases early with early | early <;> cases deleting.symm.trans early
      | createWorkspace _ _ _ untaken => exact untaken taken
      | journal => rcases early with early | early <;> cases early
    · have held' : c.Workspace ws r x := (set_value_other (Ne.symm key)).symm.trans held
      exact past.finished ⟨r, x, held', creator, uninitialised, early⟩

/-- Who becomes a member is added as one, or is the creator before the creation is finished. -/
theorem joined_step (step : Step (Write app d) c c') (absent : ¬ c.Joined ws user) (joined : c'.Joined ws user) :
    c.Unfinished ws user ∨ d.joins ws := by
  cases step with
  | blob fresh => exact absurd joined absent
  | uuid fresh => exact absurd joined absent
  | @row k e h =>
    by_cases key : k = ⟨.members, ws, user⟩
    · subst key
      rw [Joined, not_not] at absent
      rw [Joined, set_rows_self] at joined
      obtain ⟨e, rfl⟩ := Option.ne_none_iff_exists'.mp joined
      rw [show c.value ⟨.members, ws, user⟩ = none by simp [value, absent], Option.map_some] at h
      generalize e.data = v at h
      cases h with
      | system h => cases h with
        | insertMember m active creator => exact .inl creator
      | insertMember m active joins => exact .inr joins
    · rw [Joined, set_rows_other (Ne.symm key)] at joined
      exact absurd joined absent

end Ledger

theorem World.joined_iff {w : World} : w.ledger.Joined ws user ↔ w.store.lookup ⟨.members, ws, user⟩ ≠ none := by
  simp [Ledger.Joined, World.ledger]

/-- Nothing but the insertion of the row makes a member. -/
theorem responds_joined {tick : Nat → Nat → Prop} {w w' : World} {r : Request} {reply : Except BrokerError (Reply r)}
    (answered : Responds tick w r reply w') (absent : ¬ w.ledger.Joined ws user) (joined : w'.ledger.Joined ws user) :
    ∃ data, r = .insert .members ws user data := by
  rw [World.joined_iff] at absent joined
  obtain ⟨e, present⟩ := Option.ne_none_iff_exists'.mp joined
  exact ⟨e.data, responds_inserted answered (not_not.mp absent) present⟩

/-- The creator is not removed before the creation is finished. -/
def Op.Timely : Op → Ledger → Prop
  | .deleteMember _ ws id, c => ¬ c.Unfinished ws id
  | _, _ => True

/-- On the way, a `create_member` for the workspace puts the user's row in. -/
def Readded (app : App) (admits : Op → World → Prop) (ws user : String) (p p' : Pool) : Prop :=
  ∃ q t headers request data next, Reaches (serial app admits) p q ∧ Reaches (serial app admits) q p' ∧
    q.threads t = some ⟨.createMember headers ws request, .call (.insert .members ws user data) next, false⟩

theorem Readded.step {admits : Op → World → Prop} {p p₁ p₂ : Pool} (readded : Readded app admits ws user p p₁)
    (step : Step (serial app admits) p₁ p₂) : Readded app admits ws user p p₂ := by
  obtain ⟨q, t, headers, request, data, next, before, after, held⟩ := readded
  exact ⟨q, t, headers, request, data, next, before, after.tail step, held⟩

/-- What the removal leaves when it returns. -/
def Removes (_ : Nat) (o : Op) (result : Except BrokerError Outcome) (w : World) : Prop :=
  ∀ headers ws id, o = .deleteMember headers ws id → result = .ok .done →
    ¬ w.ledger.Joined ws id ∧ w.ledger.Present ws ∧ ¬ w.ledger.Unfinished ws id

theorem ends_removes (t : Nat) (o : Op) (w : World) (timely : o.Timely w.ledger) :
    (outline app .none fun o w => o.Timely w.ledger).Ends Removes t o (o.program app) w := by
  cases o with
  | deleteMember headers ws id =>
    have safe : Safe (.endpoint app (Discipline.none.during (.deleteMember headers ws id))
        ((Op.deleteMember headers ws id).tokens app)) ⟨w.ledger, w.Enrolled⟩
        (fun _ v' => ¬ v'.ledger.Joined ws id ∧ v'.ledger.Present ws ∧
          v'.ledger.value (workspaceKey ws) = w.ledger.value (workspaceKey ws))
        ((Op.deleteMember headers ws id).program app) := deleteMember_safe.bind fun _ _ after => Safe.pure after
    refine (locked_meets rfl safe).mono ?_ ?_
    · rintro _ w' ⟨v, within, absent, present, same⟩ headers ws id ⟨⟩ -
      rw [within.ledger]
      refine ⟨absent, present, ?_⟩
      rintro ⟨r, x, held, rest⟩
      exact timely ⟨r, x, same.symm.trans held, rest⟩
    · intro e w' _ headers ws id _ impossible
      cases impossible
  | _ =>
    have starts : (outline app .none fun o w => o.Timely w.ledger).Meets t _ (Op.program app _) w :=
      outline_starts nofun nofun t _ w timely fun _ used => used.elim
    exact starts.mono (fun _ _ _ => nofun) fun _ _ _ => nofun

/-- The broker where no creator is removed early. -/
abbrev timely (app : App) : System Op Request Reply BrokerError Outcome World := serial app fun o w => o.Timely w.ledger

theorem past_kept {t : Nat} {o : Op} {w : World} {r : Request} {w' : World} (past : w.ledger.Past ws user)
    (kept : (outline app (since ws) fun o w => o.Timely w.ledger).guarantee t o w r w') : w'.ledger.Past ws user := by
  rcases guaranteed_ledger kept with same | change
  · exact same ▸ past
  · exact past.step rfl change

def sinceRemoval (app : App) (ws user : String) : Outline (timely app) :=
  (outline app (since ws) _).strengthen (fun w => w.ledger.Past ws user) fun _ => past_kept

section Removal
variable {w₀ : World} {p₀ p₁ p₂ : Pool} {t : Nat} {headers : Headers}

theorem removed_since (start : w₀.Initial) (run : Reaches (timely app) (Pool.fresh w₀) p₀)
    (step : Step (timely app) p₀ p₁)
    (before : ¬ p₀.Returned t (.deleteMember headers ws user) (.ok .done))
    (removed : p₁.Returned t (.deleteMember headers ws user) (.ok .done)) :
    (sinceRemoval app ws user).Holds p₁ ∧ ¬ p₁.world.ledger.Joined ws user := by
  have engaged := Outline.engaged_reaches (fun t o w _ timely => ends_removes t o w timely)
    (Outline.engaged_fresh start.invariant) run
  obtain ⟨absent, present, finished⟩ :=
    engaged.returned (fun t o w _ timely => ends_removes t o w timely) step before removed headers ws user rfl rfl
  have base := serial_holds (d := .none) start nofun nofun (fun _ => id) (run.tail step)
  have drawn := base.invariant.sane.valid.drawn (workspaceKey ws) ws rfl present
  -- the removal held the lock until now, so whatever else runs does without it
  have unlocked := returned_unlocked engaged.apart rfl step before removed
  exact ⟨since_holds base ⟨drawn, finished⟩ unlocked, absent⟩

/-- A removed member is none until a later `create_member` of the workspace inserts it. -/
theorem removed_members_stay_removed (start : w₀.Initial)
    (run : Reaches (timely app) (Pool.fresh w₀) p₀)
    (step : Step (timely app) p₀ p₁)
    (before : ¬ p₀.Returned t (.deleteMember headers ws user) (.ok .done))
    (removed : p₁.Returned t (.deleteMember headers ws user) (.ok .done))
    (later : Reaches (timely app) p₁ p₂) :
    ¬ p₂.world.ledger.Joined ws user ∨ Readded app (fun o w => o.Timely w.ledger) ws user p₁ p₂ := by
  obtain ⟨holds, absent⟩ := removed_since start run step before removed
  suffices all : (sinceRemoval app ws user).Holds p₂ ∧
      (¬ p₂.world.ledger.Joined ws user ∨ Readded app (fun o w => o.Timely w.ledger) ws user p₁ p₂) from all.2
  induction later with
  | refl => exact ⟨holds, .inl absent⟩
  | @tail q q' path next ih =>
    obtain ⟨here, ih⟩ := ih
    have onward : Reaches (timely app) q q' := .single next
    refine ⟨Outline.holds_step (since_starts fun _ past => past.drawn) here next, ?_⟩
    rcases ih with out | readded
    · by_cases joined : q'.world.ledger.Joined ws user
      · refine .inr ?_
        cases next with
        | start => exact absurd joined out
        | drop => exact absurd joined out
        | @answer t th r rest reply w held live waiting answered =>
          obtain ⟨data, rfl⟩ := responds_joined answered out joined
          have guaranteed : (outline app (since ws) fun o w => o.Timely w.ledger).guarantee t th.op q.world _ w :=
            here.guarantees held live waiting answered
          rcases guaranteed_ledger guaranteed with same | change
          · exact absurd (same ▸ joined) out
          · rcases joined_step change out joined with unfinished | adds
            · exact absurd unfinished here.invariant.2.finished
            · obtain ⟨op, program, dropped⟩ := th
              cases op with
              | createMember headers own request =>
                cases waiting
                cases live
                cases adds
                exact ⟨q, t, headers, request, data, rest, path, onward, held⟩
              | _ => exact adds.elim
      · exact .inl joined
    · exact .inr (readded.step next)

end Removal

/-- Somebody is made a member of a finished workspace, and removed. -/
def localRemoval : List (Op × Nat) :=
  [(.createWorkspace (browser 1) ⟨"w", "eastus"⟩, 99), (.createMember (browser 1) localWorkspace ⟨"7", .reader⟩, 99)]

/-- Members are removed from workspaces whose creation is finished. -/
def finishedWorkspace (o : Op) (w : World) : Bool :=
  match o with
  | .deleteMember _ ws _ => (w.ledger.value (workspaceKey ws)).any fun v => v.extra.creatorMembershipInitialized == some true
  | _ => true

theorem finishedWorkspace_sound {o : Op} {w : World} (h : finishedWorkspace o w = true) : o.Timely w.ledger := by
  cases o with
  | deleteMember headers ws id =>
    rintro ⟨r, x, held, -, uninitialised, -⟩
    rw [finishedWorkspace, held, Option.any_some, beq_iff_eq] at h
    exact uninitialised h
  | _ => trivial

def localRemoved : Finished localApp finishedWorkspace where
  tape := localTape
  script := localRemoval
  op := .deleteMember (browser 1) localWorkspace "7"
  requests := 8
  check := succeeded
  holds := (congrArg succeeded (Tape.finish_eq ..)).trans (by decide +kernel)

theorem removed_members_stay_removed_local : ∃ p₀ p₁, Reaches (timely localApp) (Pool.fresh World.empty) p₀ ∧
    Step (timely localApp) p₀ p₁ ∧ p₁.Returned 2 (.deleteMember (browser 1) localWorkspace "7") (.ok .done) ∧
      (¬ p₁.world.ledger.Joined localWorkspace "7" ∨
        Readded localApp (fun o w => o.Timely w.ledger) localWorkspace "7" p₁ p₁) := by
  have ends := localRemoved.holds
  dsimp only [localRemoved] at ends
  obtain ⟨v, finished⟩ := succeeded_cases ends
  obtain ⟨p₀, p₁, run, step, before, removed, -⟩ := reaches_finish rfl (fun _ _ => finishedWorkspace_sound) finished
  exact ⟨p₀, p₁, run, step, removed, removed_members_stay_removed World.empty_initial run step before removed .refl⟩

/-- The creation stops after the creator's row. The creator makes the second user an administrator,
who removes the creator. -/
def localRestoration : List (Op × Nat) :=
  [(.createWorkspace (browser 1) ⟨"w", "eastus"⟩, 5), (.createMember (browser 1) localWorkspace ⟨"2", .admin⟩, 99)]

/-- The removal succeeds, and the next pass puts the creator's row in again. -/
def restored : Option (Except BrokerError Outcome × Tape) → Bool
  | some (.ok .done, v) =>
    match (Op.program localApp .reconcileOnce).advance Tape.answer 99 v with
    | some (_, v') => (v'.world.store.lookup ⟨.members, localWorkspace, "1"⟩).isSome
    | none => false
  | _ => false

def restoredFast : Option (Except BrokerError Outcome × Tape) → Bool
  | some (.ok .done, v) =>
    match (Op.program localApp .reconcileOnce).advance Tape.fast 99 v with
    | some (_, v') => (v'.world.store.lookup ⟨.members, localWorkspace, "1"⟩).isSome
    | none => false
  | _ => false

theorem restored_eq (out : Option (Except BrokerError Outcome × Tape)) : restored out = restoredFast out := by
  unfold restored restoredFast
  rw [Tape.answer_eq]

def localRestored : Finished localApp fun _ _ => true where
  tape := localTape
  script := localRestoration
  op := .deleteMember (browser 2) localWorkspace "1"
  requests := 8
  check := restored
  holds := ((congrArg restored (Tape.finish_eq ..)).trans (restored_eq _)).trans (by decide +kernel)

theorem restored_cases {out : Option (Except BrokerError Outcome × Tape)} (h : restored out = true) :
    ∃ v rest v', out = some (.ok .done, v) ∧
      (Op.program localApp .reconcileOnce).advance Tape.answer 99 v = some (rest, v') ∧
      v'.world.ledger.Joined localWorkspace "1" := by
  unfold restored at h
  split at h
  · next v =>
    split at h
    · next rest v' ran => exact ⟨v, rest, v', rfl, ran, World.joined_iff.mpr (Option.isSome_iff_ne_none.mp h)⟩
    · cases h
  · cases h

/-- From a moment in which nothing runs, only a `create_member` that starts later adds the user. -/
theorem Readded.started {admits : Op → World → Prop} {p p' : Pool} (idle : p.Idle)
    (readded : Readded app admits ws user p p') :
    ∃ t th headers request, p.threads t = none ∧ p'.threads t = some th ∧ th.op = .createMember headers ws request := by
  obtain ⟨q, t, headers, request, data, next, first, second, held⟩ := readded
  obtain ⟨th, held', op, -⟩ := second.thread held
  refine ⟨t, th, headers, request, ?_, held', op⟩
  by_contra present
  obtain ⟨th₀, old⟩ := Option.ne_none_iff_exists'.mp present
  obtain ⟨th₁, here, -, stopped⟩ := first.thread old
  have unchanged : th₁ = th₀ := stopped (idle t th₀ old)
  have waiting : th₁ = ⟨.createMember headers ws request, .call (.insert .members ws user data) next, false⟩ :=
    Option.some.inj (here.symm.trans held)
  have running : th₀.Running := by
    rw [← unchanged, waiting]
    exact ⟨rfl, by simp⟩
  exact idle t th₀ old running

theorem interrupted_creation_restores_creator : ¬ ∀ (app : App) (w₀ : World) (p₀ p₁ p₂ : Pool) (t : Nat)
    (headers : Headers) (ws user : String), w₀.Initial → Reaches (serial app fun _ _ => True) (Pool.fresh w₀) p₀ →
      Step (serial app fun _ _ => True) p₀ p₁ → ¬ p₀.Returned t (.deleteMember headers ws user) (.ok .done) →
        p₁.Returned t (.deleteMember headers ws user) (.ok .done) → Reaches (serial app fun _ _ => True) p₁ p₂ →
          ¬ p₂.world.ledger.Joined ws user ∨ Readded app (fun _ _ => True) ws user p₁ p₂ := by
  intro claim
  have restores := localRestored.holds
  dsimp only [localRestored] at restores
  obtain ⟨v, rest, v', finished, ran, joined⟩ := restored_cases restores
  obtain ⟨p₀, p₁, run, step, before, removed, same, idle, unused⟩ :=
    reaches_finish rfl (fun _ _ _ => trivial) finished
  have admitted : (serial localApp fun _ _ => True).admits .reconcileOnce v.world := trivial
  have later := reaches_start (s := serial localApp fun _ _ => True) (fun _ _ _ _ _ => Tape.answer_sound) admitted ran
    idle (unused 3 (by simp [localRestoration])) same
  rcases claim _ _ _ _ _ _ _ _ _ World.empty_initial run step before removed later with out | readded
  · exact out joined
  · -- only the pass has started since
    obtain ⟨t, th, headers, request, unstarted, held, op⟩ := readded.started idle
    dsimp only at held
    by_cases own : t = 3
    · subst own
      rw [Function.update_self, Option.some.injEq] at held
      rw [← held] at op
      cases op
    · rw [Function.update_of_ne own, unstarted] at held
      cases held

end Azbridge.Broker
