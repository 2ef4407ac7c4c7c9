import Azbridge.Broker.Publication

/-!
# Reported revisions

What `status` answers to a gateway that reports the revision `gatewayConfig` served it. The report
is compared with the revision published now, so one that was rolled back meanwhile is refused.
-/

namespace Azbridge.Broker
open Ledger Interleaving Profiles Gateways

variable {app : App} {w : World} {ws id : String} {headers : Headers} {credential : Credential} {g : GatewayRecord}

/-- Stores that answer, and a clock that shows this time. -/
def prompt (time : Nat) (w : World) : (r : Request) → Option (Except BrokerError (Reply r) × World)
  | .now => some (.ok time, { w with clock := time })
  | r => serve w r

theorem prompt_of_serve {time : Nat} {w : World} {r : Request} {reply : Except BrokerError (Reply r) × World}
    (h : serve w r = some reply) : prompt time w r = some reply := by
  cases r with
  | now => cases h
  | _ => exact h

/-- What the stores alone answer is answered the same with the clock. -/
theorem Yields.prompt_bind {α β : Type} {p : Handler α} {f : α → Handler β} {a : α} {time : Nat} (h : Yields w p a) :
    (p >>= f).exec (prompt time) w = (f a).exec (prompt time) w := by
  have more : ∀ w r reply, serve w r = some reply → prompt time w r = some reply := fun _ _ _ => prompt_of_serve
  exact Program.exec_bind (Program.exec_mono more h)

theorem prompt_saveGateway {time : Nat} {e : Entity Value}
    (held : w.store.lookup ⟨.gateways, e.partitionKey, e.rowKey⟩ = some e) (room : w.store.version + 1 < Text.u64) :
    ∃ w', (saveGateway e g).exec (prompt time) w = some (.ok (), w') := by
  obtain ⟨e', s', replaced⟩ : ∃ e' s', w.store.replace _ _ _ (Value.gateway g) _ = .ok (e', s') :=
    MemoryMetadata.replace_of_lookup held room
  have answered : (replace .gateways e.partitionKey e.rowKey (encode g) e.etag).exec (prompt time) w =
      some (.ok e', { w with store := s' }) := by
    have served : prompt time w (.replace .gateways e.partitionKey e.rowKey (encode g) e.etag) =
        some (.ok e', { w with store := s' }) := by
      show some (effect w _ (w.store.replace _ _ _ (Value.gateway g) _)) = _
      rw [replaced]
      rfl
    simp only [replace, Program.request, Program.exec, served]
  exact ⟨_, Program.exec_bind answered⟩

/-- A report is accepted exactly if it is of a revision up to the published one. -/
theorem status_accepts_iff {p : ProfileRecord} {current time reported : Nat} {config : Config} {version hostname : String}
    (sane : Sane w) (bearer : Bearer app headers w.ledger credential g)
    (profile : w.ledger.Profile credential.workspace g.gateway.profileId p)
    (published : p.profile.currentRevision = some current)
    (loadable : w.ledger.Loadable credential.workspace app g.gateway.profileId current config)
    (names : ∀ name ∈ config.relayNames, w.ledger.ReadyName credential.workspace name)
    (named : validName version = pure ()) (located : validName hostname = pure ())
    (room : w.store.version + 1 < Text.u64) (positive : reported ≠ 0) :
    (∃ w', (status app headers (some ⟨reported, version, hostname⟩)).exec (prompt time) w = some (.ok (), w')) ↔
      reported ≤ current := by
  obtain ⟨e, authorized, partition, held⟩ := yields_bearer sane bearer
  have loaded : Yields w (publishedConfig app e.partitionKey g.gateway.profileId) (current, config) := by
    rw [partition]
    exact yields_publishedConfig sane ⟨bearer.ready, ⟨p, profile, published⟩, loadable, names⟩
  have valid : ∀ {name}, validName name = pure () → Yields w (validName name) () := by
    intro name same
    rw [same]
    exact Yields.pure
  unfold status
  rw [authorized.prompt_bind]
  dsimp only
  have payload : Yields w (okOr (some (⟨reported, version, hostname⟩ : GatewayStatusRequest)) .badRequest) _ :=
    Yields.okOr rfl
  rw [payload.prompt_bind, (valid named).prompt_bind, (valid located).prompt_bind, loaded.prompt_bind]
  dsimp only
  by_cases below : reported ≤ current
  · have passed : Yields w (require (!(reported == 0 || decide (current < reported))) .badRequest) () := by
      apply Yields.require
      simp only [Bool.not_eq_true', Bool.or_eq_false_iff, beq_eq_false_iff_ne, decide_eq_false_iff_not]
      exact ⟨positive, by omega⟩
    rw [passed.prompt_bind]
    have ticked : (now : Handler Nat).exec (prompt time) w = some (.ok time, { w with clock := time }) := rfl
    rw [Program.exec_bind ticked]
    obtain ⟨w', saved⟩ : ∃ w', (saveGateway e _).exec (prompt time) { w with clock := time } = some (.ok (), w') :=
      prompt_saveGateway held room
    exact ⟨fun _ => below, fun _ => ⟨w', saved⟩⟩
  · have refused : (!(reported == 0 || decide (current < reported))) = false := by
      simp only [Bool.not_eq_false', Bool.or_eq_true, decide_eq_true_eq]
      omega
    rw [refused]
    constructor
    · rintro ⟨w', impossible⟩
      cases impossible
    · exact fun h => absurd h below

/-- What is served to gateways is a revision. -/
def Numbered (o : Op) (result : Except BrokerError Outcome) : Prop :=
  ∀ headers response, o = .gatewayConfig headers → result = .ok (.configServed response) → response.revision ≠ 0

theorem numbered_starts {admits : Op → World → Prop} (t : Nat) (o : Op) (w : World) (admitted : admits o w) :
    ((outline app .none admits).concluding Numbered).Meets t o (o.program app) w := by
  cases o with
  | gatewayConfig headers =>
    have safe : Safe (.endpoint app (Discipline.none.during (.gatewayConfig headers)) ((Op.gatewayConfig headers).tokens app))
        ⟨w.ledger, w.Enrolled⟩ (fun a _ => ∀ response, a = .configServed response → response.revision ≠ 0)
        ((Op.gatewayConfig headers).program app) := by
      apply gatewayConfig_safe.bind
      intro response v positive
      apply Safe.pure
      rintro _ ⟨⟩
      exact positive
    refine Program.Meets.mono (c := (outline app .none admits).contract t _) (locked_meets rfl safe) ?_ ?_
    · rintro a w' ⟨v, -, numbered⟩ _ response - same
      exact numbered response (Except.ok.inj same)
    · intro e w' _ _ _ _ impossible
      cases impossible
  | _ =>
    have starts : (outline app .none admits).Meets t _ (Op.program app _) w :=
      outline_starts nofun nofun t _ w admitted fun _ used => used.elim
    refine starts.mono ?_ ?_
    · intro _ _ _ _ _ impossible
      cases impossible
    · intro _ _ _ _ _ impossible
      cases impossible

section Runs
variable {w₀ : World} {p : Pool} {t time : Nat} {headers' : Headers} {response : GatewayConfigResponse}
  {version hostname : String}

/-- While the gateway is not revoked and its workspace Ready, a report of the revision it was served
is accepted exactly if the revision published by then is not below it. -/
theorem served_revisions_are_accepted (start : w₀.Initial)
    (run : Reaches (serial app fun _ _ => True) (Pool.fresh w₀) p)
    (served : p.Returned t (.gatewayConfig headers) (.ok (.configServed response)))
    (bearer : Bearer app headers p.world.ledger credential g) (same : headers'.authorization = headers.authorization)
    (named : validName version = pure ()) (located : validName hostname = pure ())
    (room : p.world.store.version + 1 < Text.u64) :
    (∃ w', (status app headers' (some ⟨response.revision, version, hostname⟩)).exec (prompt time) p.world =
        some (.ok (), w')) ↔
      ∃ r n, p.world.ledger.Profile credential.workspace g.gateway.profileId r ∧ r.profile.currentRevision = some n ∧
        response.revision ≤ n := by
  have holds := serial_holds (d := .none) start nofun nofun (fun _ => id) run
  have inv := holds.invariant
  have positive : response.revision ≠ 0 := by
    have numbered := Outline.holds_reaches (d := (outline app .none fun _ _ => True).concluding Numbered)
      (fun t o w _ admitted => numbered_starts t o w admitted) (Outline.holds_fresh start.invariant) run
    exact numbered.returned served headers response rfl rfl
  have bearer' : Bearer app headers' p.world.ledger credential g := by
    have parsed : parseCredential headers' = parseCredential headers := by rw [parseCredential, same, parseCredential]
    exact ⟨parsed.trans bearer.parsed, bearer.held, bearer.live, bearer.hash, bearer.ready⟩
  obtain ⟨r, n, profile, current⟩ := inv.published.gateways _ _ g bearer.ready.active bearer.held bearer.live
  obtain ⟨config, loadable, names⟩ := inv.published.profiles _ _ r n bearer.ready.active profile current
  rw [status_accepts_iff inv.sane bearer' profile current loadable names named located room positive]
  constructor
  · exact fun below => ⟨r, n, profile, current, below⟩
  · rintro ⟨r', n', profile', current', below⟩
    cases profile.symm.trans profile'
    cases current.symm.trans current'
    exact below

end Runs

/-- What a script, an operation and another script leave. -/
def Tape.around (app : App) (v : Tape) (before : List (Op × Nat)) (o : Op) (n : Nat) (after : List (Op × Nat)) :
    Option (Handler Outcome × Tape) :=
  match play (Op.program app) (fun _ _ => true) Tape.answer before v with
  | some v₁ =>
    match (o.program app).advance Tape.answer n v₁ with
    | some (rest, v₂) => (play (Op.program app) (fun _ _ => true) Tape.answer after v₂).map fun v₃ => (rest, v₃)
    | none => none
  | none => none

def Tape.aroundThen (app : App) (v : Tape) (before : List (Op × Nat)) (program : Handler Outcome) (n : Nat)
    (after : List (Op × Nat)) : Option (Handler Outcome × Tape) :=
  match play (Op.program app) (fun _ _ => true) Tape.fast before v with
  | some v₁ =>
    match program.advance Tape.fast n v₁ with
    | some (rest, v₂) => (play (Op.program app) (fun _ _ => true) Tape.fast after v₂).map fun v₃ => (rest, v₃)
    | none => none
  | none => none

theorem Tape.around_then {v : Tape} {before after : List (Op × Nat)} {o : Op} {n : Nat} {program : Handler Outcome}
    (same : o.program app = program) : v.around app before o n after = v.aroundThen app before program n after := by
  unfold around aroundThen
  rw [answer_eq, same]

/-- The operation between the scripts has returned by then. -/
theorem reaches_around {v v₃ : Tape} {before after : List (Op × Nat)} {o : Op} {n : Nat}
    {result : Except BrokerError Outcome} (start : v.world = World.empty)
    (ran : v.around app before o n after = some (.done result, v₃)) :
    ∃ p, Reaches (serial app fun _ _ => True) (Pool.fresh World.empty) p ∧ p.Returned before.length o result ∧
      p.world = v₃.world := by
  unfold Tape.around at ran
  split at ran
  · next v₁ played =>
    split at ran
    · next rest v₂ advanced =>
      obtain ⟨v₃', played', same'⟩ := Option.map_eq_some_iff.mp ran
      obtain ⟨rfl, rfl⟩ := Prod.mk.inj same'
      have fresh : (Pool.fresh World.empty : Pool).Idle := fun t th held => nomatch held
      obtain ⟨p₁, run₁, same₁, idle₁, unused₁⟩ := reaches_play (s := serial app fun _ _ => True) (k := 0)
        (fun _ _ _ _ _ => Tape.answer_sound) (fun _ _ _ => trivial) played fresh (fun _ _ => rfl) start.symm
      have admitted : (serial app fun _ _ => True).admits o v₁.world := trivial
      have run₂ := reaches_start (s := serial app fun _ _ => True) (fun _ _ _ _ _ => Tape.answer_sound) admitted
        advanced idle₁ (unused₁ before.length (by simp)) same₁
      have idle₂ : (⟨v₂.world, Function.update p₁.threads before.length (some ⟨o, .done result, false⟩)⟩ : Pool).Idle :=
        idle₁.update fun running => running.2 result rfl
      have unused₂ : ∀ t, before.length + 1 ≤ t →
          Function.update p₁.threads before.length (some ⟨o, .done result, false⟩) t = none := by
        intro t after
        rw [Function.update_of_ne (by omega)]
        exact unused₁ t (by omega)
      obtain ⟨p₃, run₃, same₃, -⟩ := reaches_play (s := serial app fun _ _ => True) (k := before.length + 1)
        (fun _ _ _ _ _ => Tape.answer_sound) (fun _ _ _ => trivial) played' idle₂
        unused₂ rfl
      obtain ⟨th, held, -, stopped⟩ := run₃.thread (t := before.length) (Function.update_self ..)
      obtain rfl := stopped fun running => running.2 result rfl
      exact ⟨p₃, (run₁.trans run₂).trans run₃, held, same₃⟩
    · cases ran
  · cases ran

/-- A UUID that begins with another digit. -/
def odd (c : Char) (h : isHexLower c = true) : Uuid where
  digits := c :: List.replicate 31 '0'
  size := by simp
  hex := by
    simp [h]
    decide

def longTape : Tape :=
  { localTape with
    uuids := localTape.uuids ++ "1234".toList.filterMap fun c => if h : isHexLower c = true then some (odd c h) else none }

/-- A second revision is published. -/
def localSecond : List (Op × Nat) :=
  localScript ++ [(.createRevision (browser 1) localWorkspace localProfile localYaml, 99),
    (.publish (browser 1) localWorkspace localProfile ⟨2, some 1⟩, 99)]

/-- The first one is published again. -/
def localRollback : List (Op × Nat) := [(.publish (browser 1) localWorkspace localProfile ⟨1, some 2⟩, 99)]

def localGatewayRecord : GatewayRecord where
  gateway := { id := localGateway, name := "g", profileId := localProfile, revoked := false, lastSeenAt := some 0 }
  credentialHash := localCredential.text
  createdBy := 1

/-- The second revision was served, and the first is published again. -/
def rolledBack : Option (Handler Outcome × Tape) → Bool
  | some (.done (.ok (.configServed response)), v) =>
    response.revision == 2 && v.world.store.version + 1 < Text.u64 &&
      v.world.ledger.value (workspaceKey localWorkspace) == some (.workspace localRecord localExtra) &&
      v.world.ledger.value ⟨.profiles, localWorkspace, localProfile⟩ == some (.profile ⟨⟨localProfile, "p", some 1⟩, 3⟩) &&
      v.world.ledger.value ⟨.gateways, localWorkspace, localGateway⟩ == some (.gateway localGatewayRecord)
  | _ => false

theorem rolledBack_cases {out : Option (Handler Outcome × Tape)} (rolled : rolledBack out = true) :
    ∃ response v, out = some (.done (.ok (.configServed response)), v) ∧ response.revision = 2 ∧
      v.world.store.version + 1 < Text.u64 ∧ v.world.ledger.Workspace localWorkspace localRecord localExtra ∧
      v.world.ledger.Profile localWorkspace localProfile ⟨⟨localProfile, "p", some 1⟩, 3⟩ ∧
      v.world.ledger.Gateway localWorkspace localGateway localGatewayRecord := by
  unfold rolledBack at rolled
  split at rolled
  · next response v =>
    simp only [Bool.and_eq_true, beq_iff_eq, decide_eq_true_eq] at rolled
    obtain ⟨⟨⟨⟨second, room⟩, workspace⟩, profile⟩, gateway⟩ := rolled
    exact ⟨response, v, rfl, second, room, workspace, profile, gateway⟩
  · cases rolled

theorem localRollback_rolls :
    rolledBack (longTape.around localApp localSecond (.gatewayConfig localDevice) 99 localRollback) = true := by
  have configures : Op.program localApp (.gatewayConfig localDevice) =
      (do return .configServed (← gatewayConfig localApp localDevice)) := rfl
  unfold gatewayConfig at configures
  rw [bearer_local] at configures
  rw [Tape.around_then configures]
  decide +kernel

theorem localRollback_runs : ∃ p response, Reaches (serial localApp fun _ _ => True) (Pool.fresh World.empty) p ∧
    p.Returned localSecond.length (.gatewayConfig localDevice) (.ok (.configServed response)) ∧ response.revision = 2 ∧
    p.world.store.version + 1 < Text.u64 ∧
    Bearer localApp localDevice p.world.ledger localCredential localGatewayRecord ∧
    p.world.ledger.Profile localWorkspace localProfile ⟨⟨localProfile, "p", some 1⟩, 3⟩ := by
  obtain ⟨response, v, ran, second, room, workspace, profile, gateway⟩ := rolledBack_cases localRollback_rolls
  obtain ⟨p, run, served, same⟩ := reaches_around rfl ran
  rw [← same] at room workspace profile gateway
  exact ⟨p, response, run, served, second, room, ⟨parseCredential_local, gateway, rfl, rfl, ⟨_, _, workspace, rfl⟩⟩, profile⟩

/-- The report of the local gateway is refused, as the first revision is published. -/
theorem served_revisions_are_accepted_local : ∃ p response, Reaches (serial localApp fun _ _ => True) (Pool.fresh World.empty) p ∧
    p.Returned localSecond.length (.gatewayConfig localDevice) (.ok (.configServed response)) ∧
      ((∃ w', (status localApp localDevice (some ⟨response.revision, "1", "host"⟩)).exec (prompt 0) p.world = some (.ok (), w')) ↔
        ∃ r n, p.world.ledger.Profile localWorkspace localProfile r ∧ r.profile.currentRevision = some n ∧
          response.revision ≤ n) := by
  obtain ⟨p, response, run, served, -, room, bearer, -⟩ := localRollback_runs
  exact ⟨p, response, run, served,
    served_revisions_are_accepted World.empty_initial run served bearer rfl rfl rfl room⟩

/-- After a rollback the gateway that was served the later revision is refused. -/
theorem rollback_refuses_served_revision : ¬ ∀ (app : App) (w₀ : World) (p : Pool) (t time : Nat) (headers : Headers)
    (response : GatewayConfigResponse) (credential : Credential) (g : GatewayRecord) (version hostname : String),
      w₀.Initial → Reaches (serial app fun _ _ => True) (Pool.fresh w₀) p →
        p.Returned t (.gatewayConfig headers) (.ok (.configServed response)) →
          Bearer app headers p.world.ledger credential g → validName version = pure () → validName hostname = pure () →
            p.world.store.version + 1 < Text.u64 →
              ∃ w', (status app headers (some ⟨response.revision, version, hostname⟩)).exec (prompt time) p.world =
                some (.ok (), w') := by
  intro claim
  obtain ⟨p, response, run, served, second, room, bearer, profile⟩ := localRollback_runs
  have accepted := claim localApp World.empty p _ 0 _ response _ _ "1" "host" World.empty_initial run served bearer rfl rfl room
  have inv := (serial_holds (d := .none) World.empty_initial nofun nofun (fun _ => id) run).invariant
  obtain ⟨config, loadable, names⟩ := inv.published.profiles _ _ _ 1 bearer.ready.active profile rfl
  have positive : response.revision ≠ 0 := by omega
  have below := (status_accepts_iff inv.sane bearer profile rfl loadable names rfl rfl room positive).mp accepted
  omega

end Azbridge.Broker
