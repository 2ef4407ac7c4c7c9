import Azbridge.Broker.Scripts

/-!
# Least privilege of relay tokens

In every reachable state, a thread that is about to have a relay token issued is a `relayToken`
request that is entitled to exactly this token.
-/

namespace Azbridge.Broker
open Ledger Interleaving

variable {app : App}

theorem Ledger.Valid.owner {c : Ledger} (valid : c.Valid) {ws ws' ns : String}
    (own : ∃ r x, c.Workspace ws r x ∧ r.workspace.state = .ready ∧ r.workspace.namespaceName = ns)
    {r' : WorkspaceRecord} {x' : Extra} (held : c.Workspace ws' r' x') (same : r'.workspace.namespaceName = ns) :
    ws' = ws := by
  obtain ⟨r, x, held', -, rfl⟩ := own
  exact valid.distinct ws' ws r' r x' x held held' same

theorem Request.Governed.unavailable {r : Request} (governed : r.Governed) (w : World) :
    Responds anyTime w r (.error .unavailable) w := by
  cases r with
  | ensureNamespace | deleteNamespace | ensureConnection | deleteConnection | issueToken => exact .external rfl
  | delete => exact .failed rfl
  | _ => exact governed.elim

/-- A waiting thread's next request keeps to what its operation may ask of the cloud. -/
theorem waiting_calls {d : Discipline} {admits : Op → World → Prop} {p : Pool} (holds : (outline app d admits).Holds p)
    {t : Nat} {th : Thread Op Request Reply BrokerError Outcome} {r : Request} {next : Except BrokerError (Reply r) → Handler Outcome}
    (held : p.threads t = some th) (live : th.dropped = false) (waiting : th.program = .call r next) (governed : r.Governed) :
    (Permits.endpoint app (d.during th.op) (th.op.tokens app)).calls p.world r := by
  have meets := holds.meets t th held live
  rw [waiting] at meets
  -- any answer will do to see what the thread guarantees when it asks
  obtain ⟨kept, -⟩ := meets p.world (fun _ => .refl _) holds.invariant (.error .unavailable) p.world (governed.unavailable p.world)
  change if th.op.locked = true then _ else _ at kept
  split at kept
  · exact kept.2 governed
  · exact absurd governed kept.2

theorem waiting_tokens {d : Discipline} {admits : Op → World → Prop} {p : Pool} (holds : (outline app d admits).Holds p)
    {t : Nat} {th : Thread Op Request Reply BrokerError Outcome} {ns relay : String} {right : RelayRight}
    {next : Except BrokerError RelayTokenResponse → Handler Outcome} (held : p.threads t = some th)
    (live : th.dropped = false) (waiting : th.program = .call (.issueToken ns relay right) next) :
    th.op.tokens app p.world.ledger ns relay right := waiting_calls holds held live waiting trivial

/-- Whatever ran before: a token is requested only for the relay and right that the configuration
published for the caller's unrevoked gateway names, in its own workspace's namespace. -/
theorem tokens_need_entitlement {w₀ : World} {p : Pool} (start : w₀.Initial)
    (run : Reaches (serial app fun _ _ => True) (Pool.fresh w₀) p) {t : Nat}
    {th : Thread Op Request Reply BrokerError Outcome} {ns relay : String} {right : RelayRight}
    {next : Except BrokerError RelayTokenResponse → Handler Outcome} (held : p.threads t = some th)
    (live : th.dropped = false) (waiting : th.program = .call (.issueToken ns relay right) next) :
    ∃ headers payload credential g, th.op = .relayToken headers payload ∧
      Gateways.parseCredential headers = some credential ∧
      p.world.ledger.Gateway credential.workspace credential.gateway g ∧ g.gateway.revoked = false ∧
      g.credentialHash = app.digest credential.text ∧
      (∃ r x, p.world.ledger.Workspace credential.workspace r x ∧ r.workspace.state = .ready ∧
        r.workspace.namespaceName = ns) ∧
      (∀ ws r x, p.world.ledger.Workspace ws r x → r.workspace.namespaceName = ns → ws = credential.workspace) ∧
      (∃ profile n config, p.world.ledger.Profile credential.workspace g.gateway.profileId profile ∧
        profile.profile.currentRevision = some n ∧
        p.world.ledger.Loadable credential.workspace app g.gateway.profileId n config ∧ Forwards config relay right) ∧
      p.world.ledger.ReadyName credential.workspace relay := by
  have holds := serial_holds (d := .none) start nofun nofun (fun _ => id) run
  have tokens := waiting_tokens holds held live waiting
  obtain ⟨op, program, dropped⟩ := th
  cases op with
  | relayToken headers payload =>
    obtain ⟨credential, g, bearer, own, forwarded, ready⟩ := tokens
    exact ⟨headers, payload, credential, g, rfl, bearer.parsed, bearer.held, bearer.live, bearer.hash.symm, own,
      fun ws r x => holds.invariant.sane.valid.owner own, forwarded, ready⟩
  | _ => exact tokens.elim

/-- The gateway of the local broker gets as far as asking for its token. -/
theorem tokens_need_entitlement_local : ∃ p t th next credential,
    Reaches (serial localApp fun _ _ => True) (Pool.fresh World.empty) p ∧ p.threads t = some th ∧
      th.program = .call (.issueToken localNamespace "r" .listen) next ∧
      Gateways.parseCredential localDevice = some credential ∧ p.world.ledger.ReadyName credential.workspace "r" := by
  obtain ⟨p, next, run, held, -⟩ := localScript_runs
  obtain ⟨headers, payload, credential, g, same, parsed, -, -, -, -, -, -, ready⟩ :=
    tokens_need_entitlement World.empty_initial run held rfl rfl
  cases same
  exact ⟨p, _, _, next, credential, run, held, rfl, parsed, ready⟩

end Azbridge.Broker
