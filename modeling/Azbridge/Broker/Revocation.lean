import Azbridge.Broker.Replicas
import Azbridge.Broker.Scripts

/-!
# Revocation

Handlers of gateways read a row, change some of its fields and write it back. None of them makes a revoked
row live again, however they interleave, since each writes under the ETag of its own read.
-/

namespace Azbridge.Broker
open Ledger Interleaving Gateways Program

def Op.ofGateways : Op → Bool
  | .revokeGateway .. | .gatewayConfig .. | .relayToken .. | .status .. | .gatewayLogout .. => true
  | _ => false

def Op.Authenticates (ws id : String) : Op → Prop
  | .gatewayConfig headers | .relayToken headers _ | .status headers _ | .gatewayLogout headers =>
    ∃ credential, parseCredential headers = some credential ∧ credential.workspace = ws ∧ credential.gateway = id
  | _ => False

def Ledger.Revoked (c : Ledger) (ws id : String) : Prop := ∃ g, c.Gateway ws id g ∧ g.gateway.revoked = true

theorem revoked_iff {w : World} {ws id : String} :
    w.ledger.Revoked ws id ↔ ∃ e g, w.store.lookup ⟨.gateways, ws, id⟩ = some e ∧ e.data = .gateway g ∧ g.gateway.revoked = true := by
  have rows : w.ledger.rows ⟨.gateways, ws, id⟩ = w.store.lookup ⟨.gateways, ws, id⟩ := by simp [World.ledger]
  unfold Ledger.Revoked Ledger.Gateway Ledger.value
  rw [rows]
  constructor
  · rintro ⟨g, held, revoked⟩
    obtain ⟨e, found, data⟩ := Option.map_eq_some_iff.mp held
    exact ⟨e, g, found, data, revoked⟩
  · rintro ⟨e, g, found, data, revoked⟩
    exact ⟨g, by rw [found, ← data]; rfl, revoked⟩

/-! ### What every request keeps -/

structure KeepsRevoked (w w' : World) : Prop where
  evolves : Evolves w w'
  revoked : ∀ ws id, w.ledger.Revoked ws id → w'.ledger.Revoked ws id

namespace KeepsRevoked
variable {tick : Nat → Nat → Prop} {w w' w'' : World}

theorem refl (w : World) : KeepsRevoked w w := ⟨.refl w, fun _ _ revoked => revoked⟩

theorem trans (first : KeepsRevoked w w') (second : KeepsRevoked w' w'') : KeepsRevoked w w'' :=
  ⟨first.evolves.trans second.evolves, fun ws id revoked => second.revoked ws id (first.revoked ws id revoked)⟩

theorem of_spares {r : Request} {reply : Except BrokerError (Reply r)} (answered : Responds tick w r reply w')
    (spares : r.Spares .gateways) : KeepsRevoked w w' := by
  refine ⟨Evolves.of_responds answered, ?_⟩
  intro ws id revoked
  have other : r.row? ≠ some ⟨.gateways, ws, id⟩ := fun named => spares _ named rfl
  rw [revoked_iff] at revoked ⊢
  rwa [responds_other answered other]

end KeepsRevoked

/-- The entity was read as the row of this gateway. -/
structure Seen (e : Entity Value) (g : GatewayRecord) (w : World) : Prop where
  data : e.data = .gateway g
  read : ∃ w₀, Evolves w₀ w ∧ w₀.store.lookup ⟨.gateways, e.partitionKey, e.rowKey⟩ = some e

theorem Seen.later {e : Entity Value} {g : GatewayRecord} {w w' : World} (seen : Seen e g w) (evolves : Evolves w w') : Seen e g w' := by
  obtain ⟨w₀, since, held⟩ := seen.read
  exact ⟨seen.data, w₀, since.trans evolves, held⟩

/-- What is written back under the ETag of the read keeps a revocation if it keeps that of the record. -/
theorem Seen.replace {tick : Nat → Nat → Prop} {e : Entity Value} {g g' : GatewayRecord} {w w' : World}
    {reply : Except BrokerError (Entity Value)} (seen : Seen e g w) (keeps : g.gateway.revoked = true → g'.gateway.revoked = true)
    (answered : Responds tick w (.replace .gateways e.partitionKey e.rowKey (encode g') e.etag) reply w') : KeepsRevoked w w' := by
  have evolves := Evolves.of_responds answered
  refine ⟨evolves, ?_⟩
  intro ws id revoked
  rcases responds_replace answered with ⟨failed, -, rfl⟩ | ⟨written, s, old, found, tag, data, stored, -, rfl⟩
  · exact revoked
  · rw [revoked_iff] at revoked ⊢
    by_cases same : (⟨.gateways, ws, id⟩ : Key) = ⟨.gateways, e.partitionKey, e.rowKey⟩
    · obtain ⟨w₀, since, held⟩ := seen.read
      have untouched : old = e := since.unchanged held found tag
      rw [same] at revoked
      obtain ⟨e', before, there, content, live⟩ := revoked
      rw [found, Option.some.injEq] at there
      rw [← there, untouched, seen.data] at content
      obtain rfl : g = before := Value.gateway.inj content
      exact ⟨written, g', by rw [same]; exact stored.written, data, keeps live⟩
    · rwa [stored.others _ same]

/-! ### The handlers -/

section Handlers
variable {I : World → Prop} {α β : Type} {app : App} {headers : Headers} {e : Entity Value} {g g' : GatewayRecord} {w : World}
  {ws id : String}

/-- Whatever is known of the world, nobody takes a revocation back. -/
def keeping (I : World → Prop) : Contract Request Reply BrokerError World where
  answers := Responds anyTime
  invariant := I
  rely := KeepsRevoked
  guarantee w _ w' := KeepsRevoked w w'

/-- The program takes no revocation back; what it returns satisfies `Q`. -/
abbrev Keeping (I : World → Prop) (Q : α → World → Prop) (p : Handler α) (w : World) : Prop :=
  Meets (keeping I) Q (fun _ _ => True) p w

theorem spares_keeping {J : World → Prop} {p : Handler α} (spares : p.Uses (Request.Spares .gateways))
    (stable : ∀ w w', Evolves w w' → J w → J w') (start : J w) : Keeping I (fun _ => J) p w := by
  have meets : Meets (keeping I) (fun _ => J) (fun _ => J) p w := by
    apply spares.meets
    · intro w w' holds others
      exact stable w w' others.evolves holds
    · intro w r reply w' holds _ allowed answered
      have kept := KeepsRevoked.of_spares answered allowed
      exact ⟨kept, stable w w' kept.evolves holds⟩
    · exact start
  exact meets.mono (fun _ _ holds => holds) fun _ _ _ => trivial

theorem Seen.during {p : Handler α} (seen : Seen e g w) (spares : p.Uses (Request.Spares .gateways)) :
    Keeping I (fun _ => Seen e g) p w := spares_keeping spares (fun _ _ evolves seen => seen.later evolves) seen

theorem saveGateway_keeping (seen : Seen e g w) (keeps : g.gateway.revoked = true → g'.gateway.revoked = true) :
    Keeping I (fun _ _ => True) (saveGateway e g') w := by
  unfold saveGateway
  have written : Keeping I (fun _ _ => True) (replace .gateways e.partitionKey e.rowKey (encode g') e.etag) w := by
    intro w₁ others _ reply w₂ answered
    have kept := (seen.later others.evolves).replace keeps answered
    refine ⟨kept, ?_⟩
    cases reply <;> trivial
  exact written.bind fun _ _ _ => trivial

theorem audit_keeping {actor action target : String} : Keeping I (fun _ _ => True) (recordAudit ws actor action target) w :=
  spares_keeping (recordAudit_spares (by decide)) (fun _ _ _ _ => trivial) trivial

theorem get_keeping {row : String} :
    Keeping I (fun found w => ∀ e g, found = some e → e.data = .gateway g → Seen e g w) (get .gateways ws row) w := by
  intro w₁ others _ reply w₂ answered
  have kept : KeepsRevoked w₁ w₂ := .of_spares answered fun k named => by cases named
  refine ⟨kept, ?_⟩
  obtain ⟨rfl, found⟩ := responds_get answered
  cases reply with
  | error error => trivial
  | ok result =>
    intro e g same data
    have held := (found result rfl).symm.trans same
    obtain ⟨partition, own⟩ := w₂.store.keyed _ e held
    exact ⟨data, w₂, .refl w₂, by rw [partition, own]; exact held⟩

theorem decode_gateway {value : Value} (h : (Record.decode value : Option GatewayRecord) = some g) : value = .gateway g := by
  cases value with
  | gateway r =>
    obtain rfl := Option.some.inj h
    rfl
  | _ => cases h

theorem okOr_keeping {Q : α → World → Prop} {value : Option α} {error : BrokerError} (holds : ∀ a, value = some a → Q a w) :
    Keeping I Q (okOr value error) w := by
  cases value with
  | none => trivial
  | some a => exact holds a rfl

theorem require_keeping {J : World → Prop} {condition : Bool} {error : BrokerError} (holds : condition = true → J w) :
    Keeping I (fun _ => J) (require condition error) w := by
  cases condition with
  | false => trivial
  | true => exact holds rfl

theorem bearer_keeping : Keeping I (fun found w => Seen found.1 found.2 w) (bearer app headers) w := by
  apply (okOr_keeping (Q := fun _ _ => True) fun _ _ => trivial).bind
  intro credential w _
  apply get_keeping.bind
  intro found w read
  apply (okOr_keeping (Q := fun e w => ∀ g, e.data = .gateway g → Seen e g w) fun e same g => read e g same).bind
  intro e w read
  apply (okOr_keeping (Q := fun g w => Seen e g w) fun g same => read g (decode_gateway same)).bind
  intro g w seen
  apply (require_keeping fun _ => seen).bind
  intro _ w seen
  apply (seen.during (Reading.spares Reading.readyWorkspace)).bind
  intro _ w seen
  exact seen

theorem bearer_refused {credential : Credential} (parsed : parseCredential headers = some credential) :
    Keeping (fun w => w.ledger.Revoked credential.workspace credential.gateway) (fun _ _ => False) (bearer app headers) w := by
  unfold bearer
  rw [parsed]
  intro w₁ _ revoked reply w₂ answered
  have kept : KeepsRevoked w₁ w₂ := .of_spares answered fun k named => by cases named
  refine ⟨kept, ?_⟩
  obtain ⟨rfl, found⟩ := responds_get answered
  cases reply with
  | error error => trivial
  | ok result =>
    obtain ⟨e, g, held, data, revoked⟩ := revoked_iff.mp revoked
    rw [found result rfl, held]
    show Meets _ _ _ ((okOr (Record.decode e.data) BrokerError.internal : Handler GatewayRecord) >>= _) w₂
    rw [data]
    show Meets _ _ _ (require _ _ >>= _) w₂
    rw [revoked, Bool.not_true, Bool.and_false, Bool.false_and]
    trivial

theorem revokeGateway_keeping : Keeping I (fun _ _ => True) (revokeGateway app ws id headers) w := by
  apply (spares_keeping (J := fun _ => True) (Reading.spares Reading.authorize) (fun _ _ _ _ => trivial) trivial).bind
  intro session w _
  apply (spares_keeping (J := fun _ => True) (Reading.spares Reading.activeWorkspace) (fun _ _ _ _ => trivial) trivial).bind
  intro _ w _
  apply (require_keeping (J := fun _ => True) fun _ => trivial).bind
  intro _ w _
  apply get_keeping.bind
  intro found w read
  apply (okOr_keeping (Q := fun e w => ∀ g, e.data = .gateway g → Seen e g w) fun e same g => read e g same).bind
  intro e w read
  apply (okOr_keeping (Q := fun g w => Seen e g w) fun g same => read g (decode_gateway same)).bind
  intro g w seen
  apply Meets.bind (saveGateway_keeping seen ?_)
  · intro _ w _
    exact audit_keeping
  · exact fun _ => rfl

theorem gatewayConfig_keeping : Keeping I (fun _ _ => True) (gatewayConfig app headers) w := by
  apply bearer_keeping.bind
  rintro ⟨e, g⟩ w seen
  apply (seen.during (Reading.spares Reading.publishedConfig)).bind
  rintro ⟨revision, config⟩ w seen
  apply (seen.during (Reading.spares Reading.readyWorkspace)).bind
  intro workspace w seen
  apply (seen.during (Reading.spares Reading.now)).bind
  intro time w seen
  apply Meets.bind (saveGateway_keeping seen ?_)
  · intro _ w _
    trivial
  · exact fun revoked => revoked

theorem relayToken_keeping {payload : Option RelayTokenRequest} : Keeping I (fun _ _ => True) (relayToken app headers payload) w := by
  apply bearer_keeping.bind
  rintro ⟨e, g⟩ w seen
  apply (seen.during Reading.okOr).bind
  intro request w seen
  apply (seen.during (Reading.spares Reading.publishedConfig)).bind
  rintro ⟨_, config⟩ w seen
  apply (seen.during Reading.require).bind
  intro _ w seen
  apply (seen.during (Reading.spares Reading.readyWorkspace)).bind
  intro workspace w seen
  apply (seen.during (Program.uses_request fun k named => by cases named)).bind
  intro token w seen
  apply (seen.during (Reading.spares Reading.now)).bind
  intro time w seen
  apply Meets.bind (saveGateway_keeping seen ?_)
  · intro _ w _
    trivial
  · exact fun revoked => revoked

theorem status_keeping {payload : Option GatewayStatusRequest} : Keeping I (fun _ _ => True) (status app headers payload) w := by
  apply bearer_keeping.bind
  rintro ⟨e, g⟩ w seen
  apply (seen.during Reading.okOr).bind
  intro request w seen
  apply (seen.during Reading.require).bind
  intro _ w seen
  apply (seen.during Reading.require).bind
  intro _ w seen
  apply (seen.during (Reading.spares Reading.publishedConfig)).bind
  rintro ⟨revision, _⟩ w seen
  apply (seen.during Reading.require).bind
  intro _ w seen
  apply (seen.during (Reading.spares Reading.now)).bind
  intro time w seen
  apply saveGateway_keeping seen
  exact fun revoked => revoked

theorem logout_keeping : Keeping I (fun _ _ => True) (Gateways.logout app headers) w := by
  apply bearer_keeping.bind
  rintro ⟨e, g⟩ w seen
  apply (seen.during (Reading.spares Reading.now)).bind
  intro time w seen
  apply Meets.bind (saveGateway_keeping seen ?_)
  · intro _ w _
    exact audit_keeping
  · exact fun _ => rfl

theorem ignore_keeping {p : Handler α} (h : Keeping I (fun _ _ => True) p w) : Keeping I (fun _ _ => True) (Op.ignore p) w :=
  h.bind fun _ _ _ => trivial

theorem program_keeping {o : Op} (gateways : o.ofGateways = true) : Keeping I (fun _ _ => True) (o.program app) w := by
  cases o with
  | revokeGateway => exact ignore_keeping revokeGateway_keeping
  | gatewayConfig => exact gatewayConfig_keeping.bind fun _ _ _ => trivial
  | relayToken => exact ignore_keeping relayToken_keeping
  | status => exact ignore_keeping status_keeping
  | gatewayLogout => exact ignore_keeping logout_keeping
  | _ => cases gateways

/-- A request of a gateway is nothing without its credential. -/
theorem program_refused {o : Op} (presents : o.Authenticates ws id) :
    Keeping (fun w => w.ledger.Revoked ws id) (fun _ _ => False) (o.program app) w := by
  have fails : ∀ {γ : Type} {f : γ → Handler Outcome} {g : Entity Value × GatewayRecord → Handler γ} {headers : Headers},
      (∃ credential, parseCredential headers = some credential ∧ credential.workspace = ws ∧ credential.gateway = id) →
        Keeping (fun w => w.ledger.Revoked ws id) (fun _ _ => False) ((bearer app headers >>= g) >>= f) w := by
    rintro γ f g headers ⟨credential, parsed, rfl, rfl⟩
    have refused : Keeping (fun w => w.ledger.Revoked credential.workspace credential.gateway) (fun _ _ => False)
        (bearer app headers >>= g) w := (bearer_refused parsed).bind fun _ _ impossible => impossible.elim
    exact refused.bind fun _ _ impossible => impossible.elim
  cases o with
  | gatewayConfig headers => exact fails presents
  | relayToken headers payload => exact fails presents
  | status headers payload => exact fails presents
  | gatewayLogout headers => exact fails presents
  | _ => cases presents

end Handlers

/-! ### Runs -/

section Runs
variable {app : App} {ws id : String}

/-- An outline of these requests, from what is known of the world and what is said of results. -/
def revocation (app : App) (I : World → Prop) (kept : ∀ {w w'}, I w → KeepsRevoked w w' → I w')
    (Q : Nat → Op → Except BrokerError Outcome → Prop) : Outline (replicas app anyTime (Op.ofGateways ·)) where
  invariant := I
  rely _ _ := KeepsRevoked
  guarantee _ _ w _ w' := KeepsRevoked w w'
  post t o result _ := Q t o result
  rely_refl _ := .refl _
  rely_trans := .trans
  preserves := kept
  compatible _ _ _ keeps := keeps
  settled _ _ _ said := said

/-- Of those that start from now on, none with this credential succeeds. -/
def RefusedAfter (p : Pool) (ws id : String) (t : Nat) (o : Op) (result : Except BrokerError Outcome) : Prop :=
  p.threads t = none → o.Authenticates ws id → ∀ outcome, result ≠ .ok outcome

theorem revoked_holds {p : Pool} (first : (revocation app (fun _ => True) (fun _ _ => trivial) fun _ _ _ => True).Holds p)
    (revoked : p.world.ledger.Revoked ws id) :
    (revocation app (fun w => w.ledger.Revoked ws id) (fun held keeps => keeps.revoked ws id held) (RefusedAfter p ws id)).Holds p := by
  refine ⟨revoked, ?_, first.apart⟩
  intro t th held live
  have started : ∀ result, RefusedAfter p ws id t th.op result := by
    intro result unstarted
    rw [held] at unstarted
    cases unstarted
  have meets : Meets (keeping fun w => w.ledger.Revoked ws id) (fun _ _ => True) (fun _ _ => True) th.program p.world :=
    (first.meets t th held live).answers (fun _ _ _ _ answered => answered) (fun _ _ => trivial) (fun _ _ relied => relied)
      fun _ _ _ _ ensured => ensured
  exact meets.mono (fun _ _ _ => started _) fun _ _ _ => started _

/-- Whatever requests of gateways and revocations did, and however they go on: a revoked gateway stays revoked, and
no request that starts from then on succeeds with its credential. -/
theorem revocation_is_final {w₀ : World} {p p' : Pool} (run : Reaches (replicas app anyTime (Op.ofGateways ·)) (Pool.fresh w₀) p)
    (revoked : p.world.ledger.Revoked ws id) (later : Reaches (replicas app anyTime (Op.ofGateways ·)) p p') :
    (∀ g, p'.world.ledger.Gateway ws id g → g.gateway.revoked = true) ∧
      ∀ t o outcome, p.threads t = none → o.Authenticates ws id → ¬ p'.Returned t o (.ok outcome) := by
  have before : (revocation app (fun _ => True) (fun _ _ => trivial) fun _ _ _ => True).Holds p := by
    apply Outline.holds_reaches ?_ (Outline.holds_fresh trivial) run
    intro t o w _ admitted
    exact program_keeping admitted
  have after : (revocation app (fun w => w.ledger.Revoked ws id) (fun held keeps => keeps.revoked ws id held)
      (RefusedAfter p ws id)).Holds p' := by
    apply Outline.holds_reaches ?_ (revoked_holds before revoked) later
    intro t o w _ admitted
    by_cases presents : o.Authenticates ws id
    · exact (program_refused presents).mono (fun _ _ impossible => impossible.elim) fun _ _ _ _ _ _ => nofun
    · exact (program_keeping admitted).mono (fun _ _ _ _ other => absurd other presents) fun _ _ _ _ _ _ => nofun
  constructor
  · intro g held
    obtain ⟨g', held', live⟩ := after.invariant
    obtain rfl : g' = g := Value.gateway.inj (Option.some.inj (held'.symm.trans held))
    exact live
  · intro t o outcome unstarted presents returned
    exact after.returned returned unstarted presents outcome rfl

end Runs

def localSecret : String := "azgw." ++ localWorkspace ++ "." ++ localGateway ++ "." ++ String.ofList (List.replicate 43 'A')

/-- The gateway of the local broker in a workspace that is ready. -/
def enrolledStore : Except BrokerError (MemoryMetadata Value) := do
  let gateway : GatewayRecord := ⟨{ id := localGateway, name := "g", profileId := localProfile, revoked := false },
    localSecret, 1⟩
  let (_, first) ← MemoryMetadata.empty.insert .workspaces platformPartition localWorkspace (encode localRecord)
  let (_, second) ← first.insert .gateways localWorkspace localGateway (encode gateway)
  return second

def enrolledTape : Tape where
  world := { World.empty with store := enrolledStore.toOption.getD .empty }
  uuids := localTape.uuids

def revokedBy (script : List (Op × Nat)) : Bool :=
  match play (Op.program localApp) (fun o _ => o.ofGateways) Tape.answer script enrolledTape with
  | some v =>
    match v.world.ledger.value ⟨.gateways, localWorkspace, localGateway⟩ with
    | some (.gateway g) => g.gateway.revoked
    | _ => false
  | none => false

def revokedThen (program : Op → Handler Outcome) (script : List (Op × Nat)) : Bool :=
  match play program (fun o _ => o.ofGateways) Tape.fast script enrolledTape with
  | some v =>
    match v.world.ledger.value ⟨.gateways, localWorkspace, localGateway⟩ with
    | some (.gateway g) => g.gateway.revoked
    | _ => false
  | none => false

theorem revokedBy_then {o : Op} {n : Nat} {program : Handler Outcome} (same : Op.program localApp o = program) :
    revokedBy [(o, n)] = revokedThen (fun _ => program) [(o, n)] := by
  unfold revokedBy revokedThen
  rw [Tape.answer_eq]
  simp only [play, same]

theorem revokedBy_logout : revokedBy [(.gatewayLogout localDevice, 99)] = true := by
  have signsOut : Op.program localApp (.gatewayLogout localDevice) = Op.ignore (logout localApp localDevice) := rfl
  unfold logout at signsOut
  rw [bearer_local] at signsOut
  rw [revokedBy_then signsOut]
  decide +kernel

theorem revokedBy_cases {script : List (Op × Nat)} (h : revokedBy script = true) :
    ∃ v, play (Op.program localApp) (fun o _ => o.ofGateways) Tape.answer script enrolledTape = some v ∧
      v.world.ledger.Revoked localWorkspace localGateway := by
  unfold revokedBy at h
  split at h
  · next v played =>
    split at h
    · next g held => exact ⟨v, played, g, held, h⟩
    · cases h
  · cases h

/-- The gateway signs out, and is refused when it tries again. -/
theorem revocation_is_final_local : ∃ p p',
    Reaches (replicas localApp anyTime (Op.ofGateways ·)) (Pool.fresh enrolledTape.world) p ∧
      p.world.ledger.Revoked localWorkspace localGateway ∧ Reaches (replicas localApp anyTime (Op.ofGateways ·)) p p' ∧
      (∃ th, p'.threads 1 = some th ∧ th.op = .gatewayLogout localDevice) ∧
      ∀ outcome, ¬ p'.Returned 1 (.gatewayLogout localDevice) (.ok outcome) := by
  obtain ⟨v, played, revoked⟩ := revokedBy_cases revokedBy_logout
  have fresh : (Pool.fresh enrolledTape.world : Pool).Idle := fun t th held => nomatch held
  obtain ⟨p, run, same, idle, unused⟩ := reaches_play (s := replicas localApp anyTime (Op.ofGateways ·)) (k := 0)
    (fun _ _ _ _ _ => Tape.answer_sound) (fun _ _ admitted => admitted) played fresh (fun _ _ => rfl) rfl
  let o : Op := .gatewayLogout localDevice
  have admitted : o.ofGateways = true := rfl
  have again := Step.start (s := replicas localApp anyTime (Op.ofGateways ·)) (p := p) 1 o (unused 1 (Nat.le_refl _)) admitted
    fun _ _ _ _ => ⟨trivial, trivial⟩
  have held : p.world.ledger.Revoked localWorkspace localGateway := same ▸ revoked
  have final := revocation_is_final run held (.single again)
  have started : Function.update p.threads 1 (some ⟨o, o.program localApp, false⟩) 1 = some ⟨o, o.program localApp, false⟩ :=
    Function.update_self ..
  refine ⟨p, _, run, held, .single again, ⟨_, started, rfl⟩, ?_⟩
  intro outcome
  apply final.2 1 o outcome (unused 1 (Nat.le_refl _))
  exact ⟨_, parseCredential_local, rfl, rfl⟩

end Azbridge.Broker
