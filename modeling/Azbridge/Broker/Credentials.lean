import Mathlib.Data.Set.Function
import Azbridge.Broker.Publication

/-!
# Gateway credentials

A credential that was handed out is accepted for as long as its gateway's row is there and not
revoked and its workspace is Ready, and nothing but a minted credential is accepted. Only digests are
stored, so the latter needs that the digest tells the texts in question apart.
-/

namespace Azbridge.Broker
open Ledger Interleaving Gateways

variable {app : App} {w : World} {headers : Headers} {credential : Credential}

theorem isBase64_of_size {secret : String} {n : Nat} (h : base64UrlSize secret = some n) {c : Char}
    (member : c ∈ secret.toList) : (base64Value c).isSome = true := by
  unfold base64UrlSize at h
  dsimp only at h
  split at h
  · cases h
  · next well =>
    rw [not_or, not_not] at well
    exact List.all_eq_true.mp well.1 c member

/-- The header carries this credential. -/
def Presents (headers : Headers) (text : String) : Prop := headers.authorization = [some ("Bearer " ++ text)]

theorem dot_not_mem_hyphenated (u : Uuid) : '.' ∉ u.hyphenated.toList := by
  intro member
  rcases Uuid.mem_hyphenated member with digit | dash
  · revert digit
    decide
  · revert dash
    decide

/-- What `mint` composes is what `bearer` takes apart. -/
theorem parseCredential_issued {c : Ledger} (issued : Issued app c credential) (presented : Presents headers credential.text) :
    parseCredential headers = some credential := by
  obtain ⟨text, ws, id⟩ := credential
  obtain ⟨secret, size, composed⟩ := issued.minted
  obtain ⟨u, -, rfl⟩ := issued.workspace
  obtain ⟨u', -, rfl⟩ := issued.gateway
  have dotless : '.' ∉ secret.toList := by
    intro member
    have value := isBase64_of_size size member
    revert value
    decide
  have pieces := split_credentialText (dot_not_mem_hyphenated u) (dot_not_mem_hyphenated u') dotless
  have stripped : Text.stripPrefix "Bearer " ("Bearer " ++ text) = some text := by
    simp [Text.stripPrefix]
  dsimp only at composed
  subst composed
  unfold parseCredential
  rw [presented]
  dsimp only
  rw [stripped]
  dsimp only
  rw [pieces]
  simp [Uuid.isText_hyphenated, size]

theorem presents_of_parse (h : parseCredential headers = some credential) : Presents headers credential.text := by
  unfold parseCredential at h
  split at h
  · next value carried =>
    split at h
    · cases h
    · next text stripped =>
      split at h
      · split at h
        · cases h
          rw [Presents, carried, ← Text.stripPrefix_eq_some stripped]
        · cases h
      · cases h
  · cases h

variable {e : Entity Value} {g : GatewayRecord}

/-- The entity is the gateway's row, and nothing else could have let the request in. -/
theorem bearer_of_yields (sane : Sane w) (h : Yields w (bearer app headers) (e, g)) :
    ∃ credential, Bearer app headers w.ledger credential g ∧
      w.store.lookup ⟨.gateways, credential.workspace, credential.gateway⟩ = some e := by
  have safe : Safe (.endpoint app .none fun _ _ _ _ => False) ⟨w.ledger, w.Enrolled⟩ _ (bearer app headers) := bearer_safe
  have ends := (safe.meets w ⟨rfl, fun _ h => h⟩).exec (fun _ _ _ _ served => ⟨.served served, fun _ => id⟩) (fun _ => .refl _)
    (fun _ _ _ sane kept => sane.step kept.1) sane h
  obtain ⟨v, -, rfl, credential, bearer, partition, row⟩ := ends
  obtain ⟨e', same, -, found⟩ := yields_bearer sane bearer
  obtain ⟨rfl, -⟩ : e = e' ∧ True := by
    have equal := h.symm.trans same
    simpa using equal
  exact ⟨credential, bearer, by rwa [partition, row] at found⟩

theorem accepts_iff (sane : Sane w) (issued : Issued app w.ledger credential)
    (presented : Presents headers credential.text) :
    (∃ e g, Yields w (bearer app headers) (e, g)) ↔
      (∃ g, w.ledger.Gateway credential.workspace credential.gateway g ∧ g.gateway.revoked = false) ∧
        w.ledger.Ready credential.workspace := by
  have parsed := parseCredential_issued issued presented
  constructor
  · rintro ⟨e, g, accepted⟩
    obtain ⟨credential', bearer, -⟩ := bearer_of_yields sane accepted
    obtain rfl := Option.some.inj (bearer.parsed.symm.trans parsed)
    exact ⟨⟨g, bearer.held, bearer.live⟩, bearer.ready⟩
  · rintro ⟨⟨g, held, live⟩, ready⟩
    obtain ⟨e, accepted, -⟩ := yields_bearer sane ⟨parsed, held, live, (issued.hash g held).symm, ready⟩
    exact ⟨e, g, accepted⟩

def Outcome.handedOut : Outcome → Option Credential
  | .gatewayCreated response => some ⟨response.credential, response.workspaceId, response.gateway.id⟩
  | .enrollmentPolled poll => poll.credential
  | _ => none

/-- What an operation that mints gateways hands out. -/
def HandsOut (app : App) (_ : Nat) (o : Op) (result : Except BrokerError Outcome) (w : World) : Prop :=
  o.Mints → ∀ outcome credential, result = .ok outcome → outcome.handedOut = some credential →
    Issued app w.ledger credential

theorem ends_handsOut (t : Nat) (o : Op) (w : World) :
    (outline app .none fun _ _ => True).Ends (HandsOut app) t o (o.program app) w := by
  have starts : (outline app .none fun _ _ => True).Meets t o (o.program app) w :=
    outline_starts nofun nofun t o w trivial fun _ used => used.elim
  cases o with
  | createGateway headers ws payload =>
    have safe : Safe (.endpoint app (Discipline.none.during (.createGateway headers ws payload))
        ((Op.createGateway headers ws payload).tokens app)) ⟨w.ledger, w.Enrolled⟩
        (fun outcome v' => ∀ credential, outcome.handedOut = some credential → Issued app v'.ledger credential)
        ((Op.createGateway headers ws payload).program app) := by
      refine (createGateway_safe trivial fun _ used => False.elim used).bind fun response v' issued => Safe.pure ?_
      rintro credential ⟨⟩
      exact issued
    refine (locked_meets rfl safe).mono ?_ ?_
    · rintro _ w' ⟨v, within, issued⟩ - outcome credential ⟨⟩ handed
      exact within.ledger ▸ issued credential handed
    · intro e w' _ _ outcome credential impossible
      cases impossible
  | pollEnrollment id =>
    have safe : Safe (.endpoint app (Discipline.none.during (.pollEnrollment id)) ((Op.pollEnrollment id).tokens app))
        ⟨w.ledger, w.Enrolled⟩
        (fun outcome v' => ∀ credential, outcome.handedOut = some credential → Issued app v'.ledger credential)
        ((Op.pollEnrollment id).program app) :=
      (pollEnrollment_safe trivial fun _ used => False.elim used).bind fun poll v' granted => Safe.pure granted
    refine (locked_meets rfl safe).mono ?_ ?_
    · rintro _ w' ⟨v, within, issued⟩ - outcome credential ⟨⟩ handed
      exact within.ledger ▸ issued credential handed
    · intro e w' _ _ outcome credential impossible
      cases impossible
  | _ => exact starts.mono (fun _ _ _ => False.elim) fun _ _ _ => False.elim

theorem issued_kept {t : Nat} {o : Op} {r : Request} {w' : World} (issued : Issued app w.ledger credential)
    (kept : (outline app (since credential.gateway) fun _ _ => True).guarantee t o w r w') :
    Issued app w'.ledger credential := by
  rcases guaranteed_ledger kept with same | change
  · exact same ▸ issued
  · exact issued.step rfl change

/-- The broker from the moment on in which a credential is handed out. -/
def sinceIssue (app : App) (credential : Credential) : Outline (serial app fun _ _ => True) :=
  (outline app (since credential.gateway) _).strengthen (fun w => Issued app w.ledger credential) fun _ => issued_kept

theorem Op.Mints.locked {o : Op} (mints : o.Mints) : o.locked = true := by
  cases o with
  | createGateway => rfl
  | pollEnrollment => rfl
  | _ => exact mints.elim

section Runs
variable {w₀ : World} {p : Pool}

theorem issued_since {t : Nat} {o : Op} {outcome : Outcome} (start : w₀.Initial)
    (run : Reaches (serial app fun _ _ => True) (Pool.fresh w₀) p) (returned : p.Returned t o (.ok outcome)) (mints : o.Mints)
    (handed : outcome.handedOut = some credential) : Issued app p.world.ledger credential := by
  obtain ⟨p₀, p₁, first, step, pending, returned₁, later⟩ := Reaches.returning run returned
  have engaged := Outline.engaged_reaches (fun t o w _ _ => ends_handsOut t o w) (Outline.engaged_fresh start.invariant) first
  have issued := engaged.returned (fun t o w _ _ => ends_handsOut t o w) step pending returned₁ mints outcome credential rfl handed
  have base := serial_holds (d := .none) start nofun nofun (fun _ => id) (first.tail step)
  have unlocked := returned_unlocked engaged.apart mints.locked step pending returned₁
  have holds : (sinceIssue app credential).Holds p₁ := since_holds base issued unlocked
  exact (Outline.holds_reaches (since_starts fun _ issued => issued.gateway) holds later).invariant.2

/-- On the way, an operation that mints gateways puts in the row of this credential. -/
def Minted (app : App) (w₀ : World) (p : Pool) (credential : Credential) : Prop :=
  ∃ q t th g next secret, Reaches (serial app fun _ _ => True) (Pool.fresh w₀) q ∧
    Reaches (serial app fun _ _ => True) q p ∧ q.threads t = some th ∧ th.op.Mints ∧
    th.program = .call (.insert .gateways credential.workspace credential.gateway (.gateway g)) next ∧
    base64UrlSize secret = some 32 ∧ credential.text = credentialText credential.workspace credential.gateway secret ∧
    g.credentialHash = app.digest credential.text

theorem Minted.step {p' : Pool} (minted : Minted app w₀ p credential)
    (step : Interleaving.Step (serial app fun _ _ => True) p p') : Minted app w₀ p' credential := by
  obtain ⟨q, t, th, g, next, secret, before, after, rest⟩ := minted
  exact ⟨q, t, th, g, next, secret, before, after.tail step, rest⟩

/-- A row that is there after a step was there before with the same digest, or is put in. -/
theorem gateway_before {d : Discipline} {c c' : Ledger} {ws id : String} {g : GatewayRecord}
    (step : Ledger.Step (Write app d) c c') (held : c'.Gateway ws id g) :
    (∃ g', c.Gateway ws id g' ∧ g.credentialHash = g'.credentialHash) ∨ c.value ⟨.gateways, ws, id⟩ = none ∧ d.mints ∧
      ∃ secret, base64UrlSize secret = some 32 ∧ g.credentialHash = app.digest (credentialText ws id secret) := by
  cases step with
  | blob fresh => exact .inl ⟨g, held, rfl⟩
  | uuid fresh => exact .inl ⟨g, held, rfl⟩
  | @row k e h =>
    by_cases key : k = ⟨.gateways, ws, id⟩
    · subst key
      rw [Ledger.Gateway, set_value_self] at held
      rw [held] at h
      rcases h.credentialHash with before | ⟨absent, -, mints, -, minted⟩
      · exact .inl before
      · exact .inr ⟨absent, mints, minted⟩
    · exact .inl ⟨g, (set_value_other (Ne.symm key)).symm.trans held, rfl⟩

theorem rows_minted (start : w₀.Initial) (run : Reaches (serial app fun _ _ => True) (Pool.fresh w₀) p) {ws id : String}
    {g : GatewayRecord} (held : p.world.ledger.Gateway ws id g) :
    ∃ text, Minted app w₀ p ⟨text, ws, id⟩ ∧ g.credentialHash = app.digest text := by
  induction run generalizing g with
  | refl =>
    rw [Ledger.Gateway] at held
    cases (start.value (by rintro ⟨⟩)).symm.trans held
  | @tail q q' before step ih =>
    have kept : ∀ {g'}, q.world.ledger.Gateway ws id g' → g.credentialHash = g'.credentialHash →
        ∃ text, Minted app w₀ q' ⟨text, ws, id⟩ ∧ g.credentialHash = app.digest text := by
      intro g' held' same
      obtain ⟨text, minted, digest⟩ := ih held'
      exact ⟨text, minted.step step, same.trans digest⟩
    have holds := serial_holds (d := .none) start (by rintro ⟨⟩) (by rintro ⟨⟩) (fun _ used => used) before
    have onward : Reaches (serial app fun _ _ => True) q q' := .single step
    cases step with
    | start => exact kept held rfl
    | drop => exact kept held rfl
    | @answer t th r next reply w waits live waiting answered =>
      rcases guaranteed_ledger (holds.guarantees waits live waiting answered) with same | change
      · exact kept (same ▸ held) rfl
      · rcases gateway_before change held with ⟨g', held', same⟩ | ⟨none, mints, secret, size, digest⟩
        · exact kept held' same
        · obtain ⟨e, found, data, -⟩ := World.entity held
          have absent : q.world.store.lookup ⟨.gateways, ws, id⟩ = .none := by
            simpa [Ledger.value, World.ledger] using none
          obtain rfl := responds_inserted answered absent found
          rw [data] at waiting
          exact ⟨credentialText ws id secret,
            ⟨q, t, th, g, next, secret, before, onward, waits, mints, waiting, size, rfl, digest⟩, digest⟩

/-- The texts of which the digests are compared. -/
def involved (app : App) (w₀ : World) (p : Pool) (headers : Headers) : Set String :=
  {text | Presents headers text} ∪ {text | ∃ credential, Minted app w₀ p credential ∧ credential.text = text}

/-- A credential that was handed out is accepted while its gateway's row is there, not revoked and of a
Ready workspace, and leads to this row. Nothing is accepted but a minted credential. -/
theorem credentials_are_exact (start : w₀.Initial) (run : Reaches (serial app fun _ _ => True) (Pool.fresh w₀) p)
    (headers : Headers) (injective : Set.InjOn app.digest (involved app w₀ p headers)) :
    (∀ t o outcome credential, p.Returned t o (.ok outcome) → o.Mints → outcome.handedOut = some credential →
      Presents headers credential.text →
        ((∃ e g, Yields p.world (bearer app headers) (e, g)) ↔
          (∃ g, p.world.ledger.Gateway credential.workspace credential.gateway g ∧ g.gateway.revoked = false) ∧
            p.world.ledger.Ready credential.workspace) ∧
        ∀ e g, Yields p.world (bearer app headers) (e, g) →
          p.world.store.lookup ⟨.gateways, credential.workspace, credential.gateway⟩ = some e ∧ e.data = .gateway g) ∧
    (∀ e g, Yields p.world (bearer app headers) (e, g) →
      ∃ credential, Minted app w₀ p credential ∧ Presents headers credential.text ∧
        p.world.store.lookup ⟨.gateways, credential.workspace, credential.gateway⟩ = some e) := by
  have sane := (serial_holds (d := .none) start nofun nofun (fun _ used => used) run).invariant.sane
  constructor
  · intro t o outcome credential returned mints handed presented
    have issued := issued_since start run returned mints handed
    refine ⟨accepts_iff sane issued presented, fun e g accepted => ?_⟩
    obtain ⟨credential', bearer, found⟩ := bearer_of_yields sane accepted
    obtain rfl := Option.some.inj (bearer.parsed.symm.trans (parseCredential_issued issued presented))
    obtain ⟨e', found', data, -⟩ := World.entity bearer.held
    obtain rfl := Option.some.inj (found.symm.trans found')
    exact ⟨found, data⟩
  · intro e g accepted
    obtain ⟨credential, bearer, found⟩ := bearer_of_yields sane accepted
    obtain ⟨text, minted, digest⟩ := rows_minted start run bearer.held
    have presented := presents_of_parse bearer.parsed
    have same : credential.text = text :=
      injective (.inl presented) (.inr ⟨_, minted, rfl⟩) (bearer.hash.trans digest)
    subst same
    exact ⟨credential, minted, presented, found⟩

end Runs

def enrolled : Option (Except BrokerError Outcome × Tape) → Bool
  | some (.ok outcome, v) =>
    match outcome.handedOut with
    | some credential =>
      localDevice.authorization == [some ("Bearer " ++ credential.text)] &&
        (match v.world.ledger.value ⟨.gateways, credential.workspace, credential.gateway⟩ with
          | some (.gateway g) => !g.gateway.revoked
          | _ => false) &&
        match v.world.ledger.value (workspaceKey credential.workspace) with
        | some (.workspace r _) => r.workspace.state == .ready
        | _ => false
    | none => false
  | _ => false

theorem enrolled_cases {out : Option (Except BrokerError Outcome × Tape)} (h : enrolled out = true) :
    ∃ outcome v credential, out = some (.ok outcome, v) ∧ outcome.handedOut = some credential ∧
      Presents localDevice credential.text ∧
      (∃ g, v.world.ledger.Gateway credential.workspace credential.gateway g ∧ g.gateway.revoked = false) ∧
      v.world.ledger.Ready credential.workspace := by
  unfold enrolled at h
  split at h
  · next outcome v =>
    split at h
    · next credential handed =>
      simp only [Bool.and_eq_true, beq_iff_eq] at h
      obtain ⟨⟨presented, live⟩, ready⟩ := h
      refine ⟨outcome, v, credential, rfl, handed, presented, ?_, ?_⟩
      · split at live
        · next g held => exact ⟨g, held, by simpa using live⟩
        · cases live
      · split at ready
        · next r x held => exact ⟨r, x, held, beq_iff_eq.mp ready⟩
        · cases ready
    · cases h
  · cases h

def localEnrolled : Finished localApp fun _ _ => true where
  tape := localTape
  script := localScript.take 5
  op := .createGateway (browser 1) localWorkspace (some ⟨"g", localProfile⟩)
  requests := 13
  check := enrolled
  holds := (congrArg enrolled (Tape.finish_eq ..)).trans (by decide +kernel)

/-- The gateway of the local broker is let in with its credential. -/
theorem credentials_are_exact_local : ∃ p credential e g,
    Reaches (serial localApp fun _ _ => True) (Pool.fresh World.empty) p ∧
      Yields p.world (bearer localApp localDevice) (e, g) ∧ Minted localApp World.empty p credential ∧
      Presents localDevice credential.text := by
  have ends := localEnrolled.holds
  dsimp only [localEnrolled] at ends
  obtain ⟨outcome, v, credential, finished, handed, presented, live, ready⟩ := enrolled_cases ends
  obtain ⟨p₀, p, run, step, -, returned, same, -⟩ :=
    @reaches_finish _ (fun _ _ => True) _ _ _ _ _ _ _ rfl (fun _ _ _ => trivial) finished
  have exact_here := credentials_are_exact World.empty_initial (run.tail step) localDevice
    (show Set.InjOn localApp.digest _ from fun _ _ _ _ equal => equal)
  rw [← same] at live ready
  obtain ⟨e, g, accepted⟩ := (exact_here.1 _ _ outcome credential returned trivial handed presented).1.mpr ⟨live, ready⟩
  obtain ⟨credential', minted, presented', -⟩ := exact_here.2 e g accepted
  exact ⟨p, credential', e, g, run.tail step, accepted, minted, presented'⟩

end Azbridge.Broker
