import Azbridge.Lib.History
import Azbridge.Broker.Replicas
import Azbridge.Broker.Scripts

/-!
# One-time grants

A pending enrollment, device login or OAuth login is a row. Whoever takes it away may make one gateway or seal
one session, and nobody else does: the row is deleted under the ETag of its reading before anything is made.
-/

namespace Azbridge.Broker
open Interleaving Program Auth Gateways

def Op.redeems : Op → Prop
  | .pollEnrollment _ | .callback .. | .devicePoll _ | .cleanup => True
  | _ => False

/-- The device login that the browser waits for. -/
def deviceChallenge (app : App) (headers : Headers) : Option DeviceChallenge :=
  match cookie headers deviceCookie with
  | .ok sealed => (app.openText sealed).bind asDevice
  | .error _ => none

def pendingKey (row : String) : Key := ⟨.enrollments, platformPartition, row⟩

/-- The row that the operation must take away. -/
def Op.pending (app : App) : Op → Option Key
  | .pollEnrollment id => some (pendingKey id)
  | .callback _ query => query.state.map fun state => pendingKey (oauthKey state)
  | .devicePoll headers => (deviceChallenge app headers).map fun challenge => pendingKey (deviceKey challenge.id)
  | _ => none

/-- It seals a session, which is all that is sealed here, or makes a gateway. -/
def Request.Grants : Request → Prop
  | .nonce | .insert .gateways _ _ _ => True
  | _ => False

def Outcome.granted : Except BrokerError Outcome → Prop
  | .ok (.enrollmentPolled (.authorized ..)) | .ok (.signedIn _) | .ok (.devicePolled ⟨.authorized, _⟩) => True
  | _ => False

/-- The same of what an operation returns as its outcome. -/
def Outcome.Tells {α : Type} (wrap : α → Outcome) (result : Except BrokerError α) : Prop := granted (result.map wrap)

theorem tells_error {α : Type} {wrap : α → Outcome} (e : BrokerError) : ¬ Outcome.Tells wrap (.error e) := fun told => told

/-- The row was there and was taken away. -/
def Request.Takes (k : Key) (r : Request) (reply : Except BrokerError (Reply r)) : Prop :=
  (∃ etag, r = .delete k.table k.partition k.row etag) ∧ ∃ a, reply = .ok a

def Op.Takes (app : App) (o : Op) (r : Request) (reply : Except BrokerError (Reply r)) : Prop :=
  ∃ k, o.pending app = some k ∧ r.Takes k reply

def Request.Keyed : (r : Request) → Except BrokerError (Reply r) → Prop
  | .get _ partition row, .ok (some e) | .replace _ partition row _ _, .ok e => e.partitionKey = partition ∧ e.rowKey = row
  | _, _ => True

section Answers
variable {tick : Nat → Nat → Prop} {w w' : World} {r : Request} {reply : Except BrokerError (Reply r)} {k : Key}

theorem responds_keyed (answered : Responds tick w r reply w') : r.Keyed reply := by
  cases r with
  | get t partition row =>
    obtain ⟨-, found⟩ := responds_get answered
    cases reply with
    | error e => trivial
    | ok entity =>
      cases entity with
      | none => trivial
      | some e => exact w.store.keyed _ e (found _ rfl).symm
  | replace t partition row data etag =>
    rcases responds_replace answered with ⟨e, rfl, -⟩ | ⟨e, s, old, -, -, -, stored, rfl | rfl, -⟩
    · trivial
    · exact ⟨stored.partitionKey, stored.rowKey⟩
    · trivial
  | _ => trivial

theorem responds_takes (answered : Responds tick w r reply w') (takes : r.Takes k reply) :
    w.store.lookup k ≠ none ∧ w'.store.lookup k = none := by
  obtain ⟨⟨etag, rfl⟩, a, rfl⟩ := takes
  rcases responds_delete answered with ⟨e, impossible, -⟩ | ⟨old, held, -, -, rfl⟩
  · cases impossible
  · have present : w.store.lookup k ≠ none := by simp [held]
    exact ⟨present, AList.lookup_erase _ _⟩

theorem responds_gone (answered : Responds tick w r reply w') (quiet : ∀ row data, r ≠ .insert .enrollments k.partition row data)
    (table : k.table = .enrollments) (gone : w.store.lookup k = none) : w'.store.lookup k = none := by
  by_contra present
  obtain ⟨e, held⟩ := Option.ne_none_iff_exists'.mp present
  have inserted := responds_inserted answered gone held
  rw [table] at inserted
  exact quiet _ _ inserted

end Answers

/-! ### What the operations put -/

/-- Nothing pending is put there. -/
def Request.Keeps (r : Request) : Prop := ∀ partition row data, r ≠ .insert .enrollments partition row data

/-- Neither a grant nor a claim. -/
def Op.Idles (app : App) (o : Op) (r : Request) : Prop := ¬ r.Grants ∧ ∀ reply, ¬ o.Takes app r reply

instance : Looking Request.Keeps where
  allows {r} looks := by
    rintro partition row data rfl
    cases looks

theorem Request.Looks.grantless {r : Request} (looks : r.Looks) : ¬ r.Grants := by
  cases r with
  | nonce | insert => cases looks
  | _ => exact id

instance : Looking fun r => ¬ r.Grants where
  allows := Request.Looks.grantless

theorem not_takes {app : App} {o : Op} {r : Request} (other : ∀ t p row etag, r ≠ .delete t p row etag)
    (reply : Except BrokerError (Reply r)) : ¬ o.Takes app r reply := by
  rintro ⟨k, -, ⟨etag, same⟩, -⟩
  exact other _ _ _ _ same

instance {app : App} {o : Op} : Looking (o.Idles app) where
  allows {r} looks := by
    refine ⟨looks.grantless, not_takes ?_⟩
    rintro t p row etag rfl
    cases looks

section Keeps
variable {app : App} {headers : Headers} {row etag : String} {data : Value} {ws : String}

theorem keeps_replace : (replace .enrollments platformPartition row data etag).Uses Request.Keeps :=
  uses_request fun _ _ _ => by simp

theorem keeps_delete {t : Table} {partition : String} : (delete t partition row etag).Uses Request.Keeps :=
  uses_request fun _ _ _ => by simp

theorem keeps_other {t : Table} {partition : String} (other : t ≠ .enrollments) :
    (Broker.insert t partition row data).Uses Request.Keeps :=
  uses_request fun _ _ _ => by simp [other]

theorem keeps_rateLimit {bucket : String} {capacity window : Nat} :
    (request (Request.rateLimit bucket capacity window) : Handler Unit).Uses Request.Keeps :=
  uses_request fun _ _ _ => by simp

theorem keeps_newUuid : newUuid.Uses Request.Keeps := uses_request fun _ _ _ => by simp

theorem keeps_setSession {user : GitHubUser} : (setSession app user).Uses Request.Keeps := by
  have nonce : (request Request.nonce : Handler String).Uses Request.Keeps := uses_request fun _ _ _ => by simp
  apply Reading.randomSecret.bind
  intro csrf
  apply Reading.now.bind
  intro time
  apply (nonce.bind fun _ => Reading.okOr).bind
  intro token
  exact .done

theorem keeps_recordAudit {actor action target : String} : (recordAudit ws actor action target).Uses Request.Keeps := by
  apply keeps_newUuid.bind
  intro id
  apply Reading.now.bind
  intro time
  apply (keeps_other (by simp)).bind
  intro _
  exact uses_pure _

theorem keeps_mint {request : CreateGatewayRequest} {actor : Nat} : (mint app ws request actor).Uses Request.Keeps := by
  apply Reading.require.bind
  intro _
  apply Reading.readyWorkspace.bind
  intro _
  apply Reading.publishedConfig.bind
  intro _
  apply keeps_newUuid.bind
  intro id
  apply Reading.randomSecret.bind
  intro secret
  apply (keeps_other (by simp)).bind
  intro _
  apply keeps_recordAudit.bind
  intro _
  exact uses_pure _

theorem keeps_enroll {record : EnrollmentRecord} {user : GitHubUser} : (enroll app record user).Uses Request.Keeps := by
  apply Reading.workspaceRole.attempt.bind
  intro role
  split
  · apply keeps_mint.bind
    intro created
    exact uses_pure _
  · exact uses_pure _
  · exact uses_throw _

theorem keeps_pollEnrollment {id : String} : (pollEnrollment app id).Uses Request.Keeps := by
  apply keeps_rateLimit.bind
  intro _
  apply Reading.ite (uses_pure _)
  apply Reading.get.bind
  intro found
  cases found with
  | none => exact uses_pure _
  | some entity =>
    apply Reading.decode.bind
    intro record
    apply Reading.now.bind
    intro time
    apply Reading.ite (keeps_delete.bind fun _ => uses_pure _)
    apply keeps_replace.bind
    intro reserved
    apply Reading.ite (uses_pure _)
    apply Reading.openAs.bind
    intro code
    apply Reading.enrollmentPoll.bind
    intro poll
    cases poll with
    | pending => exact uses_pure _
    | slowDown => exact keeps_replace.bind fun _ => uses_pure _
    | expired | denied => exact keeps_delete.bind fun _ => uses_pure _
    | authorized token =>
      apply Reading.enrollmentUser.bind
      intro user
      apply keeps_delete.bind
      intro _
      apply Reading.now.bind
      intro time
      exact Reading.ite (uses_pure _) keeps_enroll

theorem keeps_callback {query : CallbackQuery} : (callback app headers query).Uses Request.Keeps := by
  refine Reading.require.bind fun _ => Reading.okOr.bind fun _ => Reading.okOr.bind fun _ => ?_
  refine Uses.done.bind fun _ => Reading.openAs.bind fun _ => Reading.now.bind fun _ => ?_
  refine Reading.require.bind fun _ => Reading.get.bind fun _ => Reading.okOr.bind fun _ => ?_
  refine keeps_delete.bind fun _ => Reading.require.bind fun _ => Reading.exchangeCode.bind fun _ => ?_
  refine Reading.consumeToken.bind fun _ => Reading.mayEnter.bind fun _ => ?_
  refine Reading.require.bind fun _ => keeps_setSession.bind fun _ => ?_
  exact Uses.done.bind fun _ => uses_pure _

theorem keeps_devicePoll : (devicePoll app headers).Uses Request.Keeps := by
  refine Uses.done.bind fun _ => Uses.done.bind fun _ => Reading.openAs.bind fun _ => ?_
  refine Reading.okOr.bind fun _ => Reading.require.bind fun _ => Reading.require.bind fun _ => ?_
  refine keeps_rateLimit.bind fun _ => Reading.get.bind fun found => ?_
  cases found with
  | none => exact .done
  | some entity =>
    refine Reading.decode.bind fun _ => Reading.now.bind fun _ => ?_
    refine Reading.ite (keeps_delete.bind fun _ => .done) ?_
    refine keeps_replace.bind fun _ => Reading.ite .done ?_
    refine Reading.openAs.bind fun _ => Reading.pollDeviceFlow.bind fun poll => ?_
    cases poll with
    | pending => exact .done
    | slowDown => exact Reading.now.bind fun _ => keeps_replace.bind fun _ => .done
    | expired | denied => exact keeps_delete.bind fun _ => .done
    | authorized token =>
      refine Reading.consumeToken.bind fun _ => keeps_delete.bind fun _ => Reading.now.bind fun _ => ?_
      refine Reading.ite .done (Reading.mayEnter.bind fun _ => Reading.ite .done ?_)
      exact Uses.done.bind fun _ => keeps_setSession.bind fun _ => uses_pure _

theorem keeps_cleanup : cleanupExpiredEnrollments.Uses Request.Keeps := by
  refine Reading.now.bind fun _ => Reading.list.bind fun _ => Uses.forEach (fun _ => ?_) _
  refine Reading.okOr.bind fun _ => Reading.ite (keeps_delete.attempt.bind fun result => ?_) (uses_pure _)
  split
  · exact uses_pure _
  · exact uses_pure _
  · exact uses_pure _
  · exact uses_throw _

theorem keeps_program {o : Op} (redeems : o.redeems) : (o.program app).Uses Request.Keeps := by
  cases o with
  | pollEnrollment id => exact keeps_pollEnrollment.bind fun _ => uses_pure _
  | callback headers query => exact keeps_callback.bind fun _ => uses_pure _
  | devicePoll headers => exact keeps_devicePoll.bind fun _ => uses_pure _
  | cleanup => exact keeps_cleanup.bind fun _ => uses_pure _
  | _ => cases redeems

end Keeps

/-! ### One claim, then one grant -/

/-- One request at most grants. -/
abbrev OneGrant {α : Type} (p : Handler α) : Prop := Spends Request.Grants p

/-- Nothing is granted before the row is taken. -/
abbrev Claiming (app : App) (o : Op) {α : Type} (granted : Except BrokerError α → Prop) (p : Handler α) : Prop :=
  Redeems Request.Keyed (o.Takes app) Request.Grants granted p

section Grants
variable {app : App} {headers : Headers} {ws : String} {o : Op}

theorem oneGrant_setSession {user : GitHubUser} : OneGrant (setSession app user) := by
  apply Uses.bind_spends Reading.randomSecret
  intro csrf
  apply Uses.bind_spends Reading.now
  intro time
  apply Spends.bind
  · exact (spends_request Request.nonce).bind fun _ => Reading.okOr
  · exact fun token => .done

theorem grantless_recordAudit {actor action target : String} :
    (recordAudit ws actor action target).Uses fun r => ¬ r.Grants := by
  apply (uses_request (r := Request.newUuid) id).bind
  intro id
  apply Reading.now.bind
  intro time
  apply (uses_request (r := Request.insert .audit ws _ _) fun impossible => impossible).bind
  intro _
  exact uses_pure _

theorem oneGrant_mint {request : CreateGatewayRequest} {actor : Nat} : OneGrant (mint app ws request actor) := by
  apply Uses.bind_spends Reading.require
  intro _
  apply Uses.bind_spends Reading.readyWorkspace
  intro _
  apply Uses.bind_spends Reading.publishedConfig
  intro _
  apply Uses.bind_spends (uses_request (r := Request.newUuid) id)
  intro id
  apply Uses.bind_spends Reading.randomSecret
  intro secret
  apply (spends_request _).bind
  intro _
  apply grantless_recordAudit.bind
  intro _
  exact uses_pure _

theorem oneGrant_enroll {record : EnrollmentRecord} {user : GitHubUser} : OneGrant (enroll app record user) := by
  apply Uses.bind_spends Reading.workspaceRole.attempt
  intro role
  split
  · exact oneGrant_mint.bind fun created => uses_pure _
  · exact .quiet (uses_pure _)
  · exact .quiet (uses_throw _)

section Claiming
variable {α β : Type} {granted : Except BrokerError β → Prop} {row etag : String}

theorem idles_replace {t : Table} {partition : String} {data : Value} : (replace t partition row data etag).Uses (o.Idles app) :=
  uses_request ⟨id, not_takes (by simp)⟩

theorem idles_rateLimit {bucket : String} {capacity window : Nat} :
    (request (Request.rateLimit bucket capacity window) : Handler Unit).Uses (o.Idles app) :=
  uses_request ⟨id, not_takes (by simp)⟩

theorem claiming_bind {p : Handler α} {f : α → Handler β} (first : p.Uses (o.Idles app)) (failed : ∀ e, ¬ granted (.error e))
    (rest : ∀ a, Claiming app o granted (f a)) : Claiming app o granted (p >>= f) :=
  first.bind_redeems failed rest

theorem claiming_delete {f : Unit → Handler β} (own : o.pending app = some (pendingKey row)) (failed : ∀ e, ¬ granted (.error e))
    (rest : ∀ a, OneGrant (f a)) : Claiming app o granted (delete .enrollments platformPartition row etag >>= f) := by
  apply redeems_claim id
  · rintro e ⟨k, -, -, a, impossible⟩
    cases impossible
  · exact fun a => ⟨_, own, ⟨etag, rfl⟩, a, rfl⟩
  · exact failed
  · exact rest

theorem claiming_deleteEntity {f : Unit → Handler β} {entity : Entity Value} (own : o.pending app = some (pendingKey row))
    (keyed : entity.partitionKey = platformPartition ∧ entity.rowKey = row) (failed : ∀ e, ¬ granted (.error e))
    (rest : ∀ a, OneGrant (f a)) : Claiming app o granted (Workspaces.deleteEntity .enrollments entity >>= f) := by
  unfold Workspaces.deleteEntity
  rw [keyed.1, keyed.2]
  exact claiming_delete own failed rest

theorem claiming_require {f : Unit → Handler β} {condition : Bool} {e : BrokerError} (failed : ∀ e, ¬ granted (.error e))
    (rest : condition = true → Claiming app o granted (f ())) : Claiming app o granted (require condition e >>= f) := by
  cases condition with
  | true => exact rest rfl
  | false => exact .done (failed e)

theorem claiming_okOr {f : α → Handler β} {value : Option α} {e : BrokerError} (failed : ∀ e, ¬ granted (.error e))
    (rest : ∀ a, value = some a → Claiming app o granted (f a)) : Claiming app o granted (okOr value e >>= f) := by
  cases value with
  | some a => exact rest a rfl
  | none => exact .done (failed e)

end Claiming

theorem claiming_enrollmentAnswer {id : String} {record : EnrollmentRecord} {time : Nat} {reserved : Entity Value}
    (keyed : reserved.partitionKey = platformPartition ∧ reserved.rowKey = id) (poll : DevicePoll) :
    Claiming app (.pollEnrollment id) (Outcome.Tells .enrollmentPolled)
      (enrollmentAnswer app id record time reserved poll) := by
  cases poll with
  | pending => exact .done fun told => told
  | slowDown =>
    apply claiming_bind idles_replace tells_error
    intro _
    exact .done fun told => told
  | expired | denied => exact claiming_deleteEntity rfl keyed tells_error fun _ => .quiet (uses_pure _)
  | authorized token =>
    apply claiming_bind Reading.enrollmentUser tells_error
    intro user
    apply claiming_deleteEntity rfl keyed tells_error
    intro _
    apply Uses.bind_spends Reading.now
    intro time
    split
    · exact .quiet (uses_pure _)
    · exact oneGrant_enroll

theorem claiming_pollEnrollment {id : String} :
    Claiming app (.pollEnrollment id) (Outcome.Tells .enrollmentPolled) (pollEnrollment app id) := by
  apply claiming_bind idles_rateLimit tells_error
  intro _
  split
  · exact .done fun told => told
  · apply redeems_request ⟨fun grants => grants, not_takes (by simp)⟩ tells_error
    intro found keyed
    cases found with
    | none => exact .done fun told => told
    | some entity =>
      apply claiming_bind Reading.decode tells_error
      intro record
      apply claiming_bind Reading.now tells_error
      intro time
      split
      · exact claiming_deleteEntity rfl keyed tells_error fun _ => .quiet (uses_pure _)
      · apply redeems_request ⟨fun grants => grants, not_takes (by simp)⟩ tells_error
        intro reserved keyed
        split
        · exact .done fun told => told
        · apply claiming_bind Reading.openAs tells_error
          intro code
          apply claiming_bind Reading.enrollmentPoll tells_error
          intro poll
          exact claiming_enrollmentAnswer keyed poll

theorem claiming_callback {query : CallbackQuery} :
    Claiming app (.callback headers query) (Outcome.Tells .signedIn) (callback app headers query) := by
  apply claiming_bind Reading.require tells_error
  intro _
  apply claiming_bind Reading.okOr tells_error
  intro code
  apply claiming_okOr tells_error
  intro returnedState given
  apply claiming_bind .done tells_error
  intro sealed
  apply claiming_bind Reading.openAs tells_error
  intro challenge
  apply claiming_bind Reading.now tells_error
  intro time
  apply claiming_require tells_error
  intro accepted
  have same : returnedState = challenge.state := by
    simp only [constantTimeEqual, Bool.not_or, Bool.and_eq_true, Bool.not_not, beq_iff_eq] at accepted
    exact accepted.2
  subst same
  apply claiming_bind Reading.get tells_error
  intro found
  apply claiming_bind Reading.okOr tells_error
  intro record
  have own : (Op.callback headers query).pending app = some (pendingKey (oauthKey challenge.state)) := by
    simp [Op.pending, given]
  apply claiming_delete own tells_error
  intro _
  apply Uses.bind_spends Reading.require
  intro _
  apply Uses.bind_spends Reading.exchangeCode
  intro token
  apply Uses.bind_spends Reading.consumeToken
  intro user
  apply Uses.bind_spends Reading.mayEnter
  intro entered
  apply Uses.bind_spends Reading.require
  intro _
  apply oneGrant_setSession.bind
  intro session
  exact Uses.done.bind fun _ => uses_pure _

theorem oneGrant_deviceAuthorized {record : DeviceLoginRecord} {user : GitHubUser} : OneGrant (do
    if record.expiresAt ≤ (← now) then .done (reply app .expired)
    else if !(← mayEnter app user) then .done (reply app .denied)
    else do
      let response ← .done (reply app .authorized)
      return { response with setCookie := response.setCookie ++ [← setSession app user] }) := by
  apply Uses.bind_spends Reading.now
  intro time
  split
  · exact .quiet .done
  · apply Uses.bind_spends Reading.mayEnter
    intro entered
    split
    · exact .quiet .done
    · apply Uses.bind_spends .done
      intro response
      exact oneGrant_setSession.bind fun _ => uses_pure _

/-- An answer that grants nothing. -/
theorem reply_refused {result : DeviceLoginPoll} (refused : result ≠ .authorized) :
    ¬ Outcome.Tells .devicePolled (reply app result) := by
  cases result with
  | authorized => exact absurd rfl refused
  | pending | slowDown => exact fun told => told
  | expired | denied =>
    simp only [reply]
    cases cookieHeader app deviceCookie "" 0 devicePath <;> exact fun told => told

theorem claiming_deviceAnswer {id : String} {record : DeviceLoginRecord} {reserved : Entity Value}
    (own : o.pending app = some (pendingKey id)) (poll : DevicePoll) :
    Claiming app o (Outcome.Tells .devicePolled) (deviceAnswer app id record reserved poll) := by
  cases poll with
  | pending => exact .done (reply_refused nofun)
  | slowDown =>
    apply claiming_bind Reading.now tells_error
    intro time
    apply claiming_bind idles_replace tells_error
    intro _
    exact .done (reply_refused nofun)
  | expired | denied => exact claiming_delete own tells_error fun _ => .quiet .done
  | authorized token =>
    apply claiming_bind Reading.consumeToken tells_error
    intro user
    apply claiming_delete own tells_error
    intro _
    exact oneGrant_deviceAuthorized

theorem claiming_devicePoll :
    Claiming app (.devicePoll headers) (Outcome.Tells .devicePolled) (devicePoll app headers) := by
  apply claiming_bind .done tells_error
  intro _
  apply redeems_done tells_error
  intro sealed present
  apply claiming_okOr tells_error
  intro challenge opened
  have own : (Op.devicePoll headers).pending app = some (pendingKey (deviceKey challenge.id)) := by
    simp [Op.pending, deviceChallenge, present, opened]
  apply claiming_bind Reading.okOr tells_error
  intro csrf
  apply claiming_bind Reading.require tells_error
  intro _
  apply claiming_bind Reading.require tells_error
  intro _
  apply claiming_bind idles_rateLimit tells_error
  intro _
  apply claiming_bind Reading.get tells_error
  intro found
  cases found with
  | none => exact .done (reply_refused nofun)
  | some entity =>
    apply claiming_bind Reading.decode tells_error
    intro record
    apply claiming_bind Reading.now tells_error
    intro time
    split
    · exact claiming_delete own tells_error fun _ => .quiet .done
    · apply claiming_bind idles_replace tells_error
      intro reserved
      split
      · exact .done (reply_refused nofun)
      · apply claiming_bind Reading.openAs tells_error
        intro code
        apply claiming_bind Reading.pollDeviceFlow tells_error
        intro poll
        exact claiming_deviceAnswer own poll

theorem idles_cleanup : cleanupExpiredEnrollments.Uses (Op.cleanup.Idles app) := by
  have removes : ∀ row etag, (delete .enrollments platformPartition row etag).Uses (Op.cleanup.Idles app) := fun row etag =>
    uses_request ⟨fun grants => grants, fun reply ⟨_, own, _⟩ => nomatch own⟩
  refine Reading.now.bind fun _ => Reading.list.bind fun _ => Uses.forEach (fun _ => ?_) _
  refine Reading.okOr.bind fun _ => Reading.ite ((removes _ _).attempt.bind fun result => ?_) (uses_pure _)
  split
  · exact uses_pure _
  · exact uses_pure _
  · exact uses_pure _
  · exact uses_throw _

theorem claiming_program (redeems : o.redeems) : Claiming app o Outcome.granted (o.program app) := by
  cases o with
  | pollEnrollment id => exact Redeems.map claiming_pollEnrollment
  | callback headers query => exact Redeems.map claiming_callback
  | devicePoll headers => exact Redeems.map claiming_devicePoll
  | cleanup =>
    apply claiming_bind idles_cleanup fun _ told => told
    intro _
    exact .done fun told => told
  | _ => cases redeems

end Grants

/-! ### Runs -/

/-- The broker and everything it was answered. -/
abbrev Recorded := Interleaving.Pool Op Request Reply BrokerError Outcome (World × List (Event Request Reply BrokerError))

/-- The polls and callbacks of any number of brokers, on record. -/
abbrev redeeming (app : App) :
    System Op Request Reply BrokerError Outcome (World × List (Event Request Reply BrokerError)) :=
  (replicas app anyTime Op.redeems).recording

section Runs
variable {app : App} {w₀ : World} {p : Recorded}

/-- Thread `t` runs `o` and has sealed a session. -/
def SealedSession (p : Recorded) (t : Nat) (o : Op) : Prop :=
  (∃ th, p.threads t = some th ∧ th.op = o) ∧ ∃ e ∈ trace t p.world.2, e.1 = .nonce

theorem takes_once (run : Reaches (redeeming app) (Pool.fresh (w₀, [])) p) (row : String) :
    AtMostOnce (fun e => Request.Takes (pendingKey row) e.2.1 e.2.2) p.world.2 := by
  have taken := taken_once (s := replicas app anyTime Op.redeems) (fun e => Request.Takes (pendingKey row) e.2.1 e.2.2)
    (fun w => w.store.lookup (pendingKey row) = none) (fun o w redeems => keeps_program redeems)
    (fun t w r reply w' answered takes => responds_takes answered takes)
    (fun t w r reply w' answered keeps gone => responds_gone answered (keeps _) rfl gone) run
  exact taken.1

theorem thread_accounts (run : Reaches (redeeming app) (Pool.fresh (w₀, [])) p) :
    (∀ t, p.threads t = none → trace t p.world.2 = []) ∧ ∀ t th, p.threads t = some th →
      Account Request.Keyed (th.op.Takes app) Request.Grants Outcome.granted (trace t p.world.2) th.program := by
  have claims : ∀ o (w : World), (replicas app anyTime Op.redeems).admits o w →
      Claiming app o Outcome.granted ((replicas app anyTime Op.redeems).program o) := fun o w redeems => claiming_program redeems
  exact accounts claims (fun t w r reply w' answered => responds_keyed answered) run

theorem granted_claimed (run : Reaches (redeeming app) (Pool.fresh (w₀, [])) p) {t : Nat} {th}
    (held : p.threads t = some th)
    (granted : (∃ e ∈ trace t p.world.2, e.1.Grants) ∨ ∃ result, th.program = .done result ∧ Outcome.granted result) :
    ∃ e ∈ trace t p.world.2, th.op.Takes app e.1 e.2 := by
  have account := (thread_accounts run).2 t th held
  rcases granted with grants | ⟨result, finished, told⟩
  · exact account.claims grants
  · rw [finished] at account
    exact account.result told

theorem granted_alone (run : Reaches (redeeming app) (Pool.fresh (w₀, [])) p) {t t' : Nat} {th th'} {row : String}
    (held : p.threads t = some th) (held' : p.threads t' = some th')
    (own : th.op.pending app = some (pendingKey row)) (own' : th'.op.pending app = some (pendingKey row))
    (granted : (∃ e ∈ trace t p.world.2, e.1.Grants) ∨ ∃ result, th.program = .done result ∧ Outcome.granted result)
    (granted' : (∃ e ∈ trace t' p.world.2, e.1.Grants) ∨ ∃ result, th'.program = .done result ∧ Outcome.granted result) :
    t = t' := by
  obtain ⟨e, member, k, same, takes⟩ := granted_claimed run held granted
  obtain ⟨e', member', k', same', takes'⟩ := granted_claimed run held' granted'
  obtain rfl := Option.some.inj (own.symm.trans same)
  obtain rfl := Option.some.inj (own'.symm.trans same')
  have equal := (takes_once run row).unique (mem_trace.mp member) (mem_trace.mp member') takes takes'
  exact congrArg Prod.fst equal

/-- However polls and callbacks interleave, fail or stop: one credential for an enrollment, one session for a device
login, one for an OAuth state, and no operation grants twice. -/
theorem grants_are_single_use (run : Reaches (redeeming app) (Pool.fresh (w₀, [])) p) :
    (∀ t t' id c c' ws ws' g g' d d', p.Returned t (.pollEnrollment id) (.ok (.enrollmentPolled (.authorized c ws g d))) →
      p.Returned t' (.pollEnrollment id) (.ok (.enrollmentPolled (.authorized c' ws' g' d'))) → t = t') ∧
    (∀ t t' headers headers' challenge challenge', deviceChallenge app headers = some challenge →
      deviceChallenge app headers' = some challenge' → challenge.id = challenge'.id →
      SealedSession p t (.devicePoll headers) → SealedSession p t' (.devicePoll headers') → t = t') ∧
    (∀ t t' headers headers' query query', query.state = query'.state →
      SealedSession p t (.callback headers query) → SealedSession p t' (.callback headers' query') → t = t') ∧
    ∀ t, (trace t p.world.2).Pairwise fun a b => ¬ (a.1.Grants ∧ b.1.Grants) := by
  have seals : ∀ {t o}, SealedSession p t o → ∃ e ∈ trace t p.world.2, e.1.Grants := by
    rintro t o ⟨-, ⟨r, reply⟩, member, rfl⟩
    exact ⟨_, member, trivial⟩
  refine ⟨?_, ?_, ?_, ?_⟩
  · intro t t' id c c' ws ws' g g' d d' returned returned'
    exact granted_alone run returned returned' rfl rfl (.inr ⟨_, rfl, trivial⟩) (.inr ⟨_, rfl, trivial⟩)
  · intro t t' headers headers' challenge challenge' opened opened' same minted minted'
    obtain ⟨⟨th, held, operation⟩, -⟩ := id minted
    obtain ⟨⟨th', held', operation'⟩, -⟩ := id minted'
    have own : th.op.pending app = some (pendingKey (deviceKey challenge.id)) := by simp [operation, Op.pending, opened]
    have own' : th'.op.pending app = some (pendingKey (deviceKey challenge.id)) := by simp [operation', Op.pending, opened', same]
    exact granted_alone run held held' own own' (.inl (seals minted)) (.inl (seals minted'))
  · intro t t' headers headers' query query' same minted minted'
    obtain ⟨⟨th, held, operation⟩, -⟩ := id minted
    obtain ⟨⟨th', held', operation'⟩, -⟩ := id minted'
    obtain ⟨e, member, k, own, takes⟩ := granted_claimed run held (.inl (seals minted))
    have given : query.state.map (fun state => pendingKey (oauthKey state)) = some k := by simpa [operation, Op.pending] using own
    obtain ⟨state, present, rfl⟩ := Option.map_eq_some_iff.mp given
    have own' : th'.op.pending app = some (pendingKey (oauthKey state)) := by simp [operation', Op.pending, ← same, present]
    exact granted_alone run held held' own own' (.inl (seals minted)) (.inl (seals minted'))
  · intro t
    obtain ⟨untold, accounts⟩ := thread_accounts run
    cases held : p.threads t with
    | none =>
      rw [untold t held]
      exact .nil
    | some th => exact (accounts t th held).once

end Runs

/-! ### A sign-in -/

def callbackApp : App :=
  { localApp with
    github := true
    sealWith := fun nonce _ => some nonce
    openText := fun token => if token = "c" then some (.challenge ⟨"s", "v", 600⟩) else none }

def callbackStore : Except BrokerError (MemoryMetadata Value) := do
  let (_, store) ← MemoryMetadata.empty.insert .enrollments platformPartition (oauthKey "s") (.oauth 600)
  return store

def callbackTape : Tape where
  world := { World.empty with store := callbackStore.toOption.getD .empty }
  secrets := localTape.secrets

def gitHubAnswer (v : Tape) : (r : Request) → Option (Except BrokerError (Reply r) × Tape)
  | .accessToken _ => some (.ok ⟨some "t", none⟩, v)
  | .user _ => some (.ok ⟨1, "a", ""⟩, v)
  | .revokeToken _ => some (.ok 204, v)
  | .nonce => some (.ok "n", v)
  | r => v.answer r

def gitHubFast (v : Tape) : (r : Request) → Option (Except BrokerError (Reply r) × Tape)
  | .accessToken _ => some (.ok ⟨some "t", none⟩, v)
  | .user _ => some (.ok ⟨1, "a", ""⟩, v)
  | .revokeToken _ => some (.ok 204, v)
  | .nonce => some (.ok "n", v)
  | r => v.fast r

theorem gitHubAnswer_eq : gitHubAnswer = gitHubFast := by
  funext v r
  unfold gitHubAnswer gitHubFast
  rw [Tape.answer_eq]

theorem gitHubAnswer_sound {v v' : Tape} {r : Request} {reply : Except BrokerError (Reply r)}
    (h : gitHubAnswer v r = some (reply, v')) : Responds anyTime v.world r reply v'.world := by
  unfold gitHubAnswer at h
  split at h
  · cases h
    exact .external rfl
  · cases h
    exact .external rfl
  · cases h
    exact .external rfl
  · cases h
    exact .external rfl
  · exact Tape.answer_sound h

def callbackOp : Op := .callback { cookie := [some "azbridge_oauth=c"] } ⟨some "g", some "s", none⟩

def signedIn : Option (Handler Outcome × Tape) → Bool
  | some (.done (.ok (.signedIn _)), _) => true
  | _ => false

theorem signedIn_cases {out : Option (Handler Outcome × Tape)} (h : signedIn out = true) :
    ∃ response v, out = some (.done (.ok (.signedIn response)), v) := by
  unfold signedIn at h
  split at h
  · exact ⟨_, _, rfl⟩
  · cases h

/-- The browser is signed in, and whoever brings the same state again is not. -/
theorem grants_are_single_use_callback : ∃ p : Recorded,
    Reaches (redeeming callbackApp) (Pool.fresh (callbackTape.world, [])) p ∧
      (∃ response, p.Returned 0 callbackOp (.ok (.signedIn response))) ∧
      ∀ t t', SealedSession p t callbackOp → SealedSession p t' callbackOp → t = t' := by
  obtain ⟨response, v, ran⟩ := signedIn_cases
    ((congrArg (fun answer => signedIn ((callbackOp.program callbackApp).advance answer 99 callbackTape)) gitHubAnswer_eq).trans
      (by decide +kernel))
  have fresh : (Pool.fresh callbackTape.world : Pool).Idle := fun t th held => nomatch held
  have admitted : (replicas callbackApp anyTime Op.redeems).admits callbackOp callbackTape.world := trivial
  have played := reaches_start (s := replicas callbackApp anyTime Op.redeems) (t := 0) (p := Pool.fresh callbackTape.world)
    (fun _ _ _ _ _ => gitHubAnswer_sound) admitted ran fresh rfl rfl
  obtain ⟨history, run⟩ := played.recorded
  refine ⟨_, run, ⟨response, ?_⟩, ?_⟩
  · unfold Interleaving.Pool.Returned
    simp only [Function.update_self]
  intro t t' minted minted'
  exact (grants_are_single_use run).2.2.1 t t' _ _ _ _ rfl minted minted'

end Azbridge.Broker
