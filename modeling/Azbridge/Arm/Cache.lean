import Azbridge.Arm.Manager

/-!
# The key cache

What every run of the manager keeps: a cached key was fetched by a call that took the cache after
the last change of the connection's keys.
-/

namespace Azbridge.Arm
open Azbridge.Broker (BrokerError RelayRight RelayTokenResponse)
open Locked (Meets Untaken)

abbrev History := Locked.Log Op ArmRequest Readings (fun _ => ArmResponse) BrokerError Outcome

def Op.touches (namespaceName name : String) : Op → Bool
  | .issueToken .. => false
  | .rotateKeys ns n | .deleteConnection ns n =>
    Text.eqIgnoreAsciiCase namespaceName ns && Text.eqIgnoreAsciiCase name n
  | .deleteNamespace ns => Text.eqIgnoreAsciiCase namespaceName ns

/-- A history in which one call asks for a key and gets it. -/
structure Fetch where
  caller : Nat
  namespaceName : String
  name : String
  before : History
  during : History
  response : ArmResponse
  readings : Readings
  since : History

namespace Fetch

def history (f : Fetch) (m : Manager) (right : RelayRight) : History :=
  f.before ++ .took f.caller (.issueToken f.namespaceName f.name right) ::
    (f.during ++ .answered f.caller (m.listKeys f.namespaceName f.name right) (.ok f.response) f.readings :: f.since)

/-- The fetch gave the key that is kept under this name. -/
structure Gave (f : Fetch) (m : Manager) (log : History) (id : KeyId) (entry : CachedKey) : Prop where
  history : log = f.history m id.2.2
  names : keyId f.namespaceName f.name id.2.2 = id
  key : f.response.primaryKey = some entry.key
  expires : entry.expires = f.readings.instant id + keyTtl

/-- Whatever took the cache to change the connection's keys had ended when the caller took it. -/
def Fresh (f : Fetch) (log : History) (namespaceName name : String) : Prop :=
  ∀ t op, .took t op ∈ log → op.touches namespaceName name = true → ∃ result, .ended t op result ∈ f.before

end Fetch

/-- The rule of a connection was read, and with it the clock against which keys expire. -/
def Checked (m : Manager) (t : Nat) (namespaceName name : String) (right : RelayRight) (ω : Readings) (log : History) : Prop :=
  ∃ reply, .answered t (m.ruleRequest namespaceName name right) (.ok reply) ω ∈ log

/-- A token is signed with a key that was fetched after every change of the connection's keys that
took the cache before. The caller fetched the key after its check, or checked it before it expired. -/
def Issued (m : Manager) (log : History) (t : Nat) (namespaceName name : String) (right : RelayRight)
    (response : RelayTokenResponse) : Prop :=
  ∃ (f : Fetch) (entry : CachedKey), f.Gave m log (keyId namespaceName name right) entry ∧ f.Fresh log namespaceName name ∧
    (∃ now, sign m.libs now namespaceName name right entry.key = .ok response) ∧
    ((f.caller = t ∧ ∃ ω, Checked m t namespaceName name right ω f.during) ∨
      ∃ ω, Checked m t namespaceName name right ω f.since ∧
        ω.instant (keyId namespaceName name right) < f.readings.instant (keyId namespaceName name right) + keyTtl)

theorem touches_keyId (op : Op) (namespaceName name : String) (right : RelayRight) :
    op.touches (keyId namespaceName name right).1 (keyId namespaceName name right).2.1 = op.touches namespaceName name := by
  cases op <;> simp [Op.touches, keyId, Text.eqIgnoreAsciiCase_toAsciiLowercase]

/-! ### The invariant -/

structure Holds (m : Manager) (log : History) (keys : Cache) : Prop where
  bounded : keys.size ≤ maxCachedKeys
  cached : ∀ id entry, keys.get id = some entry → ∃ f : Fetch, f.Gave m log id entry ∧ f.Fresh log id.1 id.2.1
  issued : ∀ earlier later t ns name right response,
    log = earlier ++ .ended t (.issueToken ns name right) (some (.ok (.token response))) :: later →
      Issued m earlier t ns name right response

section Growth
variable {m : Manager} {log : History} {keys : Cache} {id : KeyId} {entry : CachedKey} {f : Fetch}
  {e : Locked.Event Op ArmRequest Readings (fun _ => ArmResponse) BrokerError Outcome}

theorem holds_empty : Holds m [] Table.empty where
  bounded := Nat.zero_le _
  cached := fun _ _ found => nomatch found
  issued := fun earlier _ _ _ _ _ _ split => absurd split.symm (by simp)

def Fetch.later (f : Fetch) (e : Locked.Event Op ArmRequest Readings (fun _ => ArmResponse) BrokerError Outcome) : Fetch :=
  { f with since := f.since ++ [e] }

theorem Fetch.Gave.later (gave : f.Gave m log id entry) : (f.later e).Gave m (log ++ [e]) id entry where
  history := by
    rw [gave.history]
    simp [Fetch.history, Fetch.later]
  names := gave.names
  key := gave.key
  expires := gave.expires

theorem Fetch.Fresh.later {ns name : String} (fresh : f.Fresh log ns name)
    (untouched : ∀ t op, e = .took t op → op.touches ns name = false) : (f.later e).Fresh (log ++ [e]) ns name := by
  intro t op took touching
  rcases List.mem_append.mp took with earlier | last
  · exact fresh t op earlier touching
  · rw [untouched t op (List.mem_singleton.mp last).symm] at touching
    cases touching

theorem Holds.later (holds : Holds m log keys)
    (untouched : ∀ t op, e = .took t op → ∀ id entry, keys.get id = some entry → op.touches id.1 id.2.1 = false)
    (issued : ∀ t ns name right response, e = .ended t (.issueToken ns name right) (some (.ok (.token response))) →
      Issued m log t ns name right response) : Holds m (log ++ [e]) keys where
  bounded := holds.bounded
  cached := by
    intro id entry found
    obtain ⟨f, gave, fresh⟩ := holds.cached id entry found
    exact ⟨f.later e, gave.later, fresh.later fun t op same => untouched t op same id entry found⟩
  issued := by
    intro earlier later t ns name right response split
    rcases List.eq_nil_or_concat later with rfl | ⟨front, last, rfl⟩
    · obtain ⟨rfl, same⟩ := List.append_inj' split rfl
      exact issued t ns name right response (List.cons.inj same).1
    · have split' : log ++ [e] = (earlier ++ .ended t (.issueToken ns name right) (some (.ok (.token response))) :: front) ++ [last] := by
        simpa using split
      obtain ⟨rfl, -⟩ := List.append_inj' split' rfl
      exact holds.issued earlier front t ns name right response rfl

theorem Holds.quiet (holds : Holds m log keys) (quiet : e.Quiet) : Holds m (log ++ [e]) keys := by
  apply holds.later
  · rintro t op rfl
    exact quiet.elim
  · rintro t ns name right response rfl
    exact quiet.elim

theorem Holds.retain (holds : Holds m log keys) (keep : KeyId → CachedKey → Bool) : Holds m log (keys.retain keep) where
  bounded := Nat.le_trans (Table.size_retain_le keys keep) holds.bounded
  cached := fun id entry found => holds.cached id entry (Table.get_retain.mp found).1
  issued := holds.issued

/-- A key that was just fetched. -/
theorem Holds.set (holds : Holds m log keys) (gave : f.Gave m log id entry) (fresh : f.Fresh log id.1 id.2.1) :
    Holds m log ((if maxCachedKeys ≤ keys.size then Table.empty else keys).set id entry) where
  bounded := by
    have grown := Table.size_set_le (if maxCachedKeys ≤ keys.size then Table.empty else keys) id entry
    split at grown
    · next full =>
      rw [if_pos full]
      exact Nat.le_trans grown (by decide)
    · next room =>
      rw [if_neg room]
      omega
  cached := by
    intro id' entry' found
    by_cases own : id' = id
    · subst own
      rw [Table.get_set_self, Option.some.injEq] at found
      subst found
      exact ⟨f, gave, fresh⟩
    · rw [Table.get_set_other own] at found
      split at found
      · cases found
      · exact holds.cached id' entry' found
  issued := holds.issued

end Growth

/-! ### What a call that holds the cache does -/

section Calls
variable {m : Manager} {before mid : History} {t : Nat} {op : Op} {keys : Cache} {ω : Readings} {log : History} {α : Type}

theorem quiet_holds (log : History) (keys : Cache)
    (e : Locked.Event Op ArmRequest Readings (fun _ => ArmResponse) BrokerError Outcome) (holds : Holds m log keys)
    (quiet : e.Quiet) : Holds m (log ++ [e]) keys := holds.quiet quiet

theorem meets_require {J : History → Cache → Prop} {Q : Unit → Cache → Readings → History → Prop}
    {E : BrokerError → Cache → Readings → History → Prop} {condition : Bool} {e : BrokerError}
    (ok : condition = true → Q () keys ω log) (err : E e keys ω log) : Meets J t Q E (require condition e) keys ω log := by
  cases condition with
  | true => exact ok rfl
  | false => exact err

theorem meets_cache {J : History → Cache → Prop} {Q : α → Cache → Readings → History → Prop}
    {E : BrokerError → Cache → Readings → History → Prop} {f : Cache → Held α}
    (next : Meets J t Q E (f keys) keys ω log) : Meets J t Q E (cache >>= f) keys ω log := next

theorem meets_readings {J : History → Cache → Prop} {Q : α → Cache → Readings → History → Prop}
    {E : BrokerError → Cache → Readings → History → Prop} {f : Readings → Held α}
    (next : Meets J t Q E (f ω) keys ω log) : Meets J t Q E (readings >>= f) keys ω log := next

theorem meets_setCache {J : History → Cache → Prop} {Q : α → Cache → Readings → History → Prop}
    {E : BrokerError → Cache → Readings → History → Prop} {keys' : Cache} {f : Unit → Held α}
    (next : Meets J t Q E (f ()) keys' ω log) : Meets J t Q E (setCache keys' >>= f) keys ω log := next

theorem meets_forget {J : History → Cache → Prop} {Q : Unit → Cache → Readings → History → Prop}
    {E : BrokerError → Cache → Readings → History → Prop} {dropped : KeyId → Bool}
    (h : Q () (keys.retain fun id _ => !dropped id) ω log) : Meets J t Q E (Manager.forget dropped) keys ω log := h

/-- The call went on without touching the cache. -/
def Went (m : Manager) (before : History) (t : Nat) (op : Op) (mid : History) (keys d : Cache) (l : History) : Prop :=
  d = keys ∧ ∃ others, l = before ++ .took t op :: (mid ++ others) ∧ Untaken (mid ++ others) ∧ Holds m l d

/-- Requests alone leave the cache as it is. -/
def Asks (body : Held α) : Prop :=
  ∀ (m : Manager) (before mid : History) (t : Nat) (op : Op) (keys : Cache) (ω : Readings),
    Holds m (before ++ .took t op :: mid) keys → Untaken mid →
      Meets (Holds m) t (fun _ d _ l => Went m before t op mid keys d l) (fun _ d _ l => Holds m l d) body keys ω
        (before ++ .took t op :: mid)

theorem asks_pure (a : α) : Asks (pure a : Held α) :=
  fun _ _ mid _ _ _ _ holds untaken => ⟨rfl, [], by simp, by simpa using untaken, by simpa using holds⟩

theorem asks_throw (e : BrokerError) : Asks (throw e : Held α) := fun _ _ _ _ _ _ _ holds _ => holds

theorem asks_request (request : ArmRequest) : Asks (Program.request (Locked.Query.await request) : Held ArmResponse) := by
  intro m before mid t op keys ω holds untaken
  apply Locked.meets_request quiet_holds holds untaken
  intro reply ω others kept calm
  have holds' := kept.quiet (e := .answered t request (.ok reply) ω) trivial
  have calm' := calm.append (e := .answered t request (.ok reply) ω) trivial
  exact ⟨rfl, others ++ [.answered t request (.ok reply) ω], by simp, by simpa using calm', by simpa using holds'⟩

theorem asks_require (condition : Bool) (e : BrokerError) : Asks (require condition e) := by
  cases condition with
  | true => exact asks_pure ()
  | false => exact asks_throw e

theorem Asks.bind {β : Type} {body : Held α} {f : α → Held β} (first : Asks body) (rest : ∀ a, Asks (f a)) :
    Asks (body >>= f) := by
  intro m before mid t op keys ω holds untaken
  apply Locked.meets_bind
  apply (first m before mid t op keys ω holds untaken).mono _ fun _ _ _ _ h => h
  rintro a d ω' l ⟨rfl, others, rfl, calm, kept⟩
  apply (rest a m before (mid ++ others) t op d ω' kept calm).mono _ fun _ _ _ _ h => h
  rintro b d' ω'' l' ⟨rfl, more, rfl, calm', kept'⟩
  exact ⟨rfl, others ++ more, by simp, by simpa using calm', by simpa using kept'⟩

theorem asks_namespaceReady (m : Manager) (ns : String) : Asks (m.namespaceReady ns) :=
  (asks_request _).bind fun _ => (asks_require _ _).bind fun _ => asks_pure _

theorem asks_connectionReady (m : Manager) (ns name : String) : Asks (m.connectionReady ns name) := by
  apply (asks_namespaceReady m ns).bind
  intro ready
  cases ready with
  | false => exact asks_pure _
  | true => exact (asks_request _).bind fun _ => (asks_require _ _).bind fun _ => asks_pure _

theorem asks_delete (path : String) : Asks (Manager.delete path) := by
  apply (asks_request _).bind
  intro response
  dsimp only
  split
  · exact asks_pure _
  · split
    · exact asks_throw _
    · split
      · exact asks_pure _
      · exact asks_pure _

theorem asks_regenerate (m : Manager) (ns name : String) (right : RelayRight) : Asks (m.regenerate ns name right) :=
  (asks_request _).bind fun _ => (asks_require _ _).bind fun _ => asks_require _ _

theorem kept_forget {dropped : KeyId → Bool} {rest : Held Outcome} (holds : Holds m before keys)
    (covers : ∀ id, op.touches id.1 id.2.1 = dropped id) (changes : ∀ ns name right, op ≠ .issueToken ns name right)
    (asks : Asks rest) :
    Locked.Kept (Holds m) t op (Manager.forget dropped >>= fun _ => rest) keys ω (before ++ [.took t op]) := by
  have forgotten : Holds m (before ++ [.took t op]) (keys.retain fun id _ => !dropped id) := by
    apply (holds.retain _).later
    · rintro t' op' same id entry found
      obtain ⟨rfl, rfl⟩ := Locked.Event.took.inj same
      have kept := (Table.get_retain.mp found).2
      rw [covers id]
      simpa using kept
    · nofun
  apply Locked.kept_of_meets quiet_holds
  apply Locked.meets_bind
  apply meets_forget
  apply (asks m before [] t op _ ω forgotten Locked.untaken_nil).mono _ fun _ _ _ _ h => h
  rintro outcome d ω' l ⟨-, others, rfl, -, kept⟩
  apply kept.later
  · nofun
  · rintro t' ns name right response same
    have own := (Locked.Event.ended.inj same).2.1
    exact absurd own (changes ns name right)

end Calls

section Issue
variable {m : Manager} {before mid log : History} {t : Nat} {ns name : String} {right : RelayRight} {keys : Cache}
  {ω clock : Readings} {entry : CachedKey}

theorem meets_signCached (found : keys.get (keyId ns name right) = some entry) (holds : Holds m log keys)
    (issued : ∀ response, (∃ now, sign m.libs now ns name right entry.key = .ok response) →
      Issued m log t ns name right response) :
    Meets (Holds m) t (fun a d _ l => Holds m (l ++ [.ended t (.issueToken ns name right) (some (.ok a))]) d)
      (fun _ d _ l => Holds m l d) (m.signCached ns name right) keys ω log := by
  unfold Manager.signCached
  apply meets_cache
  rw [found]
  show Meets _ _ _ _ (lift (sign m.libs ω.system ns name right entry.key) >>= fun response => pure (Outcome.token response))
    keys ω log
  cases signed : sign m.libs ω.system ns name right entry.key with
  | error e => exact holds
  | ok response =>
    apply holds.later
    · rintro _ _ ⟨⟩
    · rintro t' ns' name' right' response' same
      cases same
      exact issued response ⟨ω.system, signed⟩

/-- Nobody could have changed the keys between the caller's turn and its own request. -/
theorem fresh_own {f : Fetch} (closed : Locked.Closed before) (untaken : Untaken mid) (own : f.before = before) :
    f.Fresh (before ++ .took t (.issueToken ns name right) :: mid) ns name := by
  intro t' op took touching
  rcases untaken.took took with earlier | ⟨-, rfl⟩
  · rw [own]
    exact closed t' op earlier
  · cases touching

theorem meets_fetchKey (closed : Locked.Closed before)
    (holds : Holds m (before ++ .took t (.issueToken ns name right) :: mid) keys) (untaken : Untaken mid)
    (checked : Checked m t ns name right clock mid) :
    Meets (Holds m) t
      (fun _ d _ l => Holds m l d ∧ ∃ (f : Fetch) (entry : CachedKey), d.get (keyId ns name right) = some entry ∧
        f.Gave m l (keyId ns name right) entry ∧ f.Fresh l ns name ∧ f.caller = t ∧ Checked m t ns name right clock f.during)
      (fun _ d _ l => Holds m l d) (m.fetchKey ns name right) keys ω
      (before ++ .took t (.issueToken ns name right) :: mid) := by
  apply Locked.meets_bind
  apply Locked.meets_request quiet_holds holds untaken
  intro response ω' others kept calm
  obtain ⟨asked, answered⟩ : ∃ asked, asked = mid ++ others ++ [.answered t (m.listKeys ns name right) (.ok response) ω'] :=
    ⟨_, rfl⟩
  have quiet : Untaken asked := by
    rw [answered]
    exact calm.append trivial
  have later : Holds m (before ++ .took t (.issueToken ns name right) :: asked) keys := by
    have one := kept.quiet (e := .answered t (m.listKeys ns name right) (.ok response) ω') trivial
    rw [answered]
    simpa using one
  rw [← answered]
  apply Locked.meets_bind
  apply meets_require _ later
  intro _
  apply Locked.meets_bind
  apply meets_require _ later
  intro _
  cases found : response.primaryKey with
  | none => exact later
  | some key =>
    let f : Fetch := ⟨t, ns, name, before, mid ++ others, response, ω', []⟩
    have gave : f.Gave m (before ++ .took t (.issueToken ns name right) :: asked) (keyId ns name right)
        ⟨key, ω'.instant (keyId ns name right) + keyTtl⟩ :=
      ⟨by rw [answered]; rfl, rfl, found, rfl⟩
    have fresh : f.Fresh (before ++ .took t (.issueToken ns name right) :: asked) ns name := fresh_own closed quiet rfl
    have named : f.Fresh (before ++ .took t (.issueToken ns name right) :: asked) (keyId ns name right).1
        (keyId ns name right).2.1 := by
      intro t' op took touching
      rw [touches_keyId] at touching
      exact fresh t' op took touching
    obtain ⟨reply, member⟩ := checked
    exact ⟨later.set gave named, f, _, Table.get_set_self, gave, fresh, rfl, reply, List.mem_append_left _ member⟩

theorem kept_issueToken (closed : Locked.Closed before) (holds : Holds m before keys) :
    Locked.Kept (Holds m) t (.issueToken ns name right) (m.issueToken ns name right) keys ω
      (before ++ [.took t (.issueToken ns name right)]) := by
  have started : Holds m (before ++ [.took t (.issueToken ns name right)]) keys := by
    apply holds.later
    · rintro t' op same id entry -
      obtain ⟨rfl, rfl⟩ := Locked.Event.took.inj same
      rfl
    · rintro _ _ _ _ _ ⟨⟩
  apply Locked.kept_of_meets quiet_holds
  apply Locked.meets_bind
  apply (asks_connectionReady m ns name m before [] t _ keys ω started Locked.untaken_nil).mono _ fun _ _ _ _ h => h
  rintro ready d ω' l ⟨rfl, others, rfl, calm, kept⟩
  apply Locked.meets_bind
  apply meets_require _ kept
  intro _
  apply Locked.meets_bind
  apply Locked.meets_request quiet_holds kept calm
  intro reply clock more kept calm
  obtain ⟨asked, answered⟩ : ∃ asked, asked = [] ++ others ++ more ++ [.answered t (m.ruleRequest ns name right) (.ok reply) clock] :=
    ⟨_, rfl⟩
  have check : .answered t (m.ruleRequest ns name right) (.ok reply) clock ∈ asked := by
    rw [answered]
    exact List.mem_append_right _ (.head _)
  have quiet : Untaken asked := by
    rw [answered]
    exact calm.append trivial
  have split : before ++ .took t (.issueToken ns name right) :: asked =
      (before ++ .took t (.issueToken ns name right) :: ([] ++ others ++ more)) ++
        [.answered t (m.ruleRequest ns name right) (.ok reply) clock] := by
    simp [answered]
  have later : Holds m (before ++ .took t (.issueToken ns name right) :: asked) d := by
    rw [split]
    exact kept.quiet trivial
  rw [← answered]
  apply Locked.meets_bind
  apply meets_require _ later
  intro _
  apply Locked.meets_bind
  apply meets_require _ later
  intro _
  have unexpired := later.retain fun id entry => decide (clock.instant id < entry.expires)
  apply meets_readings
  apply meets_cache
  apply meets_setCache
  apply meets_cache
  cases found : (d.retain fun id entry => decide (clock.instant id < entry.expires)).get (keyId ns name right) with
  | some entry =>
    apply meets_signCached found unexpired
    intro response signed
    obtain ⟨cached, live⟩ := Table.get_retain.mp found
    obtain ⟨f, gave, fresh⟩ := kept.cached _ entry cached
    refine ⟨f.later (.answered t (m.ruleRequest ns name right) (.ok reply) clock), entry, ?_, ?_, signed, .inr ⟨clock, ?_, ?_⟩⟩
    · rw [split]
      exact gave.later
    · rw [split]
      apply Fetch.Fresh.later _ (by rintro _ _ ⟨⟩)
      intro t' op took touching
      rw [← touches_keyId op ns name right] at touching
      exact fresh t' op took touching
    · exact ⟨reply, List.mem_append_right _ (.head _)⟩
    · have early := of_decide_eq_true live
      rw [gave.expires] at early
      exact early
  | none =>
    apply Locked.meets_bind
    apply (meets_fetchKey closed unexpired quiet ⟨reply, check⟩).mono _ fun _ _ _ _ h => h
    rintro _ d' ω' l ⟨fetched, f, entry, found, gave, fresh, own, checked⟩
    apply meets_signCached found fetched
    intro response signed
    exact ⟨f, entry, gave, fresh, signed, .inl ⟨own, clock, checked⟩⟩

end Issue

/-! ### Every run -/

/-- Each operation keeps the invariant from the moment it has the cache. -/
theorem kept_calls {m : Manager} {log : History} {keys : Cache} {t : Nat} {op : Op} {body : Held Outcome} {ω : Readings}
    (holds : Holds m log keys) (closed : Locked.Closed log) (locks : m.calls op = .ok body) :
    Locked.Kept (Holds m) t op body keys ω (log ++ [.took t op]) := by
  have runs : ∀ {path : Except BrokerError String} {called : Held Outcome},
      (do discard path; return called : Except BrokerError (Held Outcome)) = .ok body → called = body := by
    intro path called bound
    cases path with
    | error e => cases bound
    | ok path => exact Except.ok.inj bound
  cases op with
  | issueToken ns name right =>
    rw [← runs locks]
    exact kept_issueToken closed holds
  | rotateKeys ns name =>
    rw [← runs locks]
    apply kept_forget holds (fun _ => rfl) (by nofun)
    exact (asks_regenerate m ns name .send).bind fun _ => (asks_regenerate m ns name .listen).bind fun _ => asks_pure _
  | deleteConnection ns name =>
    rw [← runs locks]
    exact kept_forget holds (fun _ => rfl) (by nofun) ((asks_delete _).bind fun _ => asks_pure _)
  | deleteNamespace ns =>
    rw [← runs locks]
    exact kept_forget holds (fun _ => rfl) (by nofun) ((asks_delete _).bind fun _ => asks_pure _)

/-- In every run the cache is bounded, and every token is signed with a key that no change of the
connection's keys has outdated. -/
theorem issued_with_current_key {m : Manager} {s : Locked.State Op Cache ArmRequest Readings (fun _ => ArmResponse) BrokerError Outcome}
    (run : Locked.Reaches m.calls (Locked.State.fresh Table.empty) s) :
    s.data.size ≤ maxCachedKeys ∧ ∀ earlier later t ns name right response,
      s.log = earlier ++ .ended t (.issueToken ns name right) (some (.ok (.token response))) :: later →
        Issued m earlier t ns name right response := by
  have sound := Locked.sound_reaches (J := Holds m) (Locked.Sound.fresh holds_empty) run quiet_holds
    fun log keys t op body ω holds closed locks => kept_calls holds closed locks
  exact ⟨sound.holds.bounded, sound.holds.issued⟩

/-- Knows the two addresses of one relay and what is signed with two keys. -/
def webLibs : Sas.Libraries where
  parseUrl text :=
    if text = "sb://azb-web-1.servicebus.windows.net/" then some ⟨some "azb-web-1.servicebus.windows.net", none, "/"⟩
    else if text = "wss://azb-web-1.servicebus.windows.net:443/$hc/web" then
      some ⟨some "azb-web-1.servicebus.windows.net", none, "/$hc/web"⟩
    else none
  parseForm _ := []
  mac key text :=
    if key = "first" ∧ text = "http%3A%2F%2Fazb-web-1.servicebus.windows.net%2Fweb%2F\n4600" then
      "MJhSQkHrvUXcQVbrz0pSi587fhnYG/ySIfVBJE/SnJA="
    else if key = "second" ∧ text = "http%3A%2F%2Fazb-web-1.servicebus.windows.net%2Fweb%2F\n5600" then
      "eS4HWdzM4WUxq7wjR/NXN+kRaKZ1UocV9LgUW1U0Jlk="
    else if key = "second" ∧ text = "http%3A%2F%2Fazb-web-1.servicebus.windows.net%2Fweb%2F\n5700" then
      "/It4GtH4ioMs+zGlaZLG0dDID94iP3Qf4pg9qA4lGJw="
    else ""
  unicode := ⟨Char.isAlphanum, fun c => [c.toLower]⟩

def webManager : Manager := ⟨"/namespaces", webLibs⟩

def standing (properties : List (String × Json)) : ArmRequest → Except BrokerError ArmResponse := fun _ =>
  .ok ⟨200, false, .object [("properties", .object (("provisioningState", .string "Succeeded") :: properties))]⟩

def keyed (key : String) : ArmRequest → Except BrokerError ArmResponse := fun _ =>
  .ok ⟨200, false, .object [("primaryKey", .string key)]⟩

def clocks (second : Nat) : Readings := ⟨fun _ => second * Sas.second, second * Sas.second⟩

/-- What is answered before the key is looked up. -/
def checks (second : Nat) : List ((ArmRequest → Except BrokerError ArmResponse) × Readings) :=
  [(standing [], clocks second), (standing [("requiresClientAuthorization", .bool true)], clocks second),
    (standing [("rights", .array [.string "Send"])], clocks second)]

/-- A token, a rotation and two more tokens. -/
def rotation : List (Locked.Turn Op ArmRequest Readings (fun _ => ArmResponse) BrokerError) :=
  [⟨.issueToken "azb-web-1" "web" .send, clocks 1000, checks 1000 ++ [(keyed "first", clocks 1000)]⟩,
    ⟨.rotateKeys "AZB-WEB-1" "Web", clocks 1500, [(keyed "second", clocks 1500), (keyed "third", clocks 1500)]⟩,
    ⟨.issueToken "azb-web-1" "web" .send, clocks 2000, checks 2000 ++ [(keyed "second", clocks 2000)]⟩,
    ⟨.issueToken "azb-web-1" "web" .send, clocks 2100, checks 2100⟩]

/-- What is signed with the second key, 2100 seconds after the epoch. -/
def rotatedToken : RelayTokenResponse :=
  ⟨"SharedAccessSignature sr=http%3A%2F%2Fazb-web-1.servicebus.windows.net%2Fweb%2F" ++
    "&sig=%2FIt4GtH4ioMs%2BzGlaZLG0dDID94iP3Qf4pg9qA4lGJw%3D&se=5700&skn=azbridge-send", 5700⟩

theorem rotation_played : (Locked.play webManager.calls rotation 0 Table.empty []).map
    (fun left => (left.2.getLast?.bind Locked.Event.value?, left.2.filterMap Locked.Event.turn?)) =
      some (some (3, .issueToken "azb-web-1" "web" .send, .token rotatedToken),
        [(0, .issueToken "azb-web-1" "web" .send), (1, .rotateKeys "AZB-WEB-1" "Web"), (2, .issueToken "azb-web-1" "web" .send),
          (3, .issueToken "azb-web-1" "web" .send)]) := by decide +kernel

/-- The last token comes from the cache, and its key was fetched after the rotation. -/
theorem issued_with_current_key_rotated :
    ∃ (s : Locked.State Op Cache ArmRequest Readings (fun _ => ArmResponse) BrokerError Outcome) (earlier : History) (f : Fetch) (key : String),
      s.data.size ≤ maxCachedKeys ∧
      s.log = earlier ++ [.ended 3 (.issueToken "azb-web-1" "web" .send) (some (.ok (.token rotatedToken)))] ∧
      earlier = f.history webManager .send ∧ (∃ result, .ended 1 (.rotateKeys "AZB-WEB-1" "Web") result ∈ f.before) ∧
      f.response.primaryKey = some key ∧ ∃ now, sign webLibs now "azb-web-1" "web" .send key = .ok rotatedToken := by
  obtain ⟨left, played, shown⟩ := Option.map_eq_some_iff.mp rotation_played
  obtain ⟨last, turns⟩ := Prod.mk.inj shown
  obtain ⟨e, final, ends⟩ := Option.bind_eq_some_iff.mp last
  obtain rfl := Locked.Event.value?_eq_some.mp ends
  obtain ⟨earlier, split⟩ := List.getLast?_eq_some_iff.mp final
  obtain ⟨s, run, -, logged⟩ := Locked.reaches_play (s := Locked.State.fresh Table.empty) played (by rintro _ _ _ ⟨⟩) fun _ _ => rfl
  have current := issued_with_current_key run
  rw [logged, split] at current
  obtain ⟨f, entry, gave, fresh, signed, -⟩ := current.2 earlier [] 3 "azb-web-1" "web" .send rotatedToken rfl
  have rotated : .took 1 (.rotateKeys "AZB-WEB-1" "Web") ∈ earlier := by
    have turn : (1, Op.rotateKeys "AZB-WEB-1" "Web") ∈ left.2.filterMap Locked.Event.turn? := by
      rw [turns]
      decide
    obtain ⟨e, member, took⟩ := List.mem_filterMap.mp turn
    obtain rfl := Locked.Event.turn?_eq_some.mp took
    rw [split] at member
    simpa using member
  exact ⟨s, earlier, f, entry.key, current.1, logged.trans split, gave.history,
    fresh 1 _ rotated (by decide +kernel), gave.key, signed⟩

end Azbridge.Arm
