import Azbridge.Lib.Utf8
import Azbridge.Broker.Runs

/-!
# Scripted runs of the broker

A deterministic environment, whose runs are runs of the broker: the stores answer, the clock stands
still, random values come from a tape, and the Relay manager does at once as it is asked.
-/

namespace Azbridge.Broker
open Interleaving Gateways Ledger Auth

/-- A world, and the random values that will be drawn. -/
structure Tape where
  world : World
  uuids : List Uuid := []
  secrets : List String := []

def Tape.answer (v : Tape) : (r : Request) → Option (Except BrokerError (Reply r) × Tape)
  | .now => if v.world.clock < 2 ^ 63 then some (.ok v.world.clock, v) else none
  | .newUuid =>
    match v.uuids with
    | u :: uuids =>
      if u ∈ v.world.uuids then none
      else some (.ok u, { v with world := { v.world with uuids := u :: v.world.uuids }, uuids })
    | [] => none
  | .random n =>
    match v.secrets with
    | s :: secrets =>
      if s ∉ v.world.secrets ∧ base64UrlSize s = some n then
        some (.ok s, { v with world := { v.world with secrets := s :: v.world.secrets }, secrets })
      else none
    | [] => none
  | .ensureNamespace .. | .ensureConnection .. => some (.ok .ready, v)
  | .deleteNamespace _ | .deleteConnection .. => some (.ok true, v)
  | r => (serve v.world r).map fun (reply, world) => (reply, { v with world })

/-! ### The same answers, decided faster

Most of what deciding a script takes is decoding keys. Those of plain ASCII are checked by their bytes. -/

def keyByte (b : UInt8) : Bool :=
  Nat.ble 32 b.toNat && Nat.ble b.toNat 126 && !(Nat.beq b.toNat 47 || Nat.beq b.toNat 92 || Nat.beq b.toNat 35 || Nat.beq b.toNat 63)

def plainKey (key : String) : Bool :=
  let bytes := key.toByteArray.data.toList
  !bytes.isEmpty && bytes.length ≤ 1024 && bytes.all keyByte

theorem validateKey_of_plain {key : String} (plain : plainKey key = true) : validateKey key = .ok () := by
  simp only [plainKey, Bool.and_eq_true, Bool.not_eq_true', List.isEmpty_eq_false_iff, decide_eq_true_eq, List.all_eq_true] at plain
  obtain ⟨⟨some_, short⟩, each⟩ := plain
  have bounds : ∀ b ∈ key.toByteArray.data.toList,
      32 ≤ b.toNat ∧ b.toNat ≤ 126 ∧ b.toNat ≠ 47 ∧ b.toNat ≠ 92 ∧ b.toNat ≠ 35 ∧ b.toNat ≠ 63 := by
    intro b member
    have kept := each b member
    simp only [keyByte, Bool.and_eq_true, Nat.ble_eq, Bool.not_eq_true', Bool.or_eq_false_iff] at kept
    obtain ⟨⟨low, high⟩, ⟨⟨slash, backslash⟩, hash⟩, question⟩ := kept
    exact ⟨low, high, Nat.ne_of_beq_eq_false slash, Nat.ne_of_beq_eq_false backslash, Nat.ne_of_beq_eq_false hash,
      Nat.ne_of_beq_eq_false question⟩
  have ascii : ∀ b ∈ key.toByteArray.data.toList, b.toNat < 128 := fun b member => by have := bounds b member; omega
  apply validateKey_of_visible
  · rw [String.isEmpty_eq_false_iff]
    rintro rfl
    exact some_ rfl
  · have same : key.utf8ByteSize = key.toByteArray.data.toList.length := rfl
    omega
  · intro c member
    obtain ⟨b, within, same⟩ := Utf8.mem_bytes_of_ascii ascii member
    rw [← same]
    exact bounds b within

namespace MemoryMetadata
variable {V : Type} (s : MemoryMetadata V) (t : Table) (p r : String) (data : V) (etag : String)

/-- Rows of a table differ in their row key mostly. -/
def lookupFast : Option (Entity V) :=
  (s.entities.entries.find? fun x => decide (x.1.table = t) && (decide (x.1.row = r) && decide (x.1.partition = p))).map (·.2)

theorem lookupFast_eq : s.lookupFast t p r = s.lookup ⟨t, p, r⟩ := by
  show (s.entities.entries.find? _).map _ = s.entities.entries.dlookup ⟨t, p, r⟩
  induction s.entities.entries with
  | nil => rfl
  | cons first rest ih =>
    obtain ⟨⟨t', p', r'⟩, e⟩ := first
    by_cases same : (⟨t', p', r'⟩ : Key) = ⟨t, p, r⟩
    · cases same
      simp
    · rw [List.dlookup_cons_ne _ _ (Ne.symm same), ← ih, List.find?_cons_of_neg]
      simpa [Key.mk.injEq, and_comm] using same

/-- The entries with a new one, where nothing has to be taken out. -/
def consFast (k : Key) (e : Entity V) (absent : s.lookup k = none) : AList fun _ : Key => Entity V where
  entries := ⟨k, e⟩ :: s.entities.entries
  nodupKeys := by
    rw [← AList.entries_insert_of_notMem (AList.lookup_eq_none.mp absent)]
    exact (s.entities.insert k e).nodupKeys

theorem consFast_eq (k : Key) (e : Entity V) (absent : s.lookup k = none) : s.consFast k e absent = s.entities.insert k e :=
  AList.ext (AList.entries_insert_of_notMem (AList.lookup_eq_none.mp absent)).symm

def addFast (k : Key) (data : V) (valid : validateKey k.partition = .ok () ∧ validateKey k.row = .ok ()) (absent : s.lookup k = none) :
    Except BrokerError (Entity V × MemoryMetadata V) :=
  if s.version + 1 < Text.u64 then
    let entity : Entity V := ⟨k.partition, k.row, data, etagOf (s.version + 1)⟩
    have stored : ∀ k' e, (s.consFast k entity absent).lookup k' = some e → k' = k ∧ e = entity ∨ k' ≠ k ∧ s.lookup k' = some e := by
      intro k' e held
      rw [consFast_eq] at held
      by_cases same : k' = k
      · subst same
        rw [AList.lookup_insert, Option.some.injEq] at held
        exact .inl ⟨rfl, held.symm⟩
      · rw [AList.lookup_insert_ne same] at held
        exact .inr ⟨same, held⟩
    .ok (entity, {
      entities := s.consFast k entity absent
      version := s.version + 1
      keyed := by
        intro k' e held
        rcases stored k' e held with ⟨rfl, rfl⟩ | ⟨-, old⟩
        · exact ⟨rfl, rfl⟩
        · exact s.keyed k' e old
      valid := by
        intro k' e held
        rcases stored k' e held with ⟨rfl, -⟩ | ⟨-, old⟩
        · exact valid
        · exact s.valid k' e old
      stamped := by
        intro k' e held
        rcases stored k' e held with ⟨-, rfl⟩ | ⟨-, old⟩
        · exact ⟨s.version + 1, Nat.le_refl _, rfl⟩
        · obtain ⟨n, bound, stamp⟩ := s.stamped k' e old
          exact ⟨n, Nat.le_succ_of_le bound, stamp⟩ })
  else .error .unavailable

theorem addFast_eq (k : Key) (valid : validateKey k.partition = .ok () ∧ validateKey k.row = .ok ()) (absent : s.lookup k = none) :
    s.addFast k data valid absent = s.memoryEntity k data valid := by
  unfold addFast memoryEntity
  simp only [consFast_eq]

def getFast : Except BrokerError (Option (Entity V)) :=
  if plainKey p = true ∧ plainKey r = true then .ok (s.lookupFast t p r) else s.get t p r

def insertFast : Except BrokerError (Entity V × MemoryMetadata V) :=
  if plain : plainKey p = true ∧ plainKey r = true then
    match found : s.lookupFast t p r with
    | some _ => .error .conflict
    | none => s.addFast ⟨t, p, r⟩ data ⟨validateKey_of_plain plain.1, validateKey_of_plain plain.2⟩ ((lookupFast_eq s t p r).symm.trans found)
  else s.insert t p r data

def replaceFast : Except BrokerError (Entity V × MemoryMetadata V) :=
  if plain : plainKey p = true ∧ plainKey r = true then do
    validateEtag etag
    match s.lookupFast t p r with
    | none => .error .notFound
    | some existing =>
      if existing.etag ≠ etag then .error .conflict
      else s.memoryEntity ⟨t, p, r⟩ data ⟨validateKey_of_plain plain.1, validateKey_of_plain plain.2⟩
  else s.replace t p r data etag

def deleteFast : Except BrokerError (Unit × MemoryMetadata V) :=
  if plainKey p = true ∧ plainKey r = true then do
    validateEtag etag
    match s.lookupFast t p r with
    | none => .error .notFound
    | some existing =>
      if existing.etag ≠ etag then .error .conflict
      else .ok ((), s.erase ⟨t, p, r⟩)
  else s.delete t p r etag

def listFast : Except BrokerError (List (Entity V)) :=
  if plainKey p = true then
    .ok ((s.entities.entries.filter fun x => x.1.table = t ∧ x.1.partition = p).map (·.2))
  else s.list t p

section Agreement
variable {s t p r data etag}

theorem getFast_eq : s.getFast t p r = s.get t p r := by
  unfold getFast
  split
  · next plain =>
    unfold get
    rw [validateKey_of_plain plain.1, validateKey_of_plain plain.2, lookupFast_eq]
    rfl
  · rfl

theorem insertFast_eq : s.insertFast t p r data = s.insert t p r data := by
  unfold insertFast
  split
  · next plain =>
    unfold insert
    rw [dif_pos ⟨validateKey_of_plain plain.1, validateKey_of_plain plain.2⟩]
    split
    · next found => rw [← lookupFast_eq, found]
    · next absent =>
      rw [addFast_eq, ← lookupFast_eq, absent]
  · rfl

theorem replaceFast_eq : s.replaceFast t p r data etag = s.replace t p r data etag := by
  unfold replaceFast
  split
  · next plain =>
    have valid : validateKey p = .ok () ∧ validateKey r = .ok () := ⟨validateKey_of_plain plain.1, validateKey_of_plain plain.2⟩
    have looked := lookupFast_eq s t p r
    unfold replace
    rw [dif_pos valid]
    generalize s.lookupFast t p r = found at looked ⊢
    subst looked
    rfl
  · rfl

theorem deleteFast_eq : s.deleteFast t p r etag = s.delete t p r etag := by
  unfold deleteFast
  split
  · next plain =>
    unfold delete
    rw [validateKey_of_plain plain.1, validateKey_of_plain plain.2, lookupFast_eq]
    generalize validateEtag etag = tag
    cases tag with
    | ok _ => rfl
    | error _ => rfl
  · rfl

theorem listFast_eq : s.listFast t p = s.list t p := by
  unfold listFast
  split
  · next plain =>
    unfold list
    rw [validateKey_of_plain plain]
    rfl
  · rfl

end Agreement
end MemoryMetadata

def Tape.fast (v : Tape) : (r : Request) → Option (Except BrokerError (Reply r) × Tape)
  | .get t p r => some (v.world.store.getFast t p r, v)
  | .insert t p r data =>
    let (reply, world) := effect v.world (fun store => { v.world with store }) (v.world.store.insertFast t p r data)
    some (reply, { v with world })
  | .replace t p r data etag =>
    let (reply, world) := effect v.world (fun store => { v.world with store }) (v.world.store.replaceFast t p r data etag)
    some (reply, { v with world })
  | .delete t p r etag =>
    let (reply, world) := effect v.world (fun store => { v.world with store }) (v.world.store.deleteFast t p r etag)
    some (reply, { v with world })
  | .list t p => some (v.world.store.listFast t p, v)
  | r => v.answer r

theorem Tape.answer_eq : Tape.answer = Tape.fast := by
  funext v r
  cases r with
  | get t p r =>
    simp only [fast, MemoryMetadata.getFast_eq]
    rfl
  | insert t p r data =>
    simp only [fast, MemoryMetadata.insertFast_eq]
    rfl
  | replace t p r data etag =>
    simp only [fast, MemoryMetadata.replaceFast_eq]
    rfl
  | delete t p r etag =>
    simp only [fast, MemoryMetadata.deleteFast_eq]
    rfl
  | list t p =>
    simp only [fast, MemoryMetadata.listFast_eq]
    rfl
  | _ => rfl

theorem Tape.answer_sound {v v' : Tape} {r : Request} {reply : Except BrokerError (Reply r)}
    (h : v.answer r = some (reply, v')) : Responds anyTime v.world r reply v'.world := by
  unfold answer at h
  split at h
  · split at h
    · next bound =>
      cases h
      exact .now trivial bound
    · cases h
  · split at h
    · split at h
      · cases h
      · next fresh =>
        cases h
        exact .newUuid fresh
    · cases h
  · split at h
    · split at h
      · next drawn =>
        cases h
        exact .random drawn.1 drawn.2
      · cases h
    · cases h
  · cases h
    exact .external rfl
  · cases h
    exact .external rfl
  · cases h
    exact .external rfl
  · cases h
    exact .external rfl
  · obtain ⟨⟨reply', w⟩, served, same⟩ := Option.map_eq_some_iff.mp h
    cases same
    exact .served served

/-- No rows, no blobs, nothing drawn. -/
def World.empty : World := ⟨.empty, ∅, [], [], 0⟩

theorem World.empty_initial : World.empty.Initial := by
  refine ⟨fun k e held => ?_, fun path => ?_⟩
  · exact absurd held (by simp [World.empty, MemoryMetadata.lookup, MemoryMetadata.empty])
  · simp [World.empty]

/-- What a script leaves, and one more operation after so many requests. -/
def Tape.checks (app : App) (guard : Op → World → Bool) (v : Tape) (script : List (Op × Nat)) (o : Op) (n : Nat)
    (check : Handler Outcome → World → Bool) : Bool :=
  match play (Op.program app) (fun o v => guard o v.world) Tape.answer script v with
  | some v' =>
    match (o.program app).advance Tape.answer n v' with
    | some (rest, v'') => guard o v'.world && check rest v''.world
    | none => false
  | none => false

def Tape.checksFast (app : App) (guard : Op → World → Bool) (v : Tape) (script : List (Op × Nat)) (o : Op) (n : Nat)
    (check : Handler Outcome → World → Bool) : Bool :=
  match play (Op.program app) (fun o v => guard o v.world) Tape.fast script v with
  | some v' =>
    match (o.program app).advance Tape.fast n v' with
    | some (rest, v'') => guard o v'.world && check rest v''.world
    | none => false
  | none => false

theorem Tape.checks_eq (app : App) (guard : Op → World → Bool) (v : Tape) (script : List (Op × Nat)) (o : Op) (n : Nat)
    (check : Handler Outcome → World → Bool) : v.checks app guard script o n check = v.checksFast app guard script o n check := by
  unfold checks checksFast
  rw [answer_eq]

def Tape.checksThen (app : App) (guard : Op → World → Bool) (v : Tape) (script : List (Op × Nat)) (o : Op) (n : Nat)
    (check : Handler Outcome → World → Bool) (program : Handler Outcome) : Bool :=
  match play (Op.program app) (fun o v => guard o v.world) Tape.fast script v with
  | some v' =>
    match program.advance Tape.fast n v' with
    | some (rest, v'') => guard o v'.world && check rest v''.world
    | none => false
  | none => false

/-- The operation may be given by an equal program. -/
theorem Tape.checks_then {app : App} {guard : Op → World → Bool} {v : Tape} {script : List (Op × Nat)} {o : Op} {n : Nat}
    {check : Handler Outcome → World → Bool} {program : Handler Outcome} (same : o.program app = program) :
    v.checks app guard script o n check = v.checksThen app guard script o n check program := by
  rw [checks_eq]
  unfold checksFast checksThen
  rw [same]

theorem reaches_script (app : App) (admits : Op → World → Prop) (guard : Op → World → Bool) (v : Tape)
    (script : List (Op × Nat)) (o : Op) (n : Nat) (check : Handler Outcome → World → Bool) (start : v.world = World.empty)
    (admitted : ∀ o w, guard o w = true → admits o w) (holds : v.checks app guard script o n check = true) :
    ∃ p rest, Reaches (serial app admits) (Pool.fresh World.empty) p ∧
      p.threads script.length = some ⟨o, rest, false⟩ ∧ check rest p.world = true := by
  unfold Tape.checks at holds
  split at holds
  · next v' played =>
    split at holds
    · next rest v'' ran =>
      obtain ⟨guarded, holds⟩ := Bool.and_eq_true_iff.mp holds
      have fresh : (Pool.fresh World.empty : Pool).Idle := fun t th held => nomatch held
      obtain ⟨p, run, same, idle, unused⟩ := reaches_play (s := serial app admits) (k := 0)
        (fun _ _ _ _ _ => Tape.answer_sound) (fun o v => admitted o v.world) played fresh (fun _ _ => rfl) start.symm
      have final := reaches_start (s := serial app admits) (fun _ _ _ _ _ => Tape.answer_sound) (admitted _ _ guarded) ran idle
        (unused script.length (by simp)) same
      exact ⟨_, rest, run.trans final, Function.update_self .., holds⟩
    · cases holds
  · cases holds

/-- A script, an operation after it that is stopped after so many requests, and what is checked then. -/
structure Scripted (app : App) (admits : Op → World → Prop) where
  guard : Op → World → Bool := fun _ _ => true
  tape : Tape
  script : List (Op × Nat)
  op : Op
  requests : Nat
  check : Handler Outcome → World → Bool
  start : tape.world = World.empty
  admitted : ∀ o w, guard o w = true → admits o w
  holds : tape.checks app guard script op requests check = true

theorem Scripted.runs {app : App} {admits : Op → World → Prop} (s : Scripted app admits) :
    ∃ p rest, Reaches (serial app admits) (Pool.fresh World.empty) p ∧
      p.threads s.script.length = some ⟨s.op, rest, false⟩ ∧ s.check rest p.world = true :=
  reaches_script app admits s.guard s.tape s.script s.op s.requests s.check s.start s.admitted s.holds

/-- What a script and an operation that ends with one more request leave. -/
def Tape.finish (app : App) (guard : Op → World → Bool) (v : Tape) (script : List (Op × Nat)) (o : Op) (n : Nat) :
    Option (Except BrokerError Outcome × Tape) :=
  match play (Op.program app) (fun o v => guard o v.world) Tape.answer script v with
  | some v' =>
    if guard o v'.world then
      match (o.program app).advance Tape.answer n v' with
      | some (.call r next, v₁) =>
        match v₁.answer r with
        | some (reply, v₂) =>
          match next reply with
          | .done result => some (result, v₂)
          | .call .. => none
        | none => none
      | _ => none
    else none
  | none => none

def Tape.finishFast (app : App) (guard : Op → World → Bool) (v : Tape) (script : List (Op × Nat)) (o : Op) (n : Nat) :
    Option (Except BrokerError Outcome × Tape) :=
  match play (Op.program app) (fun o v => guard o v.world) Tape.fast script v with
  | some v' =>
    if guard o v'.world then
      match (o.program app).advance Tape.fast n v' with
      | some (.call r next, v₁) =>
        match v₁.fast r with
        | some (reply, v₂) =>
          match next reply with
          | .done result => some (result, v₂)
          | .call .. => none
        | none => none
      | _ => none
    else none
  | none => none

theorem Tape.finish_eq (app : App) (guard : Op → World → Bool) (v : Tape) (script : List (Op × Nat)) (o : Op) (n : Nat) :
    v.finish app guard script o n = v.finishFast app guard script o n := by
  unfold finish finishFast
  rw [answer_eq]

/-- The last step of such a run, from a state in which nothing runs. -/
theorem finish_from {app : App} {admits : Op → World → Prop} {guard : Op → World → Bool} {v v₂ : Tape}
    {script : List (Op × Nat)} {o : Op} {n : Nat} {result : Except BrokerError Outcome}
    (admitted : ∀ o w, guard o w = true → admits o w) (finished : v.finish app guard script o n = some (result, v₂))
    {p : Pool} {k : Nat} (resting : p.Idle) (free : ∀ t, k ≤ t → p.threads t = none) (start : p.world = v.world) :
    ∃ p₀ p₁, Reaches (serial app admits) p p₀ ∧ Step (serial app admits) p₀ p₁ ∧
      ¬ p₀.Returned (k + script.length) o result ∧ p₁.Returned (k + script.length) o result ∧ p₁.world = v₂.world ∧ p₁.Idle ∧
      ∀ t, k + script.length < t → p₁.threads t = none := by
  unfold Tape.finish at finished
  split at finished
  · next v' played =>
    split at finished
    · next guarded =>
      split at finished
      · next r next v₁ ran =>
        split at finished
        · next reply v₂' answered =>
          split at finished
          · next result' done =>
            obtain ⟨rfl, rfl⟩ := Prod.mk.inj (Option.some.inj finished)
            obtain ⟨p', run, same, idle, unused⟩ := reaches_play (s := serial app admits)
              (fun _ _ _ _ _ => Tape.answer_sound) (fun o v => admitted o v.world) played resting free start
            have last := reaches_start (s := serial app admits) (t := k + script.length) (fun _ _ _ _ _ => Tape.answer_sound)
              (admitted _ _ guarded) ran idle (unused _ (Nat.le_refl _)) same
            have held : Function.update p'.threads (k + script.length) (some ⟨o, .call r next, false⟩) (k + script.length) =
                some ⟨o, .call r next, false⟩ := Function.update_self ..
            have step := Step.answer (s := serial app admits) (p := ⟨v₁.world, Function.update p'.threads (k + script.length) _⟩)
              held rfl rfl (Tape.answer_sound answered)
            dsimp only at step
            rw [Function.update_idem, done] at step
            refine ⟨_, _, run.trans last, step, ?_, Function.update_self .., rfl, idle.update ?_, ?_⟩
            · simp [Interleaving.Pool.Returned]
            · exact fun running => running.2 result' rfl
            · intro t after
              exact (Function.update_of_ne (by omega) ..).trans (unused t (by omega))
          · cases finished
        · cases finished
      · cases finished
    · cases finished
  · cases finished

theorem reaches_finish {app : App} {admits : Op → World → Prop} {guard : Op → World → Bool} {v v₂ : Tape}
    {script : List (Op × Nat)} {o : Op} {n : Nat} {result : Except BrokerError Outcome} (start : v.world = World.empty)
    (admitted : ∀ o w, guard o w = true → admits o w) (finished : v.finish app guard script o n = some (result, v₂)) :
    ∃ p₀ p₁, Reaches (serial app admits) (Pool.fresh World.empty) p₀ ∧ Step (serial app admits) p₀ p₁ ∧
      ¬ p₀.Returned script.length o result ∧ p₁.Returned script.length o result ∧ p₁.world = v₂.world ∧ p₁.Idle ∧
      ∀ t, script.length < t → p₁.threads t = none := by
  have fresh : (Pool.fresh World.empty : Pool).Idle := fun t th held => nomatch held
  have ended := finish_from (k := 0) admitted finished fresh (fun _ _ => rfl) start.symm
  rwa [Nat.zero_add] at ended

/-- A script, an operation after it that ends with one more request, and what is checked then. -/
structure Finished (app : App) (guard : Op → World → Bool) where
  tape : Tape
  script : List (Op × Nat)
  op : Op
  requests : Nat
  check : Option (Except BrokerError Outcome × Tape) → Bool
  holds : check (tape.finish app guard script op requests) = true

def succeeded : Option (Except BrokerError Outcome × Tape) → Bool
  | some (.ok .done, _) => true
  | _ => false

theorem succeeded_cases {out : Option (Except BrokerError Outcome × Tape)} (h : succeeded out = true) :
    ∃ v, out = some (.ok .done, v) := by
  unfold succeeded at h
  split at h
  · exact ⟨_, rfl⟩
  · cases h

/-! ### A local broker -/

def localYaml : String := "RemoteForward:\n- RelayName: r\n  HostPort: 80\n"

/-- Users are signed in by a cookie that is their number; the first two administer the platform. -/
def localApp : App where
  dev := true
  publicUrl := "http://localhost/"
  publicOrigin := "http://localhost"
  secure := false
  callbackUrl := "http://localhost/auth/github/callback"
  allowedLocations := none
  github := false
  bootstrapAdminIds := [1, 2]
  sealWith _ _ := none
  openText token := (Text.parseU64 token).map fun id => .session ⟨⟨id, token, ""⟩, "csrf", 1⟩
  digest text := text
  digestPrefix _ := 0
  loopbackOrigin _ := false
  githubUri _ := false
  authorizationUrl _ _ _ := ""
  unicode := ⟨Char.isAlphanum, fun c => [c.toLower]⟩
  lowercase := Text.toAsciiLowercase
  yaml := {
    config := fun text => if text = localYaml then some ({ remoteForward := [{ relayName := "r", hostPort := some 80 }] }, []) else none
    value := fun text => if text = localYaml then
      some (.mapping [("RemoteForward", .sequence [.mapping [("RelayName", .scalar "r"), ("HostPort", .scalar "80")]])]) else none }

def browser (user : Nat) : Headers :=
  { cookie := [some ("azbridge_session=" ++ toString user)], csrfToken := [some "csrf"] }

/-- A UUID of one repeated digit. -/
def uniform (c : Char) (h : isHexLower c = true) : Uuid where
  digits := List.replicate 32 c
  size := List.length_replicate
  hex := by simp [h]

def localTape : Tape where
  world := .empty
  uuids := "0123456789abcdef".toList.filterMap fun c => if h : isHexLower c = true then some (uniform c h) else none
  secrets := [String.ofList (List.replicate 43 'A')]

theorem localTape_start : localTape.world = World.empty := rfl

def localWorkspace : String := "00000000-0000-0000-0000-000000000000"
def localProfile : String := "99999999-9999-9999-9999-999999999999"
def localGateway : String := "dddddddd-dddd-dddd-dddd-dddddddddddd"
def localNamespace : String := "azb-w-11111111111111111111111111111111"

/-- A workspace with one connection, and a profile of it that is published for one gateway. -/
def localScript : List (Op × Nat) :=
  [(.createWorkspace (browser 1) ⟨"w", "eastus"⟩, 99),
    (.createConnection (browser 1) localWorkspace "r", 99),
    (.createProfile (browser 1) localWorkspace "p", 99),
    (.createRevision (browser 1) localWorkspace localProfile localYaml, 99),
    (.publish (browser 1) localWorkspace localProfile ⟨1, none⟩, 99),
    (.createGateway (browser 1) localWorkspace (some ⟨"g", localProfile⟩), 99)]

/-- What the enrolled gateway sends. -/
def localDevice : Headers where
  authorization := [some ("Bearer azgw." ++ localWorkspace ++ "." ++ localGateway ++ "." ++ String.ofList (List.replicate 43 'A'))]

def localCredential : Credential where
  text := "azgw." ++ localWorkspace ++ "." ++ localGateway ++ "." ++ String.ofList (List.replicate 43 'A')
  workspace := localWorkspace
  gateway := localGateway

theorem split_credentialText {ws id secret : String} (first : '.' ∉ ws.toList) (second : '.' ∉ id.toList)
    (third : '.' ∉ secret.toList) : Text.split '.' (credentialText ws id secret) = ["azgw", ws, id, secret] := by
  have pieces : (credentialText ws id secret).toList = ['.'].intercalate ["azgw".toList, ws.toList, id.toList, secret.toList] := by
    simp [credentialText, List.intercalate]
  rw [Text.split, pieces, List.splitOn_intercalate]
  · simp
  · intro piece member dot
    simp only [List.mem_cons, List.not_mem_nil, or_false] at member
    rcases member with rfl | rfl | rfl | rfl
    · revert dot
      decide
    · exact first dot
    · exact second dot
    · exact third dot
  · simp

/-- What `mint` composes is what `bearer` takes apart. -/
theorem parseCredential_text {headers : Headers} {ws id secret : String}
    (presented : headers.authorization = [some ("Bearer " ++ credentialText ws id secret)]) (workspace : Uuid.isText ws = true)
    (gateway : Uuid.isText id = true) (size : base64UrlSize secret = some 32) (first : '.' ∉ ws.toList) (second : '.' ∉ id.toList)
    (third : '.' ∉ secret.toList) : parseCredential headers = some ⟨credentialText ws id secret, ws, id⟩ := by
  have pieces := split_credentialText first second third
  generalize credentialText ws id secret = text at presented pieces ⊢
  have stripped : Text.stripPrefix "Bearer " ("Bearer " ++ text) = some text := by
    simp [Text.stripPrefix]
  unfold parseCredential
  rw [presented]
  dsimp only
  rw [stripped]
  dsimp only
  rw [pieces]
  simp [workspace, gateway, size]

theorem parseCredential_local : parseCredential localDevice = some localCredential := by
  have text : "Bearer azgw." = "Bearer " ++ "azgw." := by decide
  have presented : localDevice.authorization =
      [some ("Bearer " ++ credentialText localWorkspace localGateway (String.ofList (List.replicate 43 'A')))] := by
    unfold localDevice credentialText
    rw [text]
    simp only [String.append_assoc]
  exact parseCredential_text presented (by decide +kernel) (by decide +kernel) (by decide +kernel) (by decide +kernel)
    (by decide +kernel) (by simp)

/-- What `bearer` does with the credential of the local gateway. -/
def localBearer : Handler (Entity Value × GatewayRecord) := do
  let entity ← okOr (← get .gateways localWorkspace localGateway) .unauthorized
  let record : GatewayRecord ← decode entity.data
  require (record.gateway.id == localGateway && !record.gateway.revoked &&
    constantTimeEqual localCredential.text record.credentialHash) .unauthorized
  let _ ← readyWorkspace localWorkspace
  return (entity, record)

theorem bearer_local : bearer localApp localDevice = localBearer := by
  unfold bearer
  rw [parseCredential_local]
  rfl

def localRecord : WorkspaceRecord := ⟨⟨localWorkspace, "w", localNamespace, "eastus", .ready, none⟩, 1⟩

def localExtra : Extra := { creatorMembershipInitialized := some true, attempts := some 0, retryable := some false }

/-- The gateway waits for its token, and the published profile is there. -/
def localChecks : Handler Outcome → World → Bool
  | .call (.issueToken ns relay right) _, w =>
    ns == localNamespace && relay == "r" && right == .listen &&
      w.ledger.value ⟨.profiles, localWorkspace, localProfile⟩ == some (.profile ⟨⟨localProfile, "p", some 1⟩, 2⟩) &&
      w.ledger.value (workspaceKey localWorkspace) == some (.workspace localRecord localExtra)
  | _, _ => false

def localTokens : Scripted localApp fun _ _ => True where
  tape := localTape
  script := localScript
  op := .relayToken localDevice (some ⟨"r", .listen⟩)
  requests := 9
  check := localChecks
  start := localTape_start
  admitted _ _ _ := trivial
  holds := by
    have relays : Op.program localApp (.relayToken localDevice (some ⟨"r", .listen⟩)) =
        Op.ignore (relayToken localApp localDevice (some ⟨"r", .listen⟩)) := rfl
    unfold relayToken at relays
    rw [bearer_local] at relays
    rw [Tape.checks_then relays]
    decide +kernel

theorem localScript_runs : ∃ p next, Reaches (serial localApp fun _ _ => True) (Pool.fresh World.empty) p ∧
    p.threads localScript.length = some ⟨.relayToken localDevice (some ⟨"r", .listen⟩),
      .call (.issueToken localNamespace "r" .listen) next, false⟩ ∧
    p.world.ledger.Profile localWorkspace localProfile ⟨⟨localProfile, "p", some 1⟩, 2⟩ ∧
    p.world.ledger.Workspace localWorkspace localRecord localExtra := by
  obtain ⟨p, rest, run, held, checked⟩ := localTokens.runs
  dsimp only [localTokens, localChecks] at checked
  split at checked
  · next ns relay right next =>
    simp only [Bool.and_eq_true, beq_iff_eq] at checked
    obtain ⟨⟨⟨⟨rfl, rfl⟩, rfl⟩, profile⟩, workspace⟩ := checked
    exact ⟨p, next, run, held, profile, workspace⟩
  · cases checked

end Azbridge.Broker
