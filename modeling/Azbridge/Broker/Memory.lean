import Azbridge.Broker.Store

/-!
# The in-memory metadata store over a run

The operations as they change the state behind the lock: what a failing one has changed by then stays
changed. They agree with the store of whole operations, in which every state keeps its invariant.
-/

namespace Azbridge.Broker

/-- What the lock guards. -/
structure MemoryState (V : Type) where
  entities : AList fun _ : Key => Entity V
  version : Nat

namespace MemoryState
variable {V : Type}

def empty : MemoryState V := ⟨∅, 0⟩

abbrev Action (V α : Type) := EStateM BrokerError (MemoryState V) α

def check (result : Except BrokerError Unit) : Action V Unit :=
  match result with
  | .ok _ => pure ()
  | .error error => throw error

def memoryEntity (k : Key) (data : V) : Action V (Entity V) := do
  let state ← MonadState.get
  if state.version + 1 < Text.u64 then
    set { state with version := state.version + 1 }
    return ⟨k.partition, k.row, data, etagOf (state.version + 1)⟩
  else throw .unavailable

def get (table : Table) (partition row : String) : Action V (Option (Entity V)) := do
  check (validateKey partition)
  check (validateKey row)
  return (← MonadState.get).entities.lookup ⟨table, partition, row⟩

def insert (table : Table) (partition row : String) (data : V) : Action V (Entity V) := do
  check (validateKey partition)
  check (validateKey row)
  let k : Key := ⟨table, partition, row⟩
  match (← MonadState.get).entities.lookup k with
  | some _ => throw .conflict
  | none =>
    let entity ← memoryEntity k data
    modify fun state => { state with entities := state.entities.insert k entity }
    return entity

def replace (table : Table) (partition row : String) (data : V) (etag : String) : Action V (Entity V) := do
  check (validateKey partition)
  check (validateKey row)
  check (validateEtag etag)
  let k : Key := ⟨table, partition, row⟩
  match (← MonadState.get).entities.lookup k with
  | none => throw .notFound
  | some existing =>
    if existing.etag ≠ etag then throw .conflict
    else
      let entity ← memoryEntity k data
      modify fun state => { state with entities := state.entities.insert k entity }
      return entity

def delete (table : Table) (partition row etag : String) : Action V Unit := do
  check (validateKey partition)
  check (validateKey row)
  check (validateEtag etag)
  let k : Key := ⟨table, partition, row⟩
  match (← MonadState.get).entities.lookup k with
  | none => throw .notFound
  | some existing =>
    if existing.etag ≠ etag then throw .conflict
    else modify fun state => { state with entities := state.entities.erase k }

def list (table : Table) (partition : String) : Action V (List (Entity V)) := do
  check (validateKey partition)
  let state ← MonadState.get
  return (state.entities.entries.filter fun x => x.1.table = table ∧ x.1.partition = partition).map (·.2)

/-- The end of both kinds of writes. -/
def write (k : Key) (data : V) : Action V (Entity V) := do
  let entity ← memoryEntity k data
  modify fun state => { state with entities := state.entities.insert k entity }
  return entity

end MemoryState

/-! ### Runs -/

inductive MemoryOp (V : Type) where
  | get (table : Table) (partition row : String)
  | insert (table : Table) (partition row : String) (data : V)
  | replace (table : Table) (partition row : String) (data : V) (etag : String)
  | delete (table : Table) (partition row etag : String)
  | list (table : Table) (partition : String)

inductive MemoryReply (V : Type) where
  | found (entity : Option (Entity V))
  | written (entity : Entity V)
  | deleted
  | listed (entities : List (Entity V))

namespace MemoryOp
variable {V : Type}

def action : MemoryOp V → MemoryState.Action V (MemoryReply V)
  | get table partition row => return .found (← MemoryState.get table partition row)
  | insert table partition row data => return .written (← MemoryState.insert table partition row data)
  | replace table partition row data etag => return .written (← MemoryState.replace table partition row data etag)
  | delete table partition row etag => do
    MemoryState.delete table partition row etag
    return .deleted
  | list table partition => return .listed (← MemoryState.list table partition)

def perform (op : MemoryOp V) (state : MemoryState V) : Except BrokerError (MemoryReply V) × MemoryState V :=
  match op.action state with
  | .ok reply state' => (.ok reply, state')
  | .error error state' => (.error error, state')

def key : MemoryOp V → Option Key
  | insert table partition row _ => some ⟨table, partition, row⟩
  | replace table partition row _ _ => some ⟨table, partition, row⟩
  | delete table partition row _ => some ⟨table, partition, row⟩
  | _ => none

/-- The same operation on the store of whole operations. -/
def answer (store : MemoryMetadata V) : MemoryOp V → Except BrokerError (MemoryReply V × MemoryMetadata V)
  | get table partition row => (store.get table partition row).map fun found => (.found found, store)
  | insert table partition row data =>
    (store.insert table partition row data).map fun result => (.written result.1, result.2)
  | replace table partition row data etag =>
    (store.replace table partition row data etag).map fun result => (.written result.1, result.2)
  | delete table partition row etag => (store.delete table partition row etag).map fun result => (.deleted, result.2)
  | list table partition => (store.list table partition).map fun entities => (.listed entities, store)

end MemoryOp

/-- Operations with their outcomes, the last one first. -/
abbrev MemoryHistory (V : Type) := List (MemoryOp V × Except BrokerError (MemoryReply V))

inductive Performed {V : Type} : MemoryHistory V → MemoryState V → Prop
  | start : Performed [] .empty
  | next {history : MemoryHistory V} {state : MemoryState V} (op : MemoryOp V) :
    Performed history state → Performed ((op, (op.perform state).1) :: history) (op.perform state).2

namespace MemoryHistory
variable {V : Type}

/-- What the last write of the key returned, unless it was deleted since. -/
def current (k : Key) : MemoryHistory V → Option (Entity V)
  | [] => none
  | (op, outcome) :: earlier =>
    if op.key = some k then
      match outcome with
      | .ok (.written entity) => some entity
      | .ok .deleted => none
      | _ => current k earlier
    else current k earlier

def etags : Except BrokerError (MemoryReply V) → List String
  | .ok (.found entity) => (entity.map (·.etag)).toList
  | .ok (.written entity) => [entity.etag]
  | .ok (.listed entities) => entities.map (·.etag)
  | _ => []

/-- How many writes succeeded. -/
def writes : MemoryHistory V → Nat
  | [] => 0
  | (_, .ok (.written _)) :: earlier => writes earlier + 1
  | _ :: earlier => writes earlier

end MemoryHistory

/-! ### Agreement with whole operations -/

namespace MemoryMetadata
variable {V : Type} {store : MemoryMetadata V}

def state (store : MemoryMetadata V) : MemoryState V := ⟨store.entities, store.version⟩

/-- How an action ends where the whole operation gives a result, or an error. -/
def ended {α : Type} (store : MemoryMetadata V) :
    Except BrokerError (α × MemoryMetadata V) → EStateM.Result BrokerError (MemoryState V) α
  | .ok (result, store') => .ok result store'.state
  | .error error => .error error store.state

theorem run_get (t : Table) (p r : String) :
    MemoryState.get t p r store.state = store.ended ((store.get t p r).map fun found => (found, store)) := by
  unfold MemoryState.get MemoryMetadata.get
  rcases validateKey_cases p with first | first <;> rcases validateKey_cases r with second | second <;>
  · rw [first, second]
    rfl

theorem run_list (t : Table) (p : String) :
    MemoryState.list t p store.state = store.ended ((store.list t p).map fun found => (found, store)) := by
  unfold MemoryState.list MemoryMetadata.list
  rcases validateKey_cases p with valid | valid
  · rw [valid]
    rfl
  · rw [valid]
    rfl

theorem memoryEntity_run (k : Key) (data : V) (state : MemoryState V) : MemoryState.memoryEntity k data state =
    if state.version + 1 < Text.u64 then
      .ok ⟨k.partition, k.row, data, etagOf (state.version + 1)⟩ { state with version := state.version + 1 }
    else .error .unavailable state := by
  show (ite (state.version + 1 < Text.u64) _ _ : MemoryState.Action V (Entity V)) state = _
  split
  · rfl
  · rfl

theorem run_write (k : Key) (data : V) (valid : validateKey k.partition = .ok () ∧ validateKey k.row = .ok ()) :
    MemoryState.write k data store.state = store.ended (store.memoryEntity k data valid) := by
  have counted : store.state.version = store.version := rfl
  unfold MemoryState.write MemoryMetadata.memoryEntity
  simp only [bind, EStateM.bind, memoryEntity_run, counted]
  by_cases room : store.version + 1 < Text.u64
  · rw [if_pos room, if_pos room]
    rfl
  · rw [if_neg room, if_neg room]
    rfl

section Valid
variable {t : Table} {p r etag : String} {data : V} {state : MemoryState V} (partition : validateKey p = .ok ())
  (row : validateKey r = .ok ())
include partition row

theorem insert_of_valid : MemoryState.insert t p r data state =
    (match state.entities.lookup ⟨t, p, r⟩ with
      | some _ => throw .conflict
      | none => MemoryState.write ⟨t, p, r⟩ data : MemoryState.Action V (Entity V)) state := by
  unfold MemoryState.insert
  rw [partition, row]
  rfl

theorem replace_of_valid (tag : validateEtag etag = .ok ()) : MemoryState.replace t p r data etag state =
    (match state.entities.lookup ⟨t, p, r⟩ with
      | none => throw .notFound
      | some existing =>
        if existing.etag ≠ etag then throw .conflict
        else MemoryState.write ⟨t, p, r⟩ data : MemoryState.Action V (Entity V)) state := by
  unfold MemoryState.replace
  rw [partition, row, tag]
  rfl

theorem delete_of_valid (tag : validateEtag etag = .ok ()) : MemoryState.delete t p r etag state =
    (match state.entities.lookup ⟨t, p, r⟩ with
      | none => throw .notFound
      | some existing =>
        if existing.etag ≠ etag then throw .conflict
        else modify fun state => { state with entities := state.entities.erase ⟨t, p, r⟩ } :
      MemoryState.Action V Unit) state := by
  unfold MemoryState.delete
  rw [partition, row, tag]
  rfl

end Valid

theorem run_insert (t : Table) (p r : String) (data : V) :
    MemoryState.insert t p r data store.state = store.ended (store.insert t p r data) := by
  unfold MemoryMetadata.insert
  by_cases valid : validateKey p = .ok () ∧ validateKey r = .ok ()
  · rw [dif_pos valid, insert_of_valid valid.1 valid.2]
    have sought : store.state.entities.lookup ⟨t, p, r⟩ = store.lookup ⟨t, p, r⟩ := rfl
    rw [sought]
    cases store.lookup ⟨t, p, r⟩ with
    | some old => rfl
    | none => exact run_write _ data valid
  · rw [dif_neg valid]
    unfold MemoryState.insert
    rcases validateKey_cases p with first | first
    · have second := (validateKey_cases r).resolve_left fun second => valid ⟨first, second⟩
      rw [first, second]
      rfl
    · rw [first]
      rfl

theorem run_replace (t : Table) (p r : String) (data : V) (etag : String) :
    MemoryState.replace t p r data etag store.state = store.ended (store.replace t p r data etag) := by
  unfold MemoryMetadata.replace
  by_cases valid : validateKey p = .ok () ∧ validateKey r = .ok ()
  · rw [dif_pos valid]
    rcases validateEtag_cases etag with tag | tag
    · rw [replace_of_valid valid.1 valid.2 tag]
      have sought : store.state.entities.lookup ⟨t, p, r⟩ = store.lookup ⟨t, p, r⟩ := rfl
      rw [sought, tag]
      simp only [bind, Except.bind]
      cases store.lookup ⟨t, p, r⟩ with
      | none => rfl
      | some old =>
        by_cases same : old.etag = etag
        · simpa [same] using run_write _ data valid
        · simp only [same, ne_eq, not_false_eq_true, if_true]
          rfl
    · unfold MemoryState.replace
      rw [valid.1, valid.2, tag]
      rfl
  · rw [dif_neg valid]
    unfold MemoryState.replace
    rcases validateKey_cases p with first | first
    · have second := (validateKey_cases r).resolve_left fun second => valid ⟨first, second⟩
      rw [first, second]
      rfl
    · rw [first]
      rfl

theorem run_delete (t : Table) (p r etag : String) :
    MemoryState.delete t p r etag store.state = store.ended (store.delete t p r etag) := by
  unfold MemoryMetadata.delete
  rcases validateKey_cases p with first | first
  · rcases validateKey_cases r with second | second
    · rcases validateEtag_cases etag with tag | tag
      · rw [delete_of_valid first second tag, first, second, tag]
        have sought : store.state.entities.lookup ⟨t, p, r⟩ = store.lookup ⟨t, p, r⟩ := rfl
        rw [sought]
        simp only [bind, Except.bind]
        cases store.lookup ⟨t, p, r⟩ with
        | none => rfl
        | some old =>
          by_cases same : old.etag = etag
          · simp only [same, ne_eq, not_true_eq_false, if_false]
            rfl
          · simp only [same, ne_eq, not_false_eq_true, if_true]
            rfl
      · unfold MemoryState.delete
        rw [first, second, tag]
        rfl
    · unfold MemoryState.delete
      rw [first, second]
      rfl
  · unfold MemoryState.delete
    rw [first]
    rfl

theorem perform_state (store : MemoryMetadata V) (op : MemoryOp V) :
    op.perform store.state = match op.answer store with
      | .ok (reply, store') => (.ok reply, store'.state)
      | .error error => (.error error, store.state) := by
  have lift {α : Type} {action : MemoryState.Action V α} {result : Except BrokerError (α × MemoryMetadata V)}
      (reply : α → MemoryReply V) (ran : action store.state = store.ended result) :
      (match (do return reply (← action) : MemoryState.Action V (MemoryReply V)) store.state with
        | .ok found state' => ((.ok found, state') : Except BrokerError (MemoryReply V) × MemoryState V)
        | .error error state' => (.error error, state')) =
      match result.map fun found => (reply found.1, found.2) with
        | .ok (found, store') => (.ok found, store'.state)
        | .error error => (.error error, store.state) := by
    simp only [bind, EStateM.bind, ran]
    cases result with
    | ok found => rfl
    | error error => rfl
  cases op with
  | get t p r =>
    refine (lift .found (run_get t p r)).trans ?_
    simp only [MemoryOp.answer]
    cases store.get t p r <;> rfl
  | insert t p r data => exact lift .written (run_insert t p r data)
  | replace t p r data etag => exact lift .written (run_replace t p r data etag)
  | delete t p r etag => exact lift (fun _ => .deleted) (run_delete t p r etag)
  | list t p =>
    refine (lift .listed (run_list t p)).trans ?_
    simp only [MemoryOp.answer]
    cases store.list t p <;> rfl

/-- What an operation does if it succeeds. -/
structure Answered (store : MemoryMetadata V) (op : MemoryOp V) (reply : MemoryReply V) (store' : MemoryMetadata V) :
    Prop where
  version : store'.version = match reply with | .written _ => store.version + 1 | _ => store.version
  current : ∀ k, store'.lookup k = if op.key = some k then
    match reply with | .written entity => some entity | .deleted => none | _ => store.lookup k else store.lookup k
  stamped : ∀ etag ∈ MemoryHistory.etags (.ok reply), ∃ n, n ≤ store'.version ∧ etag = etagOf n
  fresh : ∀ entity, reply = .written entity → entity.etag = etagOf store'.version

theorem Stored.answered {store' : MemoryMetadata V} {op : MemoryOp V} {k : Key} {e : Entity V} (named : op.key = some k)
    (next : store'.version = store.version + 1) (stored : Stored store store' k e) :
    Answered store op (.written e) store' := by
  refine ⟨next, fun k' => ?_, fun etag member => ?_, fun entity same => ?_⟩
  · rw [named]
    by_cases same : k = k'
    · simpa [same] using same ▸ stored.written
    · simpa [same] using stored.others k' (Ne.symm same)
  · obtain rfl := List.mem_singleton.mp member
    exact ⟨store'.version, Nat.le_refl _, stored.etag⟩
  · cases same
    exact stored.etag

theorem map_ok {α β : Type} {f : α → β} {result : Except BrokerError α} {b : β} (h : result.map f = .ok b) :
    ∃ a, result = .ok a ∧ f a = b := by
  cases result with
  | error error => cases h
  | ok a => exact ⟨a, rfl, Except.ok.inj h⟩

theorem answer_ok {store' : MemoryMetadata V} {op : MemoryOp V} {reply : MemoryReply V}
    (h : op.answer store = .ok (reply, store')) : Answered store op reply store' := by
  cases op with
  | get t p r =>
    obtain ⟨found, got, same⟩ := map_ok h
    cases same
    refine ⟨rfl, fun k => by simp [MemoryOp.key], fun etag member => ?_, nofun⟩
    obtain ⟨e, held, rfl⟩ : ∃ e, found = some e ∧ e.etag = etag := by
      simpa [MemoryHistory.etags] using member
    exact store.stamped _ e ((get_ok got).symm.trans held)
  | insert t p r data =>
    obtain ⟨⟨e, next⟩, done, same⟩ := map_ok h
    cases same
    exact (insert_ok done).2.2.answered rfl (insert_version done)
  | replace t p r data etag =>
    obtain ⟨⟨e, next⟩, done, same⟩ := map_ok h
    cases same
    exact (replace_ok done).2.2.answered rfl (replace_version done)
  | delete t p r etag =>
    obtain ⟨⟨_, next⟩, done, same⟩ := map_ok h
    cases same
    obtain ⟨-, rfl⟩ := delete_ok done
    refine ⟨rfl, fun k => ?_, nofun, nofun⟩
    by_cases named : (⟨t, p, r⟩ : Key) = k
    · subst named
      simp [MemoryOp.key]
    · simpa [MemoryOp.key, named] using lookup_erase_other (Ne.symm named)
  | list t p =>
    obtain ⟨found, got, same⟩ := map_ok h
    cases same
    refine ⟨rfl, fun k => by simp [MemoryOp.key], fun etag member => ?_, nofun⟩
    obtain ⟨e, listed, rfl⟩ := List.mem_map.mp member
    exact store.stamped _ e (((list_ok got).mem e).mp listed).2

end MemoryMetadata

/-! ### Every run -/

/-- The store that a run has reached. -/
structure Reached {V : Type} (history : MemoryHistory V) (store : MemoryMetadata V) : Prop where
  version : store.version = history.writes
  current : ∀ k, store.lookup k = history.current k
  stamped : ∀ event ∈ history, ∀ etag ∈ MemoryHistory.etags event.2, ∃ n, n ≤ store.version ∧ etag = etagOf n

theorem Reached.next {V : Type} {history : MemoryHistory V} {store : MemoryMetadata V} (reached : Reached history store)
    (op : MemoryOp V) : ∃ store', (op.perform store.state).2 = store'.state ∧
      Reached ((op, (op.perform store.state).1) :: history) store' := by
  rw [MemoryMetadata.perform_state]
  cases answered : op.answer store with
  | error error =>
    refine ⟨store, rfl, ⟨reached.version, fun k => ?_, fun event member => ?_⟩⟩
    · show store.lookup k = if op.key = some k then history.current k else history.current k
      rw [ite_self]
      exact reached.current k
    · rcases List.mem_cons.mp member with rfl | earlier
      · nofun
      · exact reached.stamped event earlier
  | ok result =>
    obtain ⟨reply, store'⟩ := result
    have step := MemoryMetadata.answer_ok answered
    refine ⟨store', rfl, ⟨?_, fun k => ?_, fun event member => ?_⟩⟩
    · rw [step.version, reached.version]
      cases reply <;> rfl
    · rw [step.current k, reached.current k]
      cases reply <;> rfl
    · rcases List.mem_cons.mp member with rfl | earlier
      · exact step.stamped
      · intro etag carried
        obtain ⟨n, bound, stamp⟩ := reached.stamped event earlier etag carried
        have grows : store.version ≤ store'.version := by
          rw [step.version]
          cases reply <;> simp
        exact ⟨n, Nat.le_trans bound grows, stamp⟩

theorem Performed.reached {V : Type} {history : MemoryHistory V} {state : MemoryState V} (ran : Performed history state) :
    ∃ store : MemoryMetadata V, state = store.state ∧ Reached history store := by
  induction ran with
  | start =>
    refine ⟨.empty, rfl, rfl, fun k => AList.lookup_empty k, ?_⟩
    rintro event ⟨⟩
  | next op _ ih =>
    obtain ⟨store, rfl, reached⟩ := ih
    exact reached.next op

def MemoryOp.conditional {V : Type} : MemoryOp V → Option (Key × String)
  | .replace table partition row _ etag => some (⟨table, partition, row⟩, etag)
  | .delete table partition row etag => some (⟨table, partition, row⟩, etag)
  | _ => none

def MemoryOp.isDelete {V : Type} : MemoryOp V → Bool
  | .delete .. => true
  | _ => false

/-- What callers rely on of one operation, after any run. -/
structure KeepsContract {V : Type} (history : MemoryHistory V) (state : MemoryState V) (op : MemoryOp V) : Prop where
  swaps : ∀ k etag, op.conditional = some (k, etag) → validateKey k.partition = .ok () → validateKey k.row = .ok () →
    validateEtag etag = .ok () → ((∃ reply, (op.perform state).1 = .ok reply) ↔
      (∃ entity, history.current k = some entity ∧ entity.etag = etag) ∧
        (op.isDelete = true ∨ history.writes + 1 < 2 ^ 64))
  fresh : ∀ entity, (op.perform state).1 = .ok (.written entity) →
    ∀ event ∈ history, entity.etag ∉ MemoryHistory.etags event.2
  unchanged : ∀ error, (op.perform state).1 = .error error → (op.perform state).2 = state

theorem MemoryMetadata.delete_of_lookup {V : Type} {store : MemoryMetadata V} {e : Entity V} {t : Table} {p r : String}
    (partition : validateKey p = .ok ()) (row : validateKey r = .ok ()) (tag : validateEtag e.etag = .ok ())
    (h : store.lookup ⟨t, p, r⟩ = some e) : store.delete t p r e.etag = .ok ((), store.erase ⟨t, p, r⟩) := by
  unfold delete
  rw [partition, row, tag]
  simp [bind, Except.bind, h]

/-- A write that goes through has had a version left. -/
theorem MemoryMetadata.replace_room {V : Type} {store store' : MemoryMetadata V} {e : Entity V} {t : Table}
    {p r etag : String} {data : V} (h : store.replace t p r data etag = .ok (e, store')) :
    store.version + 1 < Text.u64 := by
  unfold replace at h
  split at h
  · rcases validateEtag_cases etag with tag | tag
    · rw [tag] at h
      simp only [bind, Except.bind] at h
      split at h
      · cases h
      · split at h
        · cases h
        · unfold memoryEntity at h
          split at h
          · next room => exact room
          · cases h
    · rw [tag] at h
      cases h
  · cases h

theorem Reached.swaps {V : Type} {history : MemoryHistory V} {store : MemoryMetadata V} (reached : Reached history store)
    {op : MemoryOp V} {k : Key} {etag : String} (named : op.conditional = some (k, etag))
    (partition : validateKey k.partition = .ok ()) (row : validateKey k.row = .ok ()) (tag : validateEtag etag = .ok ()) :
    (∃ result, op.answer store = .ok result) ↔ (∃ entity, history.current k = some entity ∧ entity.etag = etag) ∧
      (op.isDelete = true ∨ history.writes + 1 < 2 ^ 64) := by
  rw [← reached.current k, ← reached.version]
  cases op with
  | replace t p r data e =>
    cases named
    constructor
    · rintro ⟨result, answered⟩
      obtain ⟨⟨written, next⟩, done, -⟩ := MemoryMetadata.map_ok answered
      exact ⟨(MemoryMetadata.replace_ok done).1, .inr (MemoryMetadata.replace_room done)⟩
    · rintro ⟨⟨entity, held, rfl⟩, room⟩
      have left := room.resolve_left (by simp [MemoryOp.isDelete])
      obtain ⟨written, next, done⟩ : ∃ written next, store.replace t p r data entity.etag = .ok (written, next) :=
        MemoryMetadata.replace_of_lookup held left
      exact ⟨_, by rw [MemoryOp.answer, done]; rfl⟩
  | delete t p r e =>
    cases named
    constructor
    · rintro ⟨result, answered⟩
      obtain ⟨⟨_, next⟩, done, -⟩ := MemoryMetadata.map_ok answered
      exact ⟨(MemoryMetadata.delete_ok done).1, .inl rfl⟩
    · rintro ⟨⟨entity, held, rfl⟩, -⟩
      exact ⟨_, by rw [MemoryOp.answer, MemoryMetadata.delete_of_lookup partition row tag held]; rfl⟩
  | _ => cases named

theorem memory_keeps_contract {V : Type} {history : MemoryHistory V} {state : MemoryState V}
    (ran : Performed history state) (op : MemoryOp V) : KeepsContract history state op := by
  obtain ⟨store, rfl, reached⟩ := ran.reached
  have performed := MemoryMetadata.perform_state store op
  refine ⟨fun k etag named partition row tag => ?_, fun entity written => ?_, fun error failed => ?_⟩
  · rw [performed, ← reached.swaps named partition row tag]
    cases op.answer store with
    | ok result => exact ⟨fun _ => ⟨result, rfl⟩, fun _ => ⟨result.1, rfl⟩⟩
    | error error => exact ⟨nofun, nofun⟩
  · rw [performed] at written
    cases answered : op.answer store with
    | error error =>
      rw [answered] at written
      cases written
    | ok result =>
      obtain ⟨reply, store'⟩ := result
      rw [answered] at written
      cases written
      have step := MemoryMetadata.answer_ok answered
      intro event member carried
      obtain ⟨n, bound, stamp⟩ := reached.stamped event member _ carried
      have same : n = store'.version := etagOf_injective (stamp.symm.trans (step.fresh entity rfl))
      have next : store'.version = store.version + 1 := step.version
      omega
  · rw [performed] at failed ⊢
    cases answered : op.answer store with
    | error error => rfl
    | ok result =>
      rw [answered] at failed
      cases failed

/-- A first write and a replacement. -/
theorem memory_keeps_contract_local :
    KeepsContract [(MemoryOp.insert .audit "p" "r" 1, .ok (.written ⟨"p", "r", 1, "\"1\""⟩))]
      (MemoryOp.perform (.insert .audit "p" "r" 1) .empty).2 (.replace .audit "p" "r" 2 "\"1\"") := by
  have ran : Performed [(MemoryOp.insert .audit "p" "r" 1, (MemoryOp.perform (.insert .audit "p" "r" 1) .empty).1)]
      (MemoryOp.perform (.insert .audit "p" "r" 1) .empty).2 := .next _ .start
  exact memory_keeps_contract ran (.replace .audit "p" "r" 2 "\"1\"")

theorem Reached.replaced {V : Type} {history : MemoryHistory V} {store : MemoryMetadata V} (reached : Reached history store)
    {t : Table} {p r : String} {e : Entity V} (data : V) (held : history.current ⟨t, p, r⟩ = some e)
    (room : history.writes + 1 < 2 ^ 64) : ∃ state, (MemoryOp.replace t p r data e.etag).perform store.state =
      (.ok (.written ⟨p, r, data, etagOf (history.writes + 1)⟩), state) := by
  have last : store.lookup ⟨t, p, r⟩ = some e := (reached.current _).trans held
  have left : store.version + 1 < Text.u64 := by
    rw [reached.version]
    exact room
  obtain ⟨entity, next, done⟩ := @MemoryMetadata.replace_of_lookup V store e t p r data last left
  obtain ⟨-, content, stored⟩ := MemoryMetadata.replace_ok done
  have written : entity = ⟨p, r, data, etagOf (history.writes + 1)⟩ := by
    have stamp := stored.etag
    rw [MemoryMetadata.replace_version done, reached.version] at stamp
    have partition : entity.partitionKey = p := stored.partitionKey
    have row : entity.rowKey = r := stored.rowKey
    rw [← partition, ← row, ← stamp, ← content]
  refine ⟨next.state, ?_⟩
  rw [MemoryMetadata.perform_state, MemoryOp.answer, done, ← written]
  rfl

/-- As many writes of one row as there are versions. -/
theorem exhausting (n : Nat) (room : n + 1 < 2 ^ 64) : ∃ history state, Performed (V := Unit) history state ∧
    history.writes = n + 1 ∧ history.current ⟨.audit, "p", "r"⟩ = some ⟨"p", "r", (), etagOf (n + 1)⟩ := by
  induction n with
  | zero => exact ⟨_, _, .next (.insert .audit "p" "r" ()) .start, by decide +kernel, by decide +kernel⟩
  | succ n ih =>
    obtain ⟨history, state, ran, count, held⟩ := ih (by omega)
    obtain ⟨store, rfl, reached⟩ := ran.reached
    generalize (⟨"p", "r", (), etagOf (n + 1)⟩ : Entity Unit) = e at held
    obtain ⟨next, performed⟩ := reached.replaced () held (by omega)
    have later := ran.next (.replace .audit "p" "r" () e.etag)
    rw [performed] at later
    refine ⟨_, next, later, congrArg (· + 1) count, ?_⟩
    rw [← count]
    exact if_pos rfl

theorem last_version_not_replaced : ¬ ∀ (history : MemoryHistory Unit) (state : MemoryState Unit), Performed history state →
    ∀ table partition row data etag, validateKey partition = .ok () → validateKey row = .ok () →
      validateEtag etag = .ok () →
      ((∃ reply, ((MemoryOp.replace table partition row data etag).perform state).1 = .ok reply) ↔
        ∃ entity, history.current ⟨table, partition, row⟩ = some entity ∧ entity.etag = etag) := by
  intro swaps
  obtain ⟨history, state, ran, count, held⟩ := exhausting (2 ^ 64 - 2) (by decide)
  obtain ⟨store, rfl, reached⟩ := ran.reached
  have partition : validateKey "p" = .ok () := by decide +kernel
  have row : validateKey "r" = .ok () := by decide +kernel
  have tag := validateEtag_etagOf (2 ^ 64 - 2 + 1)
  obtain ⟨reply, replaced⟩ := (swaps history store.state ran .audit "p" "r" () _ partition row tag).mpr ⟨_, held, rfl⟩
  rw [MemoryMetadata.perform_state] at replaced
  have named : (MemoryOp.replace .audit "p" "r" () (etagOf (2 ^ 64 - 2 + 1))).conditional =
    some (⟨.audit, "p", "r"⟩, etagOf (2 ^ 64 - 2 + 1)) := rfl
  have answered : ∃ result, (MemoryOp.replace .audit "p" "r" () (etagOf (2 ^ 64 - 2 + 1))).answer store = .ok result := by
    cases answer : (MemoryOp.replace .audit "p" "r" () (etagOf (2 ^ 64 - 2 + 1))).answer store with
    | ok result => exact ⟨result, rfl⟩
    | error error =>
      rw [answer] at replaced
      cases replaced
  have left := ((reached.swaps named partition row tag).mp answered).2.resolve_left (by simp [MemoryOp.isDelete])
  omega

end Azbridge.Broker
