import Mathlib.Data.List.AList
import Azbridge.Broker.Models

/-!
# Storage

ETag-conditional metadata and immutable YAML revisions: the in-memory stores, which define what
the storage traits promise. A `MemoryMetadata` carries the two facts every caller leans on, that
rows sit under their own keys and that no ETag is ahead of the version counter.
-/

namespace Azbridge.Broker

/-- Exact Azure Table Storage names. -/
inductive Table where
  | workspaces | members | userWorkspaces | platformAdmins | connections | profiles | gateways
  | enrollments | audit | revisionMetadata
  deriving DecidableEq, Repr

structure Key where
  table : Table
  partition : String
  row : String
  deriving DecidableEq, Repr

structure Entity (V : Type) where
  partitionKey : String
  rowKey : String
  data : V
  etag : String
  deriving DecidableEq, Repr

def validateKey (key : String) : Except BrokerError Unit :=
  if key.isEmpty ∨ key.utf8ByteSize > 1024 ∨
      key.toList.any (fun c => Text.isControl c || ['/', '\\', '#', '?'].contains c) then
    .error .badRequest
  else .ok ()

/-- `HeaderValue::from_str` accepts the character. -/
def headerChar (c : Char) : Bool := (0x20 ≤ c.toNat && c.toNat != 0x7f) || c == '\t'

def validateEtag (etag : String) : Except BrokerError Unit :=
  let quoted := ((Text.stripPrefix "W/" etag).getD etag).toList
  if quoted.length < 2 ∨ quoted.head? ≠ some '"' ∨ quoted.getLast? ≠ some '"' ∨
      '"' ∈ (quoted.drop 1).dropLast ∨ ¬ etag.toList.all headerChar = true then
    .error .badRequest
  else .ok ()

example : validateEtag "\"é\"" = .ok () := by decide

/-- The ETag of the write that made the version counter `n`. -/
def etagOf (n : Nat) : String := "\"" ++ toString n ++ "\""

structure MemoryMetadata (V : Type) where
  entities : AList fun _ : Key => Entity V
  version : Nat
  keyed : ∀ k e, entities.lookup k = some e → e.partitionKey = k.partition ∧ e.rowKey = k.row
  valid : ∀ k e, entities.lookup k = some e →
    validateKey k.partition = .ok () ∧ validateKey k.row = .ok ()
  stamped : ∀ k e, entities.lookup k = some e → ∃ n, n ≤ version ∧ e.etag = etagOf n

namespace MemoryMetadata
variable {V : Type}

def empty : MemoryMetadata V := ⟨∅, 0, by simp, by simp, by simp⟩

def lookup (s : MemoryMetadata V) (k : Key) : Option (Entity V) := s.entities.lookup k

/-- Store the entity under its key, stamped with the next version. -/
def memoryEntity (s : MemoryMetadata V) (k : Key) (data : V)
    (valid : validateKey k.partition = .ok () ∧ validateKey k.row = .ok ()) :
    Except BrokerError (Entity V × MemoryMetadata V) :=
  if s.version + 1 < Text.u64 then
    let entity : Entity V := ⟨k.partition, k.row, data, etagOf (s.version + 1)⟩
    .ok (entity, {
      entities := s.entities.insert k entity
      version := s.version + 1
      keyed := by
        intro k' e held
        by_cases same : k' = k
        · subst same
          rw [AList.lookup_insert, Option.some.injEq] at held
          subst held
          exact ⟨rfl, rfl⟩
        · rw [AList.lookup_insert_ne same] at held
          exact s.keyed k' e held
      valid := by
        intro k' e held
        by_cases same : k' = k
        · exact same ▸ valid
        · rw [AList.lookup_insert_ne same] at held
          exact s.valid k' e held
      stamped := by
        intro k' e held
        by_cases same : k' = k
        · subst same
          rw [AList.lookup_insert, Option.some.injEq] at held
          subst held
          exact ⟨s.version + 1, Nat.le_refl _, rfl⟩
        · rw [AList.lookup_insert_ne same] at held
          obtain ⟨n, bound, stamp⟩ := s.stamped k' e held
          exact ⟨n, Nat.le_succ_of_le bound, stamp⟩ })
  else .error .unavailable

def get (s : MemoryMetadata V) (table : Table) (partition row : String) :
    Except BrokerError (Option (Entity V)) := do
  validateKey partition
  validateKey row
  return s.lookup ⟨table, partition, row⟩

def insert (s : MemoryMetadata V) (table : Table) (partition row : String) (data : V) :
    Except BrokerError (Entity V × MemoryMetadata V) :=
  if valid : validateKey partition = .ok () ∧ validateKey row = .ok () then
    match s.lookup ⟨table, partition, row⟩ with
    | some _ => .error .conflict
    | none => s.memoryEntity ⟨table, partition, row⟩ data valid
  else .error .badRequest

def replace (s : MemoryMetadata V) (table : Table) (partition row : String) (data : V) (etag : String) :
    Except BrokerError (Entity V × MemoryMetadata V) :=
  if valid : validateKey partition = .ok () ∧ validateKey row = .ok () then do
    validateEtag etag
    match s.lookup ⟨table, partition, row⟩ with
    | none => .error .notFound
    | some existing =>
      if existing.etag ≠ etag then .error .conflict
      else s.memoryEntity ⟨table, partition, row⟩ data valid
  else .error .badRequest

/-- The metadata without the entity under `k`. -/
def erase (s : MemoryMetadata V) (k : Key) : MemoryMetadata V where
  entities := s.entities.erase k
  version := s.version
  keyed := by
    intro k' e held
    by_cases same : k' = k
    · rw [same, AList.lookup_erase] at held
      cases held
    · exact s.keyed k' e (by rwa [AList.lookup_erase_ne same] at held)
  valid := by
    intro k' e held
    by_cases same : k' = k
    · rw [same, AList.lookup_erase] at held
      cases held
    · exact s.valid k' e (by rwa [AList.lookup_erase_ne same] at held)
  stamped := by
    intro k' e held
    by_cases same : k' = k
    · rw [same, AList.lookup_erase] at held
      cases held
    · exact s.stamped k' e (by rwa [AList.lookup_erase_ne same] at held)

def delete (s : MemoryMetadata V) (table : Table) (partition row : String) (etag : String) :
    Except BrokerError (Unit × MemoryMetadata V) := do
  validateKey partition
  validateKey row
  validateEtag etag
  match s.lookup ⟨table, partition, row⟩ with
  | none => .error .notFound
  | some existing =>
    if existing.etag ≠ etag then .error .conflict
    else .ok ((), s.erase ⟨table, partition, row⟩)

/-- Every entity of the partition; the trait promises no order. -/
def list (s : MemoryMetadata V) (table : Table) (partition : String) : Except BrokerError (List (Entity V)) := do
  validateKey partition
  return (s.entities.entries.filter fun x => x.1.table = table ∧ x.1.partition = partition).map (·.2)

end MemoryMetadata

/-- A path segment the revision store accepts. -/
def pathSegment (part : String) : Bool :=
  !part.isEmpty && part.utf8ByteSize ≤ 128 && part.toList.all fun c => c.isAlphanum || c == '-' || c == '_'

def revisionPath (workspace profile revision : String) : Except BrokerError String :=
  if ¬ pathSegment workspace = true ∨ ¬ pathSegment profile = true then .error .badRequest
  else match Text.parseU64 revision with
    | none => .error .badRequest
    | some n => .ok ("profiles/" ++ workspace ++ "/" ++ profile ++ "/" ++ String.ofList (Text.padded 6 n) ++ ".yaml")

/-- Create-only blobs by path. -/
abbrev MemoryConfigs := AList fun _ : String => String

namespace MemoryConfigs

def putRevision (s : MemoryConfigs) (workspace profile revision yaml : String) :
    Except BrokerError (Unit × MemoryConfigs) := do
  let path ← revisionPath workspace profile revision
  match s.lookup path with
  | some _ => .error .conflict
  | none => .ok ((), s.insert path yaml)

def getRevision (s : MemoryConfigs) (workspace profile revision : String) :
    Except BrokerError (Option String) := do
  let path ← revisionPath workspace profile revision
  return s.lookup path

end MemoryConfigs
end Azbridge.Broker
