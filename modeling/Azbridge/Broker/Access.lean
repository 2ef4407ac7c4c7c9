import Azbridge.Broker.Serial

/-!
# Store access under the lock

The rule of each request: what a locked operation learns from its answer, and what it must show to
write, remove or upload.
-/

namespace Azbridge.Broker
open Ledger

/-! ### Reading -/

/-- Requests that leave the ledger and the enrollments alone. -/
def Request.Reads (r : Request) : Prop :=
  r.isRead = true ∧ r ≠ .newUuid ∧ ¬ r.Governed

theorem Request.Reads.quiet {r : Request} {tick : Nat → Nat → Prop} {w w' : World}
    {reply : Except BrokerError (Reply r)} (reads : r.Reads) (h : Responds tick w r reply w') : Quiet w w' := by
  obtain ⟨read, uuid, -⟩ := reads
  cases r with
  | get => obtain ⟨rfl, -⟩ := responds_get h; exact .refl _
  | list => obtain ⟨rfl, -⟩ := responds_list h; exact .refl _
  | getRevision => obtain ⟨rfl, -⟩ := responds_getRevision h; exact .refl _
  | now =>
    rcases responds_now h with ⟨-, -, rfl⟩ | ⟨-, -, -, -, rfl⟩ <;> exact ⟨rfl, fun _ _ _ held => .inl held⟩
  | random => obtain ⟨-, -, -, -, rfl⟩ := responds_random h; exact ⟨rfl, fun _ _ _ held => .inl held⟩
  | newUuid => exact absurd rfl uuid
  | insert | replace | delete | putRevision => cases read
  | _ => rw [responds_external rfl h]; exact .refl _

section Reading
variable {α β : Type} {m : Permits} {v : View} {Q : β → View → Prop} {p : Handler α}

theorem Sound.reads (uses : p.Uses Request.Reads) :
    Sound m v (fun _ v' => v' = v) (fun _ v' => v' = v) p := by
  refine ⟨fun w within => ?_⟩
  have meets := uses.meets (c := m.contract) (J := fun w : World => w.Within v) (fun _ _ h quiet => h.quiet quiet)
    (fun w r reply w' h _ reads answered => by
      have quiet := reads.quiet answered.1
      exact ⟨⟨quiet.locked, fun governed => absurd governed reads.2.2⟩, h.quiet quiet⟩) within
  exact meets.mono (fun _ _ within => ⟨v, within, rfl⟩) fun _ _ within => ⟨v, within, rfl⟩

theorem Safe.reads_bind {f : α → Handler β} (uses : p.Uses Request.Reads) (rest : ∀ a, Safe m v Q (f a)) :
    Safe m v Q (p >>= f) := (Sound.reads uses).safe.bind fun a _ same => same ▸ rest a

theorem Safe.reads_attempt_bind {f : Except BrokerError α → Handler β} (uses : p.Uses Request.Reads)
    (rest : ∀ result, Safe m v Q (f result)) : Safe m v Q (p.attempt >>= f) :=
  (Sound.reads uses).attempt_bind (fun _ _ same => same ▸ rest _) fun _ _ same => same ▸ rest _

/-- One reading request, with what its answer says of the world it was answered in. -/
theorem Sound.read {r : Request} {R : Reply r → Prop} (reads : r.Reads)
    (tells : ∀ (w : World) reply w', w.Within v → Sane w → Responds anyTime w r (.ok reply) w' → R reply) :
    Sound m v (fun reply v' => v' = v ∧ R reply) (fun _ v' => v' = v) (Program.request r) := by
  refine ⟨fun w within w₁ quiet sane reply w₂ ⟨answered, _⟩ => ?_⟩
  have within₁ := within.quiet quiet
  have quiet' := reads.quiet answered
  refine ⟨⟨quiet'.locked, fun governed => absurd governed reads.2.2⟩, ?_⟩
  cases reply with
  | ok reply => exact ⟨v, within₁.quiet quiet', rfl, tells w₁ reply w₂ within₁ sane answered⟩
  | error e => exact ⟨v, within₁.quiet quiet', rfl⟩

variable {t : Table} {partition row : String}

theorem World.Within.lookup {w : World} (h : w.Within v) {k : Key} (table : k.table ≠ .enrollments) :
    w.store.lookup k = v.ledger.rows k := by
  rw [← h.ledger]
  simp [World.ledger, table]

/-- What is found under a key of the ledger. -/
structure Found (c : Ledger) (t : Table) (partition row : String) (found : Option (Entity Value)) : Prop where
  valid : c.Valid
  rows : c.rows ⟨t, partition, row⟩ = found
  keyed : ∀ e, found = some e → e.partitionKey = partition ∧ e.rowKey = row

theorem Found.value {c : Ledger} {e : Entity Value} (h : Found c t partition row (some e)) :
    c.value ⟨t, partition, row⟩ = some e.data := by simp [Ledger.value, h.rows]

theorem Sound.get (table : t ≠ .enrollments) :
    Sound m v (fun found v' => v' = v ∧ Found v.ledger t partition row found) (fun _ v' => v' = v)
      (get t partition row) := by
  refine Sound.read (r := .get t partition row) ⟨rfl, nofun, nofun⟩ ?_
  intro w found w' within sane answered
  have same := (responds_get answered).2 found rfl
  refine ⟨within.ledger ▸ sane.valid, ?_, ?_⟩
  · rw [same, within.lookup table]
  · rintro e rfl
    exact w.store.keyed _ e same.symm

theorem Sound.fails {r : Request} {P : Reply r → View → Prop} {E : BrokerError → View → Prop} {F : BrokerError → Prop}
    (h : Sound m v P E (Program.request r)) (fails : ∀ w e w', Responds anyTime w r (.error e) w' → F e) :
    Sound m v P (fun e v' => E e v' ∧ F e) (Program.request r) := by
  refine ⟨fun w within w₁ quiet sane reply w₂ ⟨answered, told⟩ => ?_⟩
  obtain ⟨kept, ends⟩ := h.meets w within w₁ quiet sane reply w₂ ⟨answered, told⟩
  cases reply with
  | ok reply => exact ⟨kept, ends⟩
  | error e =>
    obtain ⟨v', within', holds⟩ := ends
    exact ⟨kept, v', within', holds, fails w₁ e w₂ answered⟩

theorem Safe.get_bind {f : Option (Entity Value) → Handler β} (table : t ≠ .enrollments)
    (rest : ∀ found, Found v.ledger t partition row found → Safe m v Q (f found)) :
    Safe m v Q (Broker.get t partition row >>= f) :=
  (Sound.get table).safe.bind fun found _ ⟨same, facts⟩ => same ▸ rest found facts

/-- Rows of one partition that are still as they were listed. -/
structure Remaining (c : Ledger) (t : Table) (partition : String) (entities : List (Entity Value)) : Prop where
  rows : ∀ e ∈ entities, e.partitionKey = partition ∧ c.rows ⟨t, partition, e.rowKey⟩ = some e
  nodup : (entities.map (·.rowKey)).Nodup

/-- All rows of a partition. -/
structure Listed (c : Ledger) (t : Table) (partition : String) (entities : List (Entity Value)) : Prop
    extends Remaining c t partition entities where
  complete : ∀ row, c.rows ⟨t, partition, row⟩ ≠ none → ∃ e ∈ entities, e.rowKey = row

theorem Remaining.value {c : Ledger} {entities : List (Entity Value)} {e : Entity Value}
    (h : Remaining c t partition entities) (member : e ∈ entities) :
    c.value ⟨t, partition, e.rowKey⟩ = some e.data := by simp [Ledger.value, (h.rows e member).2]

/-- Changing the first of the rows leaves the others. -/
theorem Remaining.tail {c c' : Ledger} {x : Entity Value} {rest : List (Entity Value)}
    (h : Remaining c t partition (x :: rest))
    (frame : ∀ row, row ≠ x.rowKey → c'.rows ⟨t, partition, row⟩ = c.rows ⟨t, partition, row⟩) :
    Remaining c' t partition rest := by
  obtain ⟨different, nodup⟩ := List.nodup_cons.mp h.nodup
  refine ⟨fun e member => ?_, nodup⟩
  obtain ⟨key, held⟩ := h.rows e (.tail _ member)
  refine ⟨key, (frame e.rowKey fun same => different ?_).trans held⟩
  exact List.mem_map.mpr ⟨e, member, same⟩

theorem Listed.tail {c : Ledger} {x : Entity Value} {rest : List (Entity Value)}
    (h : Listed c t partition (x :: rest)) :
    Listed (c.set ⟨t, partition, x.rowKey⟩ none) t partition rest := by
  refine ⟨h.toRemaining.tail fun row different => set_rows_other (by simpa using different), fun row present => ?_⟩
  by_cases same : row = x.rowKey
  · rw [same, set_rows_self] at present
    exact absurd rfl present
  · rw [set_rows_other (by simpa using same)] at present
    obtain ⟨e, member, key⟩ := h.complete row present
    rcases List.mem_cons.mp member with rfl | member
    · exact absurd key.symm same
    · exact ⟨e, member, key⟩

theorem Listed.find {c : Ledger} {entities : List (Entity Value)} {row : String} {v : Value}
    (h : Listed c t partition entities) (held : c.value ⟨t, partition, row⟩ = some v) :
    ∃ e ∈ entities, e.rowKey = row ∧ e.data = v := by
  obtain ⟨e, member, key⟩ := h.complete row (rows_of_value held)
  have same := h.value member
  rw [key, held] at same
  exact ⟨e, member, key, (Option.some.inj same).symm⟩

theorem Sound.list (table : t ≠ .enrollments) :
    Sound m v (fun entities v' => v' = v ∧ v.ledger.Valid ∧ Listed v.ledger t partition entities)
      (fun _ v' => v' = v) (list t partition) := by
  refine Sound.read (r := .list t partition) ⟨rfl, nofun, nofun⟩ ?_
  intro w entities w' within sane answered
  obtain ⟨mem, nodup⟩ := (responds_list answered).2 entities rfl
  have lookup : ∀ row, w.store.lookup ⟨t, partition, row⟩ = v.ledger.rows ⟨t, partition, row⟩ :=
    fun row => within.lookup table
  refine ⟨within.ledger ▸ sane.valid, ⟨fun e member => ?_, nodup⟩, fun row held => ?_⟩
  · rw [← lookup]
    exact (mem e).mp member
  · rw [← lookup] at held
    obtain ⟨e, found⟩ := Option.ne_none_iff_exists'.mp held
    obtain ⟨partitionKey, rowKey⟩ := w.store.keyed _ e found
    refine ⟨e, (mem e).mpr ⟨partitionKey, ?_⟩, rowKey⟩
    rw [rowKey]
    exact found

theorem Safe.list_bind {f : List (Entity Value) → Handler β} (table : t ≠ .enrollments)
    (rest : ∀ entities, v.ledger.Valid → Listed v.ledger t partition entities → Safe m v Q (f entities)) :
    Safe m v Q (Broker.list t partition >>= f) :=
  (Sound.list table).safe.bind fun entities _ ⟨same, valid, facts⟩ => same ▸ rest entities valid facts

theorem Safe.getRevision_bind {f : Option String → Handler β} {ws id : String} {n : Nat}
    (rest : ∀ found, (∀ yaml, found = some yaml ↔ v.ledger.Blob ws id n yaml) → Safe m v Q (f found)) :
    Safe m v Q (getRevision ws id (toString n) >>= f) := by
  refine Safe.bind (P := fun found v' => v' = v ∧ ∀ yaml, found = some yaml ↔ v.ledger.Blob ws id n yaml) ?_
    fun found _ ⟨same, facts⟩ => same ▸ rest found facts
  refine (Sound.read (r := .getRevision ws id (toString n)) ⟨rfl, nofun, nofun⟩ ?_).safe
  intro w found w' within sane answered yaml
  obtain ⟨path, valid, same⟩ := (responds_getRevision answered).2 found rfl
  have blobs : w.configs.lookup path = v.ledger.blobs path := congrArg (fun c => c.blobs path) within.ledger
  rw [same, blobs]
  constructor
  · intro held
    exact ⟨path, valid, held⟩
  · rintro ⟨path', valid', held⟩
    rw [valid] at valid'
    cases valid'
    exact held

theorem Safe.getEnrollment_bind {f : Option (Entity Value) → Handler β}
    (rest : ∀ found, (∀ e ws, found = some e → e.data.workspaceId = some ws → v.ledger.Present ws) →
      Safe m v Q (f found)) : Safe m v Q (Broker.get .enrollments partition row >>= f) := by
  refine Safe.bind (P := fun found v' => v' = v ∧ ∀ (e : Entity Value) ws, found = some e →
    e.data.workspaceId = some ws → v.ledger.Present ws) ?_ fun found _ ⟨same, facts⟩ => same ▸ rest found facts
  refine (Sound.read (r := .get .enrollments partition row) ⟨rfl, nofun, nofun⟩ ?_).safe
  rintro w found w' within sane answered e ws rfl refers
  have same := (responds_get answered).2 _ rfl
  rw [← within.ledger]
  exact sane.enrolled ws ⟨_, e, rfl, same.symm, refers⟩

end Reading

/-! ### Writing -/

section Writing
variable {β : Type} {m : Permits} {v : View} {Q : β → View → Prop} {t : Table} {partition row : String} {data : Value}

theorem ledger_stored {w : World} {s : MemoryMetadata Value} {k : Key} {e : Entity Value}
    (table : k.table ≠ .enrollments) (stored : w.store.Stored s k e) :
    World.ledger { w with store := s } = w.ledger.set k (some e) := by
  refine Ledger.ext (funext fun k' => ?_) rfl rfl
  by_cases same : k' = k
  · subst same
    simp [World.ledger, table, stored.written]
  · rw [set_rows_other same]
    simp only [World.ledger, stored.others k' same]

theorem ledger_erased {w : World} {k : Key} (table : k.table ≠ .enrollments) :
    World.ledger { w with store := w.store.erase k } = w.ledger.set k none := by
  refine Ledger.ext (funext fun k' => ?_) rfl rfl
  by_cases same : k' = k
  · subst same
    simp [World.ledger]
  · rw [set_rows_other same]
    simp only [World.ledger, MemoryMetadata.lookup_erase_other same]

private theorem stored_step {w : World} {s : MemoryMetadata Value} {k : Key} {e : Entity Value}
    (within : w.Within v) (table : k.table ≠ .enrollments) (stored : w.store.Stored s k e)
    (write : m.writes v.ledger k (v.ledger.value k) (some e.data)) :
    LockedStep m.writes w { w with store := s } ∧
      World.Within { w with store := s } (v.with (v.ledger.set k (some e))) := by
  have after := ledger_stored table stored
  have rows : ∀ k' e', k'.table = .enrollments → s.lookup k' = some e' → w.store.lookup k' = some e' := by
    intro k' e' table' held
    rw [stored.others k' (by rintro rfl; exact table table')] at held
    exact held
  have enrolled : ∀ ws, World.Enrolled { w with store := s } ws → w.Enrolled ws := by
    rintro ws ⟨k', e', table', held, refers⟩
    exact ⟨k', e', table', rows k' e' table' held, refers⟩
  refine ⟨⟨.inr ?_, fun ws h => .inl (enrolled ws h), fun ws present gone => ?_,
    fun k' e' table' held => .inl (by simp [rows k' e' table' held])⟩, ?_, fun ws h => within.enrolled ws (enrolled ws h)⟩
  · rw [after, within.ledger]
    exact .row write
  · rw [after, Present] at gone
    refine absurd ?_ gone
    by_cases same : workspaceKey ws = k
    · rw [same, set_rows_self]
      rintro ⟨⟩
    · rw [set_rows_other same]
      exact present
  · rw [after, within.ledger]
    rfl

/-- What a conditional write of a row leaves. -/
structure Written (v : View) (k : Key) (data : Value) (e : Entity Value) (v' : View) : Prop where
  data : e.data = data
  partitionKey : e.partitionKey = k.partition
  rowKey : e.rowKey = k.row
  after : v' = v.with (v.ledger.set k (some e))

theorem Written.value {k : Key} {e : Entity Value} {v' : View} (h : Written v k data e v') :
    v'.ledger.value k = some data := by
  rw [h.after, View.with_ledger, set_value_self, ← h.data]
  rfl

theorem Written.apart {k : Key} {e : Entity Value} {v' : View} (h : Written v k data e v') :
    v.AgreeApart (· = k) v' := h.after ▸ .set rfl

theorem Sound.insert (table : t ≠ .enrollments)
    (write : v.ledger.Valid → v.ledger.rows ⟨t, partition, row⟩ = none →
      m.writes v.ledger ⟨t, partition, row⟩ none (some data)) :
    Sound m v (Written v ⟨t, partition, row⟩ data)
      (fun e v' => (v' = v ∧ (e = .conflict → v.ledger.rows ⟨t, partition, row⟩ ≠ none)) ∨ e = .unavailable)
      (insert t partition row data) := by
  refine ⟨fun w within w₁ quiet sane reply w₂ ⟨answered, _⟩ => ?_⟩
  have within₁ := within.quiet quiet
  refine and_assoc.mpr ?_
  rcases responds_insert answered with ⟨e, rfl, rfl⟩ | ⟨e, s, absent, same, stored, reply', rfl⟩
  · refine ⟨(Quiet.refl _).locked, nofun, v, within₁, .inl ⟨rfl, ?_⟩⟩
    rintro rfl
    rw [← within₁.lookup table]
    exact responds_insert_conflict answered
  · rw [within₁.lookup table] at absent
    have allowed : m.writes v.ledger ⟨t, partition, row⟩ (v.ledger.value ⟨t, partition, row⟩) (some e.data) := by
      rw [same, Ledger.value, absent]
      exact write (within₁.ledger ▸ sane.valid) absent
    obtain ⟨step, after⟩ := stored_step within₁ table stored allowed
    refine ⟨step, nofun, ?_⟩
    rcases reply' with rfl | rfl
    · exact ⟨_, after, same, stored.partitionKey, stored.rowKey, rfl⟩
    · exact ⟨_, after, .inr rfl⟩

theorem Safe.insert_bind {f : Entity Value → Handler β} (table : t ≠ .enrollments)
    (write : v.ledger.Valid → v.ledger.rows ⟨t, partition, row⟩ = none →
      m.writes v.ledger ⟨t, partition, row⟩ none (some data))
    (rest : ∀ e, e.data = data → e.partitionKey = partition → e.rowKey = row →
      Safe m (v.with (v.ledger.set ⟨t, partition, row⟩ (some e))) Q (f e)) :
    Safe m v Q (Broker.insert t partition row data >>= f) :=
  (Sound.insert table write).safe.bind fun e _ ⟨same, p, r, after⟩ => after ▸ rest e same p r

theorem Safe.replace {etag : String} (table : t ≠ .enrollments)
    (write : m.writes v.ledger ⟨t, partition, row⟩ (v.ledger.value ⟨t, partition, row⟩) (some data)) :
    Safe m v (Written v ⟨t, partition, row⟩ data) (Broker.replace t partition row data etag) := by
  refine ⟨fun w within w₁ quiet sane reply w₂ ⟨answered, _⟩ => ?_⟩
  have within₁ := within.quiet quiet
  refine and_assoc.mpr ?_
  rcases responds_replace answered with ⟨e, rfl, rfl⟩ | ⟨e, s, old, found, tag, same, stored, reply', rfl⟩
  · exact ⟨(Quiet.refl _).locked, nofun, v, within₁, trivial⟩
  · obtain ⟨step, after⟩ := stored_step within₁ table stored (same ▸ write)
    refine ⟨step, nofun, ?_⟩
    rcases reply' with rfl | rfl
    · exact ⟨_, after, same, stored.partitionKey, stored.rowKey, rfl⟩
    · exact ⟨_, after, trivial⟩

theorem Safe.replace_bind {f : Entity Value → Handler β} {etag : String} (table : t ≠ .enrollments)
    (write : m.writes v.ledger ⟨t, partition, row⟩ (v.ledger.value ⟨t, partition, row⟩) (some data))
    (rest : ∀ e, e.data = data → e.partitionKey = partition → e.rowKey = row →
      Safe m (v.with (v.ledger.set ⟨t, partition, row⟩ (some e))) Q (f e)) :
    Safe m v Q (Broker.replace t partition row data etag >>= f) :=
  (Safe.replace table write).bind fun e _ ⟨same, p, r, after⟩ => after ▸ rest e same p r

theorem Safe.remove {etag : String} {Q : Unit → View → Prop} (table : t ≠ .enrollments)
    (gone : ∀ ws, (⟨t, partition, row⟩ : Key) = workspaceKey ws → ¬ v.enrolled ws)
    (allowed : ∀ w, w.Within v → (Request.delete t partition row etag).Governed → m.calls w (.delete t partition row etag))
    (write : m.writes v.ledger ⟨t, partition, row⟩ (v.ledger.value ⟨t, partition, row⟩) none)
    (rest : Q () (v.with (v.ledger.set ⟨t, partition, row⟩ none))) :
    Safe m v Q (Broker.delete t partition row etag) := by
  refine ⟨fun w within w₁ quiet sane reply w₂ ⟨answered, _⟩ => ?_⟩
  have within₁ := within.quiet quiet
  refine and_assoc.mpr ?_
  rcases responds_delete answered with ⟨e, rfl, rfl⟩ | ⟨old, found, tag, reply', rfl⟩
  · exact ⟨(Quiet.refl _).locked, allowed _ within₁, v, within₁, trivial⟩
  · have after := ledger_erased (w := w₁) (k := ⟨t, partition, row⟩) table
    have rows : ∀ k' e', k'.table = .enrollments → (w₁.store.erase ⟨t, partition, row⟩).lookup k' = some e' →
        w₁.store.lookup k' = some e' := by
      intro k' e' table' held
      rwa [MemoryMetadata.lookup_erase_other (by rintro rfl; exact table table')] at held
    have enrolled : ∀ ws, World.Enrolled { w₁ with store := w₁.store.erase ⟨t, partition, row⟩ } ws →
        w₁.Enrolled ws := by
      rintro ws ⟨k', e', table', held, refers⟩
      exact ⟨k', e', table', rows k' e' table' held, refers⟩
    have within₂ : World.Within { w₁ with store := w₁.store.erase ⟨t, partition, row⟩ }
        (v.with (v.ledger.set ⟨t, partition, row⟩ none)) :=
      ⟨by rw [after, within₁.ledger]; rfl, fun ws h => within₁.enrolled ws (enrolled ws h)⟩
    refine ⟨⟨.inr ?_, fun ws h => .inl (enrolled ws h), fun ws present absent => ?_,
      fun k' e' table' held => .inl (by simp [rows k' e' table' held])⟩, allowed w₁ within₁, ?_⟩
    · rw [after, within₁.ledger]
      exact .row write
    · by_cases same : (⟨t, partition, row⟩ : Key) = workspaceKey ws
      · exact fun h => gone ws same (within₁.enrolled ws (enrolled ws h))
      · rw [after, Present, set_rows_other (Ne.symm same)] at absent
        exact absurd present absent
    · rcases reply' with rfl | rfl
      · exact ⟨_, within₂, rest⟩
      · exact ⟨_, within₂, trivial⟩

/-- Rows that stand for no cloud resource are removed freely. -/
theorem Safe.delete {etag : String} {Q : Unit → View → Prop} (table : t ≠ .enrollments)
    (free : ¬ (t = .connections ∨ t = .workspaces)) (write : m.writes v.ledger ⟨t, partition, row⟩ (v.ledger.value ⟨t, partition, row⟩) none)
    (rest : Q () (v.with (v.ledger.set ⟨t, partition, row⟩ none))) :
    Safe m v Q (Broker.delete t partition row etag) :=
  Safe.remove table (fun _ key => absurd (.inr (congrArg Key.table key)) free) (fun _ _ governed => absurd governed free) write rest

theorem Safe.putRevision_bind {f : Unit → Handler β} {ws id revision yaml : String}
    (rest : ∀ path, revisionPath ws id revision = .ok path → v.ledger.blobs path = none →
      Safe m (v.with (v.ledger.putBlob path yaml)) Q (f ())) :
    Safe m v Q (putRevision ws id revision yaml >>= f) := by
  refine Safe.bind (P := fun _ v' => ∃ path, revisionPath ws id revision = .ok path ∧ v.ledger.blobs path = none ∧
    v' = v.with (v.ledger.putBlob path yaml)) ?_ ?_
  · refine ⟨fun w within w₁ quiet sane reply w₂ ⟨answered, _⟩ => ?_⟩
    have within₁ := within.quiet quiet
    refine and_assoc.mpr ?_
    rcases responds_putRevision answered with ⟨e, rfl, rfl⟩ | ⟨path, valid, absent, reply', rfl⟩
    · exact ⟨(Quiet.refl _).locked, nofun, v, within₁, trivial⟩
    · have after : World.ledger { w₁ with configs := w₁.configs.insert path yaml } = w₁.ledger.putBlob path yaml := by
        refine Ledger.ext rfl (funext fun path' => ?_) rfl
        by_cases same : path' = path
        · subst same
          simp [World.ledger, putBlob]
        · simp only [World.ledger, putBlob, Function.update_of_ne same]
          exact AList.lookup_insert_ne same
      have free : w₁.ledger.blobs path = none := absent
      have within₂ : World.Within { w₁ with configs := w₁.configs.insert path yaml }
          (v.with (v.ledger.putBlob path yaml)) :=
        ⟨by rw [after, within₁.ledger]; rfl, within₁.enrolled⟩
      refine ⟨⟨.inr (by rw [after]; exact .blob free), fun ws h => .inl h, fun ws present gone => ?_,
        fun k e table held => .inl (by simp [held])⟩, nofun, ?_⟩
      · rw [after] at gone
        exact absurd present gone
      · rcases reply' with rfl | rfl
        · exact ⟨_, within₂, path, valid, within₁.ledger ▸ free, rfl⟩
        · exact ⟨_, within₂, trivial⟩
  · rintro _ _ ⟨path, valid, absent, rfl⟩
    exact rest path valid absent

theorem Safe.newUuid_bind {f : Uuid → Handler β}
    (rest : ∀ u, v.ledger.Valid → u ∉ v.ledger.uuids → Safe m (v.with (v.ledger.draw u)) Q (f u)) :
    Safe m v Q (newUuid >>= f) := by
  refine Safe.bind (P := fun u v' => v.ledger.Valid ∧ u ∉ v.ledger.uuids ∧ v' = v.with (v.ledger.draw u)) ?_ ?_
  · refine ⟨fun w within w₁ quiet sane reply w₂ ⟨answered, _⟩ => ?_⟩
    have within₁ := within.quiet quiet
    refine and_assoc.mpr ?_
    obtain ⟨u, fresh, rfl, rfl⟩ := responds_newUuid answered
    have after : World.ledger { w₁ with uuids := u :: w₁.uuids } = w₁.ledger.draw u := rfl
    refine ⟨⟨.inr (.uuid fresh), fun ws h => .inl h, fun ws present gone => absurd present gone,
      fun k e table held => .inl (by simp [held])⟩, nofun, v.with (v.ledger.draw u), ?_, ?_⟩
    · exact ⟨by rw [after, within₁.ledger]; rfl, within₁.enrolled⟩
    · exact ⟨within₁.ledger ▸ sane.valid, within₁.ledger ▸ fresh, rfl⟩
  · rintro u _ ⟨valid, fresh, rfl⟩
    exact rest u valid fresh

/-- A request that leaves the stores alone, made in a world that allows it. -/
theorem Sound.external {r : Request} (outside : r.isExternal = true) (allowed : ∀ w, w.Within v → Sane w → m.calls w r) :
    Sound m v (fun reply v' => v' = v ∧ (r.Confirms (.ok reply) → ¬ m.denied r)) (fun _ v' => v' = v) (Program.request r) := by
  refine ⟨fun w within w₁ quiet sane reply w₂ ⟨answered, told⟩ => ?_⟩
  have within₁ := within.quiet quiet
  obtain rfl := responds_external outside answered
  refine ⟨⟨(Quiet.refl _).locked, fun _ => allowed w₂ within₁ sane⟩, ?_⟩
  cases reply with
  | ok _ => exact ⟨v, within₁, rfl, told⟩
  | error _ => exact ⟨v, within₁, rfl⟩

theorem Safe.external_attempt_bind {r : Request} {f : Except BrokerError (Reply r) → Handler β} (outside : r.isExternal = true)
    (allowed : ∀ w, w.Within v → Sane w → m.calls w r)
    (rest : ∀ result, (r.Confirms result → ¬ m.denied r) → Safe m v Q (f result)) :
    Safe m v Q (Program.attempt (Program.request r) >>= f) := by
  refine (Sound.external outside allowed).attempt_bind (fun _ _ ⟨same, told⟩ => same ▸ rest _ told) fun _ _ same => ?_
  subst same
  refine rest _ fun confirmed => ?_
  cases r <;> exact confirmed.elim

theorem Safe.issueToken_bind {f : RelayTokenResponse → Handler β} {ns relay : String} {right : RelayRight}
    (entitled : ∀ w, w.Within v → Sane w → m.calls w (.issueToken ns relay right)) (rest : ∀ token, Safe m v Q (f token)) :
    Safe m v Q (Program.request (Request.issueToken ns relay right) >>= f) :=
  (Sound.external (r := .issueToken ns relay right) rfl entitled).safe.bind fun _ _ ⟨same, _⟩ => same ▸ rest _

/-! ### Writing enrollments -/

private theorem enrollment_step {w : World} {s : MemoryMetadata Value} {e : Entity Value} (within : w.Within v)
    (stored : w.store.Stored s ⟨.enrollments, platformPartition, row⟩ e)
    (known : ∀ ws, e.data.workspaceId = some ws → v.ledger.Present ws) :
    LockedStep m.writes w { w with store := s } ∧
      World.Within { w with store := s }
        { v with enrolled := fun ws => v.enrolled ws ∨ e.data.workspaceId = some ws } := by
  have after : World.ledger { w with store := s } = w.ledger := by
    refine Ledger.ext (funext fun k => ?_) rfl rfl
    by_cases table : k.table = .enrollments
    · simp [World.ledger, table]
    · simp only [World.ledger, stored.others k (by rintro rfl; exact table rfl)]
  have enrolled : ∀ ws, World.Enrolled { w with store := s } ws → w.Enrolled ws ∨ e.data.workspaceId = some ws := by
    rintro ws ⟨k, e', table, held, refers⟩
    by_cases same : k = ⟨.enrollments, platformPartition, row⟩
    · subst same
      have equal := stored.written.symm.trans held
      cases equal
      exact .inr refers
    · exact .inl ⟨k, e', table, (stored.others k same).symm.trans held, refers⟩
  refine ⟨⟨.inl after, fun ws h => ?_, fun ws present gone => ?_, fun k e' table held => ?_⟩,
    after.trans within.ledger, fun ws h => (enrolled ws h).imp_left (within.enrolled ws)⟩
  · rw [after, within.ledger]
    exact (enrolled ws h).imp_right (known ws)
  · rw [after] at gone
    exact absurd present gone
  · by_cases same : k = ⟨.enrollments, platformPartition, row⟩
    · exact .inr (by rw [same])
    · exact .inl (by rw [← stored.others k same, held]; nofun)

theorem Safe.insertEnrollment_bind {f : Entity Value → Handler β}
    (known : ∀ ws, data.workspaceId = some ws → v.ledger.Present ws)
    (rest : ∀ e v', v'.ledger = v.ledger → Safe m v' Q (f e)) :
    Safe m v Q (Broker.insert .enrollments platformPartition row data >>= f) := by
  refine Safe.bind (P := fun _ v' => v'.ledger = v.ledger) ?_ fun e v' same => rest e v' same
  refine ⟨fun w within w₁ quiet sane reply w₂ ⟨answered, _⟩ => ?_⟩
  have within₁ := within.quiet quiet
  refine and_assoc.mpr ?_
  rcases responds_insert answered with ⟨e, rfl, rfl⟩ | ⟨e, s, absent, same, stored, reply', rfl⟩
  · exact ⟨(Quiet.refl _).locked, nofun, v, within₁, trivial⟩
  · obtain ⟨step, after⟩ := enrollment_step (m := m) within₁ stored (same ▸ known)
    refine ⟨step, nofun, ?_⟩
    rcases reply' with rfl | rfl
    · exact ⟨_, after, rfl⟩
    · exact ⟨_, after, trivial⟩

theorem Safe.replaceEnrollment_bind {f : Entity Value → Handler β} {etag : String}
    (known : ∀ ws, data.workspaceId = some ws → v.ledger.Present ws)
    (rest : ∀ e v', v'.ledger = v.ledger → Safe m v' Q (f e)) :
    Safe m v Q (Broker.replace .enrollments platformPartition row data etag >>= f) := by
  refine Safe.bind (P := fun _ v' => v'.ledger = v.ledger) ?_ fun e v' same => rest e v' same
  refine ⟨fun w within w₁ quiet sane reply w₂ ⟨answered, _⟩ => ?_⟩
  have within₁ := within.quiet quiet
  refine and_assoc.mpr ?_
  rcases responds_replace answered with ⟨e, rfl, rfl⟩ | ⟨e, s, old, found, tag, same, stored, reply', rfl⟩
  · exact ⟨(Quiet.refl _).locked, nofun, v, within₁, trivial⟩
  · obtain ⟨step, after⟩ := enrollment_step (m := m) within₁ stored (same ▸ known)
    refine ⟨step, nofun, ?_⟩
    rcases reply' with rfl | rfl
    · exact ⟨_, after, rfl⟩
    · exact ⟨_, after, trivial⟩

theorem quiet_stored {w : World} {s : MemoryMetadata Value} {e : Entity Value}
    (stored : w.store.Stored s ⟨.enrollments, platformPartition, row⟩ e) (own : e.data.workspaceId = none) :
    Quiet w { w with store := s } := by
  refine ⟨Ledger.ext (funext fun k => ?_) rfl rfl, fun k e' table held => ?_⟩
  · by_cases table : k.table = .enrollments
    · simp [World.ledger, table]
    · simp only [World.ledger, stored.others k (by rintro rfl; exact table rfl)]
  · by_cases same : k = ⟨.enrollments, platformPartition, row⟩
    · subst same
      cases stored.written.symm.trans held
      exact .inr ⟨rfl, own⟩
    · exact .inl ((stored.others k same).symm.trans held)

theorem quiet_erased {w : World} {partition : String} :
    Quiet w { w with store := w.store.erase ⟨.enrollments, partition, row⟩ } := by
  refine ⟨Ledger.ext (funext fun k => ?_) rfl rfl, fun k e table held => ?_⟩
  · by_cases table : k.table = .enrollments
    · simp [World.ledger, table]
    · simp only [World.ledger,
        MemoryMetadata.lookup_erase_other (show k ≠ ⟨.enrollments, partition, row⟩ by rintro rfl; exact table rfl)]
  · by_cases same : k = ⟨.enrollments, partition, row⟩
    · subst same
      simp only [MemoryMetadata.lookup_erase_self] at held
      cases held
    · exact .inl ((MemoryMetadata.lookup_erase_other same).symm.trans held)

theorem Safe.deleteEnrollment {partition etag : String} :
    Safe m v (fun _ v' => v' = v) (Broker.delete .enrollments partition row etag) := by
  refine ⟨fun w within w₁ quiet sane reply w₂ ⟨answered, _⟩ => ?_⟩
  have within₁ := within.quiet quiet
  refine and_assoc.mpr ?_
  rcases responds_delete answered with ⟨e, rfl, rfl⟩ | ⟨old, found, tag, reply', rfl⟩
  · exact ⟨(Quiet.refl _).locked, nofun, v, within₁, trivial⟩
  · refine ⟨quiet_erased.locked, nofun, ?_⟩
    rcases reply' with rfl | rfl
    · exact ⟨v, within₁.quiet quiet_erased, rfl⟩
    · exact ⟨v, within₁.quiet quiet_erased, trivial⟩

end Writing
end Azbridge.Broker
