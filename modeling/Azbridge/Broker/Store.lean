import Azbridge.Broker.Environment

/-!
# What a request can do

One inversion lemma for each kind of request, and the growth every answer respects: no entity is
ever stored under an ETag that was used before, so a conditional write that goes through has found
exactly the entity its caller read.
-/

namespace Azbridge.Broker

theorem validateKey_cases (key : String) : validateKey key = .ok () ∨ validateKey key = .error .badRequest := by
  unfold validateKey
  split
  · exact .inr rfl
  · exact .inl rfl

/-- A key of visible ASCII without slashes, hashes and question marks. -/
theorem validateKey_of_visible {key : String} (nonempty : key.isEmpty = false) (size : key.utf8ByteSize ≤ 1024)
    (visible : ∀ c ∈ key.toList, 32 ≤ c.toNat ∧ c.toNat ≤ 126 ∧ c.toNat ≠ 47 ∧ c.toNat ≠ 92 ∧ c.toNat ≠ 35 ∧ c.toNat ≠ 63) :
    validateKey key = .ok () := by
  have characters : key.toList.any (fun c => Text.isControl c || ['/', '\\', '#', '?'].contains c) = false := by
    rw [List.any_eq_false]
    intro c member
    obtain ⟨low, high, slash, backslash, hash, question⟩ := visible c member
    have printable : Text.isControl c = false := by
      simp only [Text.isControl, Bool.or_eq_false_iff, Bool.and_eq_false_imp, decide_eq_false_iff_not, decide_eq_true_eq]
      omega
    have allowed : ['/', '\\', '#', '?'].contains c = false := by
      rw [List.contains_eq_mem, decide_eq_false_iff_not]
      intro listed
      rcases (by simpa using listed : c = '/' ∨ c = '\\' ∨ c = '#' ∨ c = '?') with rfl | rfl | rfl | rfl
      · exact slash rfl
      · exact backslash rfl
      · exact hash rfl
      · exact question rfl
    rw [printable, allowed]
    simp
  unfold validateKey
  rw [nonempty, characters, if_neg]
  simp [size]

theorem validateKey_hyphenated (u : Uuid) : validateKey u.hyphenated = .ok () := by
  have digit : ∀ c ∈ u.hyphenated.toList, 48 ≤ c.toNat ∧ c.toNat ≤ 57 ∨ 97 ≤ c.toNat ∧ c.toNat ≤ 102 ∨ c.toNat = 45 := by
    intro c member
    rcases Uuid.mem_hyphenated member with hex | rfl
    · simp only [isHexLower, Char.isDigit, Bool.or_eq_true, Bool.and_eq_true, decide_eq_true_eq, UInt32.le_iff_toNat_le] at hex
      rcases hex with decimal | letter
      · exact .inl decimal
      · exact .inr (.inl letter)
    · exact .inr (.inr rfl)
  have size : u.hyphenated.utf8ByteSize = 36 := by
    rw [Text.byteSize_of_ascii, Uuid.length_hyphenated]
    intro c member
    have := digit c member
    omega
  apply validateKey_of_visible
  · rw [String.isEmpty_eq_false_iff]
    intro empty
    rw [empty] at size
    cases size
  · omega
  · intro c member
    have := digit c member
    omega

theorem validateEtag_cases (etag : String) : validateEtag etag = .ok () ∨ validateEtag etag = .error .badRequest := by
  unfold validateEtag
  dsimp only
  split
  · exact .inr rfl
  · exact .inl rfl

namespace MemoryMetadata
variable {V : Type} {s s' : MemoryMetadata V} {e : Entity V} {t : Table} {p r etag : String} {data : V} {k : Key}

/-- The store after a write of `k`. -/
structure Stored (s s' : MemoryMetadata V) (k : Key) (e : Entity V) : Prop where
  partitionKey : e.partitionKey = k.partition
  rowKey : e.rowKey = k.row
  etag : e.etag = etagOf s'.version
  version : s.version < s'.version
  written : s'.lookup k = some e
  others : ∀ k', k' ≠ k → s'.lookup k' = s.lookup k'

theorem memoryEntity_ok {valid} (h : s.memoryEntity k data valid = .ok (e, s')) :
    e.data = data ∧ Stored s s' k e := by
  unfold memoryEntity at h
  split at h
  · cases h
    exact ⟨rfl, rfl, rfl, rfl, Nat.lt_succ_self _, AList.lookup_insert _,
      fun k' different => AList.lookup_insert_ne different⟩
  · cases h

theorem insert_ok (h : s.insert t p r data = .ok (e, s')) :
    s.lookup ⟨t, p, r⟩ = none ∧ e.data = data ∧ Stored s s' ⟨t, p, r⟩ e := by
  unfold insert at h
  split at h
  · split at h
    · cases h
    · next absent => exact ⟨absent, memoryEntity_ok h⟩
  · cases h

theorem replace_ok (h : s.replace t p r data etag = .ok (e, s')) :
    (∃ old, s.lookup ⟨t, p, r⟩ = some old ∧ old.etag = etag) ∧ e.data = data ∧ Stored s s' ⟨t, p, r⟩ e := by
  unfold replace at h
  split at h
  · cases tag : validateEtag etag with
    | error => rw [tag] at h; cases h
    | ok =>
      rw [tag] at h
      dsimp only [bind, Except.bind] at h
      split at h
      · cases h
      · next existing found =>
        split at h
        · cases h
        · next same => exact ⟨⟨existing, found, Decidable.not_not.mp same⟩, memoryEntity_ok h⟩
  · cases h

theorem delete_ok {u : Unit} (h : s.delete t p r etag = .ok (u, s')) :
    (∃ old, s.lookup ⟨t, p, r⟩ = some old ∧ old.etag = etag) ∧ s' = s.erase ⟨t, p, r⟩ := by
  unfold delete at h
  cases partition : validateKey p with
  | error => rw [partition] at h; cases h
  | ok =>
    cases row : validateKey r with
    | error => rw [partition, row] at h; cases h
    | ok =>
      cases tag : validateEtag etag with
      | error => rw [partition, row, tag] at h; cases h
      | ok =>
        rw [partition, row, tag] at h
        dsimp only [bind, Except.bind] at h
        split at h
        · cases h
        · next existing found =>
          split at h
          · cases h
          · next same =>
            cases h
            exact ⟨⟨existing, found, Decidable.not_not.mp same⟩, rfl⟩

@[simp] theorem lookup_erase_self : (s.erase k).lookup k = none := AList.lookup_erase _ _

theorem lookup_erase_other {k' : Key} (different : k' ≠ k) : (s.erase k).lookup k' = s.lookup k' :=
  AList.lookup_erase_ne different

theorem get_ok {found : Option (Entity V)} (h : s.get t p r = .ok found) : found = s.lookup ⟨t, p, r⟩ := by
  unfold get at h
  cases partition : validateKey p with
  | error => rw [partition] at h; cases h
  | ok =>
    cases row : validateKey r with
    | error => rw [partition, row] at h; cases h
    | ok => rw [partition, row] at h; cases h; rfl

/-- A row that is there can be read. -/
theorem get_of_lookup (h : s.lookup ⟨t, p, r⟩ = some e) : s.get t p r = .ok (some e) := by
  obtain ⟨partition, row⟩ := s.valid _ e h
  simp only [get, partition, row, h]
  rfl

/-- The rows of a partition, each once. -/
structure Listing (s : MemoryMetadata V) (t : Table) (p : String) (entities : List (Entity V)) : Prop where
  mem : ∀ e, e ∈ entities ↔ e.partitionKey = p ∧ s.lookup ⟨t, p, e.rowKey⟩ = some e
  nodup : (entities.map (·.rowKey)).Nodup

theorem listing_entries : Listing s t p
    ((s.entities.entries.filter fun x => x.1.table = t ∧ x.1.partition = p).map (·.2)) := by
  constructor
  · intro e
    simp only [List.mem_map, List.mem_filter, decide_eq_true_eq]
    constructor
    · rintro ⟨⟨k, found⟩, ⟨member, rfl, rfl⟩, rfl⟩
      have held : s.lookup k = some found := AList.mem_lookup_iff.mpr member
      obtain ⟨partition, row⟩ := s.keyed k found held
      exact ⟨partition, by rwa [row]⟩
    · rintro ⟨-, held⟩
      exact ⟨⟨⟨t, p, e.rowKey⟩, e⟩, ⟨AList.mem_lookup_iff.mp held, rfl, rfl⟩, rfl⟩
  · rw [List.map_map]
    have keys : (s.entities.entries.map Sigma.fst).Nodup := s.entities.nodupKeys
    have nodup := (keys.of_map _).filter fun x => decide (x.1.table = t ∧ x.1.partition = p)
    refine (List.nodup_map_iff_inj_on nodup).mpr ?_
    rintro ⟨k₁, e₁⟩ member₁ ⟨k₂, e₂⟩ member₂ same
    obtain ⟨in₁, filter₁⟩ := List.mem_filter.mp member₁
    obtain ⟨in₂, filter₂⟩ := List.mem_filter.mp member₂
    have held₁ : s.lookup k₁ = some e₁ := AList.mem_lookup_iff.mpr in₁
    have held₂ : s.lookup k₂ = some e₂ := AList.mem_lookup_iff.mpr in₂
    simp only [decide_eq_true_eq] at filter₁ filter₂
    have rows : k₁.row = k₂.row := by
      rw [← (s.keyed k₁ e₁ held₁).2, ← (s.keyed k₂ e₂ held₂).2]
      exact same
    have equal : k₁ = k₂ := by
      cases k₁
      cases k₂
      simp_all
    subst equal
    rw [held₁] at held₂
    cases held₂
    rfl

theorem list_ok {entities : List (Entity V)} (h : s.list t p = .ok entities) : Listing s t p entities := by
  unfold list at h
  cases partition : validateKey p with
  | error => rw [partition] at h; cases h
  | ok => rw [partition] at h; cases h; exact listing_entries

theorem memoryEntity_version {valid} (h : s.memoryEntity k data valid = .ok (e, s')) : s'.version = s.version + 1 := by
  unfold memoryEntity at h
  split at h
  · cases h
    rfl
  · cases h

theorem insert_version (h : s.insert t p r data = .ok (e, s')) : s'.version = s.version + 1 := by
  unfold insert at h
  split at h
  · split at h
    · cases h
    · exact memoryEntity_version h
  · cases h

theorem replace_version (h : s.replace t p r data etag = .ok (e, s')) : s'.version = s.version + 1 := by
  unfold replace at h
  split at h
  · rcases validateEtag_cases etag with tag | tag
    · rw [tag] at h
      simp only [bind, Except.bind] at h
      split at h
      · cases h
      · split at h
        · cases h
        · exact memoryEntity_version h
    · rw [tag] at h
      cases h
  · cases h

theorem list_of_valid (valid : validateKey p = .ok ()) : ∃ entities, s.list t p = .ok entities := by
  simp only [list, valid]
  exact ⟨_, rfl⟩

end MemoryMetadata

theorem etagOf_injective {m n : Nat} (h : etagOf m = etagOf n) : m = n := by
  have chars := congrArg String.toList h
  simp only [etagOf, String.toList_append, List.append_assoc, List.append_cancel_left_eq,
    List.append_cancel_right_eq] at chars
  exact Text.toString_injective (String.toList_inj.mp chars)

theorem validateEtag_etagOf (n : Nat) : validateEtag (etagOf n) = .ok () := by
  have chars : (etagOf n).toList = '"' :: ((toString n).toList ++ ['"']) := by
    simp only [etagOf, String.toList_append]
    rfl
  have strong : Text.stripPrefix "W/" (etagOf n) = none := by
    unfold Text.stripPrefix
    rw [chars]
    rfl
  have digit : ∀ c ∈ (toString n).toList, c ≠ '"' ∧ headerChar c = true := by
    intro c member
    have isDigit := Text.digit_of_toString member
    simp only [Char.isDigit, Bool.and_eq_true, decide_eq_true_eq, UInt32.le_iff_toNat_le] at isDigit
    have low : 48 ≤ c.toNat := isDigit.1
    have high : c.toNat ≤ 57 := isDigit.2
    constructor
    · rintro rfl
      exact absurd low (by decide)
    · unfold headerChar
      simp only [Bool.or_eq_true, Bool.and_eq_true, decide_eq_true_eq, bne_iff_ne]
      omega
  unfold validateEtag
  rw [strong, Option.getD_none, chars]
  rw [if_neg]
  rintro (short | head | last | inner | foreign)
  · simp only [List.length_cons, List.length_append, List.length_nil] at short
    omega
  · exact head rfl
  · apply last
    rw [← List.cons_append, List.getLast?_concat]
  · rw [List.drop_one, List.tail_cons, List.dropLast_concat] at inner
    exact (digit _ inner).1 rfl
  · apply foreign
    simp only [List.all_cons, List.all_append, List.all_nil, Bool.and_eq_true, List.all_eq_true]
    exact ⟨by decide, fun c member => (digit c member).2, by decide, trivial⟩

/-- A row that is there can be replaced by whoever has read it last. -/
theorem MemoryMetadata.replace_of_lookup {V : Type} {s : MemoryMetadata V} {e : Entity V} {t : Table} {p r : String}
    {data : V} (h : s.lookup ⟨t, p, r⟩ = some e) (room : s.version + 1 < Text.u64) :
    ∃ e' s', s.replace t p r data e.etag = .ok (e', s') := by
  have valid := s.valid _ e h
  obtain ⟨n, -, stamp⟩ := s.stamped _ e h
  have current : validateEtag e.etag = .ok () := by
    rw [stamp]
    exact validateEtag_etagOf n
  unfold replace
  rw [dif_pos valid]
  dsimp only [bind, Except.bind]
  rw [current]
  dsimp only
  rw [h]
  dsimp only
  rw [if_neg (by simp)]
  unfold memoryEntity
  rw [if_pos room]
  exact ⟨_, _, rfl⟩

theorem MemoryMetadata.insert_of_absent {V : Type} {s : MemoryMetadata V} {t : Table} {p r : String} {data : V}
    (valid : validateKey p = .ok () ∧ validateKey r = .ok ()) (absent : s.lookup ⟨t, p, r⟩ = none) (room : s.version + 1 < Text.u64) :
    ∃ e s', s.insert t p r data = .ok (e, s') := by
  unfold insert
  rw [dif_pos valid, absent]
  unfold memoryEntity
  rw [if_pos room]
  exact ⟨_, _, rfl⟩

namespace MemoryConfigs
variable {s s' : MemoryConfigs} {ws profile revision yaml path : String}

theorem putRevision_ok {u : Unit} (h : s.putRevision ws profile revision yaml = .ok (u, s')) :
    ∃ path, revisionPath ws profile revision = .ok path ∧ s.lookup path = none ∧ s' = s.insert path yaml := by
  unfold putRevision at h
  cases valid : revisionPath ws profile revision with
  | error => rw [valid] at h; cases h
  | ok path =>
    rw [valid] at h
    dsimp only [bind, Except.bind] at h
    split at h
    · cases h
    · next absent => cases h; exact ⟨path, rfl, absent, rfl⟩

theorem getRevision_ok {found : Option String} (h : s.getRevision ws profile revision = .ok found) :
    ∃ path, revisionPath ws profile revision = .ok path ∧ found = s.lookup path := by
  unfold getRevision at h
  cases valid : revisionPath ws profile revision with
  | error => rw [valid] at h; cases h
  | ok path => rw [valid] at h; cases h; exact ⟨path, rfl, rfl⟩

theorem getRevision_of_path (h : revisionPath ws profile revision = .ok path) :
    s.getRevision ws profile revision = .ok (s.lookup path) := by
  simp only [getRevision, h]
  rfl

end MemoryConfigs

/-! ### Answers -/

section Responds
variable {tick : Nat → Nat → Prop} {w w' : World} {t : Table} {p r etag : String} {data : Value}

theorem responds_get {reply : Except BrokerError (Option (Entity Value))}
    (h : Responds tick w (.get t p r) reply w') :
    w' = w ∧ ∀ found, reply = .ok found → found = w.store.lookup ⟨t, p, r⟩ := by
  cases h with
  | served h => cases h; exact ⟨rfl, fun _ ok => MemoryMetadata.get_ok ok⟩
  | lost h => cases h; exact ⟨rfl, fun _ ok => by cases ok⟩
  | failed => exact ⟨rfl, fun _ ok => by cases ok⟩
  | external outside => cases outside

/-- Reading a row never fails for want of the row. -/
theorem responds_get_found {e : BrokerError} (h : Responds tick w (.get t p r) (.error e) w') : e ≠ .notFound := by
  cases h with
  | served h =>
    simp only [serve, Option.some.injEq, Prod.mk.injEq, MemoryMetadata.get] at h
    rcases validateKey_cases p with first | first <;> rcases validateKey_cases r with second | second <;>
      rw [first, second] at h <;> cases h.1 <;> nofun
  | lost h => nofun
  | failed => nofun
  | external outside => cases outside

theorem responds_list {reply : Except BrokerError (List (Entity Value))}
    (h : Responds tick w (.list t p) reply w') :
    w' = w ∧ ∀ found, reply = .ok found → w.store.Listing t p found := by
  cases h with
  | served h => cases h; exact ⟨rfl, fun _ ok => MemoryMetadata.list_ok ok⟩
  | lost h => cases h; exact ⟨rfl, fun _ ok => by cases ok⟩
  | failed => exact ⟨rfl, fun _ ok => by cases ok⟩
  | external outside => cases outside

theorem responds_getRevision {ws profile revision : String} {reply : Except BrokerError (Option String)}
    (h : Responds tick w (.getRevision ws profile revision) reply w') :
    w' = w ∧ ∀ found, reply = .ok found →
      ∃ path, revisionPath ws profile revision = .ok path ∧ found = w.configs.lookup path := by
  cases h with
  | served h => cases h; exact ⟨rfl, fun _ ok => MemoryConfigs.getRevision_ok ok⟩
  | lost h => cases h; exact ⟨rfl, fun _ ok => by cases ok⟩
  | failed => exact ⟨rfl, fun _ ok => by cases ok⟩
  | external outside => cases outside

private theorem effect_cases {σ α : Type} {set : σ → World} {result : Except BrokerError (α × σ)}
    {reply : Except BrokerError α} (h : effect w set result = (reply, w')) :
    (∃ e, reply = .error e ∧ w' = w) ∨ ∃ a s, result = .ok (a, s) ∧ reply = .ok a ∧ w' = set s := by
  cases result with
  | error e => cases h; exact .inl ⟨e, rfl, rfl⟩
  | ok done => cases h; exact .inr ⟨_, _, rfl, rfl, rfl⟩

/-- An effect fails without a trace, or happens; then its answer may still be lost. -/
private theorem responds_effect {r : Request} {σ : Type} {set : σ → World}
    {result : Except BrokerError (Reply r × σ)} {reply : Except BrokerError (Reply r)}
    (h : Responds tick w r reply w') (serves : serve w r = some (effect w set result))
    (inside : r.isExternal = false) (clock : r ≠ .now) (uuid : r ≠ .newUuid) (random : ∀ n, r ≠ .random n) :
    (∃ e, reply = .error e ∧ w' = w) ∨
      ∃ a s, result = .ok (a, s) ∧ (reply = .ok a ∨ reply = .error .unavailable) ∧ w' = set s := by
  cases h with
  | served h =>
    rw [serves, Option.some.injEq] at h
    rcases effect_cases h with failed | ⟨a, s, ok, same, world⟩
    · exact .inl failed
    · exact .inr ⟨a, s, ok, .inl same, world⟩
  | lost h =>
    rw [serves, Option.some.injEq] at h
    rcases effect_cases h with ⟨-, -, same⟩ | ⟨a, s, ok, -, world⟩
    · exact .inl ⟨_, rfl, same⟩
    · exact .inr ⟨a, s, ok, .inr rfl, world⟩
  | failed => exact .inl ⟨_, rfl, rfl⟩
  | now => exact (clock rfl).elim
  | beforeEpoch => exact (clock rfl).elim
  | newUuid => exact (uuid rfl).elim
  | random => exact (random _ rfl).elim
  | external outside => rw [inside] at outside; cases outside

theorem responds_insert {reply : Except BrokerError (Entity Value)}
    (h : Responds tick w (.insert t p r data) reply w') :
    (∃ e, reply = .error e ∧ w' = w) ∨
      ∃ a s, w.store.lookup ⟨t, p, r⟩ = none ∧ a.data = data ∧ w.store.Stored s ⟨t, p, r⟩ a ∧
        (reply = .ok a ∨ reply = .error .unavailable) ∧ w' = { w with store := s } := by
  rcases responds_effect h rfl rfl nofun nofun nofun with failed | ⟨a, s, ok, reply, world⟩
  · exact .inl failed
  · obtain ⟨absent, same, stored⟩ := MemoryMetadata.insert_ok ok
    exact .inr ⟨a, s, absent, same, stored, reply, world⟩

/-- Only a row that is there is in the way of another. -/
theorem responds_insert_conflict (h : Responds tick w (.insert t p r data) (.error .conflict) w') :
    w.store.lookup ⟨t, p, r⟩ ≠ none := by
  intro absent
  cases h with
  | served h =>
    have refused : w.store.insert t p r data = .error .conflict := by
      simp only [serve, Option.some.injEq] at h
      cases result : w.store.insert t p r data with
      | ok done => rw [result] at h; cases h
      | error e => rw [result] at h; cases h; rfl
    unfold MemoryMetadata.insert at refused
    split at refused
    · rw [absent] at refused
      dsimp only at refused
      unfold MemoryMetadata.memoryEntity at refused
      split at refused
      · cases refused
      · cases refused
    · cases refused
  | external outside => cases outside

theorem responds_replace {reply : Except BrokerError (Entity Value)}
    (h : Responds tick w (.replace t p r data etag) reply w') :
    (∃ e, reply = .error e ∧ w' = w) ∨
      ∃ a s old, w.store.lookup ⟨t, p, r⟩ = some old ∧ old.etag = etag ∧ a.data = data ∧
        w.store.Stored s ⟨t, p, r⟩ a ∧ (reply = .ok a ∨ reply = .error .unavailable) ∧
        w' = { w with store := s } := by
  rcases responds_effect h rfl rfl nofun nofun nofun with failed | ⟨a, s, ok, reply, world⟩
  · exact .inl failed
  · obtain ⟨⟨old, found, tag⟩, same, stored⟩ := MemoryMetadata.replace_ok ok
    exact .inr ⟨a, s, old, found, tag, same, stored, reply, world⟩

theorem responds_delete {reply : Except BrokerError Unit} (h : Responds tick w (.delete t p r etag) reply w') :
    (∃ e, reply = .error e ∧ w' = w) ∨
      ∃ old, w.store.lookup ⟨t, p, r⟩ = some old ∧ old.etag = etag ∧
        (reply = .ok () ∨ reply = .error .unavailable) ∧ w' = { w with store := w.store.erase ⟨t, p, r⟩ } := by
  rcases responds_effect h rfl rfl nofun nofun nofun with failed | ⟨a, s, ok, reply, world⟩
  · exact .inl failed
  · obtain ⟨⟨old, found, tag⟩, rfl⟩ := MemoryMetadata.delete_ok ok
    exact .inr ⟨old, found, tag, reply, world⟩

theorem responds_putRevision {ws profile revision yaml : String} {reply : Except BrokerError Unit}
    (h : Responds tick w (.putRevision ws profile revision yaml) reply w') :
    (∃ e, reply = .error e ∧ w' = w) ∨
      ∃ path, revisionPath ws profile revision = .ok path ∧ w.configs.lookup path = none ∧
        (reply = .ok () ∨ reply = .error .unavailable) ∧
        w' = { w with configs := w.configs.insert path yaml } := by
  rcases responds_effect h rfl rfl nofun nofun nofun with failed | ⟨a, s, ok, reply, world⟩
  · exact .inl failed
  · obtain ⟨path, valid, absent, rfl⟩ := MemoryConfigs.putRevision_ok ok
    exact .inr ⟨path, valid, absent, reply, world⟩

theorem responds_now {reply : Except BrokerError Nat} (h : Responds tick w .now reply w') :
    (∃ e, reply = .error e ∧ w' = w) ∨
      ∃ time, tick w.clock time ∧ time < 2 ^ 63 ∧ reply = .ok time ∧ w' = { w with clock := time } := by
  cases h with
  | served h => cases h
  | lost h => cases h
  | failed storage => cases storage
  | now next bound => exact .inr ⟨_, next, bound, rfl, rfl⟩
  | beforeEpoch => exact .inl ⟨_, rfl, rfl⟩
  | external outside => cases outside

theorem responds_newUuid {reply : Except BrokerError Uuid} (h : Responds tick w .newUuid reply w') :
    ∃ u, u ∉ w.uuids ∧ reply = .ok u ∧ w' = { w with uuids := u :: w.uuids } := by
  cases h with
  | served h => cases h
  | lost h => cases h
  | failed storage => cases storage
  | newUuid fresh => exact ⟨_, fresh, rfl, rfl⟩
  | external outside => cases outside

theorem responds_random {n : Nat} {reply : Except BrokerError String} (h : Responds tick w (.random n) reply w') :
    ∃ s, s ∉ w.secrets ∧ base64UrlSize s = some n ∧ reply = .ok s ∧ w' = { w with secrets := s :: w.secrets } := by
  cases h with
  | served h => cases h
  | lost h => cases h
  | failed storage => cases storage
  | random fresh size => exact ⟨_, fresh, size, rfl, rfl⟩
  | external outside => cases outside

theorem responds_external {r : Request} {reply : Except BrokerError (Reply r)} (outside : r.isExternal = true)
    (h : Responds tick w r reply w') : w' = w := by
  cases h with
  | external => rfl
  | served h => cases r <;> simp_all [serve, Request.isExternal]
  | lost h => cases r <;> simp_all [serve, Request.isExternal]
  | failed => rfl
  | now => cases outside
  | beforeEpoch => rfl
  | newUuid => cases outside
  | random => cases outside

end Responds

/-! ### Growth -/

/-- What every answer respects: ETags, blobs and drawn values are never used again. -/
structure Evolves (w w' : World) : Prop where
  version : w.store.version ≤ w'.store.version
  stamped : ∀ k e, w'.store.lookup k = some e →
    w.store.lookup k = some e ∨ ∃ n, w.store.version < n ∧ n ≤ w'.store.version ∧ e.etag = etagOf n
  blobs : ∀ path yaml, w.configs.lookup path = some yaml → w'.configs.lookup path = some yaml
  uuids : ∀ u, u ∈ w.uuids → u ∈ w'.uuids
  secrets : ∀ s, s ∈ w.secrets → s ∈ w'.secrets

namespace Evolves
variable {tick : Nat → Nat → Prop} {w w' w'' : World}

theorem refl (w : World) : Evolves w w :=
  ⟨Nat.le_refl _, fun _ _ held => .inl held, fun _ _ held => held, fun _ h => h, fun _ h => h⟩

theorem trans (first : Evolves w w') (second : Evolves w' w'') : Evolves w w'' := by
  refine ⟨Nat.le_trans first.version second.version, ?_, fun path yaml held => second.blobs _ _ (first.blobs _ _ held),
    fun u h => second.uuids u (first.uuids u h), fun s h => second.secrets s (first.secrets s h)⟩
  intro k e held
  have bound := first.version
  have bound' := second.version
  rcases second.stamped k e held with old | ⟨n, newer, upper, tag⟩
  · rcases first.stamped k e old with older | ⟨n, newer, upper, tag⟩
    · exact .inl older
    · exact .inr ⟨n, newer, by omega, tag⟩
  · exact .inr ⟨n, by omega, upper, tag⟩

/-- An entity that was read, and that is found again by its ETag, has not been touched. -/
theorem unchanged {k : Key} {e old : Entity Value} (h : Evolves w w') (read : w.store.lookup k = some e)
    (found : w'.store.lookup k = some old) (tag : old.etag = e.etag) : old = e := by
  rcases h.stamped k old found with held | ⟨n, newer, -, stamp⟩
  · rw [read, Option.some.injEq] at held
    exact held.symm
  · obtain ⟨m, bound, tag'⟩ := w.store.stamped k e read
    have same := etagOf_injective (stamp.symm.trans (tag.trans tag'))
    omega

private theorem of_stored {s : MemoryMetadata Value} {k : Key} {e : Entity Value}
    (h : w.store.Stored s k e) : Evolves w { w with store := s } := by
  refine ⟨Nat.le_of_lt h.version, ?_, fun _ _ held => held, fun _ h => h, fun _ h => h⟩
  intro k' e' held
  by_cases same : k' = k
  · subst same
    have equal := held.symm.trans h.written
    cases equal
    exact .inr ⟨_, h.version, Nat.le_refl _, h.etag⟩
  · exact .inl ((h.others k' same).symm.trans held)

theorem of_responds {r : Request} {reply : Except BrokerError (Reply r)}
    (h : Responds tick w r reply w') : Evolves w w' := by
  cases r with
  | get => obtain ⟨rfl, -⟩ := responds_get h; exact refl w'
  | list => obtain ⟨rfl, -⟩ := responds_list h; exact refl w'
  | getRevision => obtain ⟨rfl, -⟩ := responds_getRevision h; exact refl w'
  | insert t p row data =>
    rcases responds_insert h with ⟨-, -, rfl⟩ | ⟨a, s, -, -, stored, -, rfl⟩
    · exact refl w'
    · exact of_stored stored
  | replace t p row data etag =>
    rcases responds_replace h with ⟨-, -, rfl⟩ | ⟨a, s, old, -, -, -, stored, -, rfl⟩
    · exact refl w'
    · exact of_stored stored
  | delete t p row etag =>
    rcases responds_delete h with ⟨-, -, rfl⟩ | ⟨old, -, -, -, rfl⟩
    · exact refl w'
    · refine ⟨Nat.le_refl _, ?_, fun _ _ held => held, fun _ h => h, fun _ h => h⟩
      intro k e held
      by_cases same : k = ⟨t, p, row⟩
      · subst same
        simp only [MemoryMetadata.lookup_erase_self] at held
        cases held
      · exact .inl ((MemoryMetadata.lookup_erase_other same).symm.trans held)
  | putRevision ws profile revision yaml =>
    rcases responds_putRevision h with ⟨-, -, rfl⟩ | ⟨path, -, absent, -, rfl⟩
    · exact refl w'
    · refine ⟨Nat.le_refl _, fun _ _ held => .inl held, ?_, fun _ h => h, fun _ h => h⟩
      intro path' yaml' held
      have different : path' ≠ path := by
        rintro rfl
        rw [absent] at held
        cases held
      exact (AList.lookup_insert_ne different).trans held
  | now =>
    rcases responds_now h with ⟨-, -, rfl⟩ | ⟨time, -, -, -, rfl⟩
    · exact refl w'
    · exact ⟨Nat.le_refl _, fun _ _ held => .inl held, fun _ _ held => held, fun _ h => h, fun _ h => h⟩
  | newUuid =>
    obtain ⟨u, -, -, rfl⟩ := responds_newUuid h
    exact ⟨Nat.le_refl _, fun _ _ held => .inl held, fun _ _ held => held,
      fun _ h => List.mem_cons_of_mem _ h, fun _ h => h⟩
  | random n =>
    obtain ⟨s, -, -, -, rfl⟩ := responds_random h
    exact ⟨Nat.le_refl _, fun _ _ held => .inl held, fun _ _ held => held, fun _ h => h,
      fun _ h => List.mem_cons_of_mem _ h⟩
  | _ => rw [responds_external rfl h]; exact refl w

end Evolves
theorem responds_inserted {r : Request} {reply : Except BrokerError (Reply r)} {k : Key} {e : Entity Value}
    (answered : Responds tick w r reply w') (absent : w.store.lookup k = none) (present : w'.store.lookup k = some e) :
    r = .insert k.table k.partition k.row e.data := by
  have unchanged : w'.store ≠ w.store := by
    intro same
    rw [same, absent] at present
    cases present
  have other : ∀ (s : MemoryMetadata Value) t p row e', w.store.Stored s ⟨t, p, row⟩ e' → s.lookup k = some e → k = ⟨t, p, row⟩ := by
    intro s t p row e' stored held
    by_contra different
    rw [stored.others _ different, absent] at held
    cases held
  cases r with
  | insert t p row data =>
    rcases responds_insert answered with ⟨e, -, rfl⟩ | ⟨e', s, -, same, stored, -, rfl⟩
    · exact absurd rfl unchanged
    · have key := other s t p row e' stored present
      subst key
      rw [stored.written, Option.some.injEq] at present
      rw [← present, same]
  | replace t p row data etag =>
    rcases responds_replace answered with ⟨e, -, rfl⟩ | ⟨e', s, old, found, -, -, stored, -, rfl⟩
    · exact absurd rfl unchanged
    · rw [← other s t p row e' stored present, absent] at found
      cases found
  | delete t p row etag =>
    rcases responds_delete answered with ⟨e, -, rfl⟩ | ⟨old, found, -, -, rfl⟩
    · exact absurd rfl unchanged
    · by_cases key : k = ⟨t, p, row⟩
      · subst key
        rw [MemoryMetadata.lookup_erase_self] at present
        cases present
      · rw [MemoryMetadata.lookup_erase_other key, absent] at present
        cases present
  | putRevision =>
    rcases responds_putRevision answered with ⟨e, -, rfl⟩ | ⟨path, -, -, -, rfl⟩ <;> exact absurd rfl unchanged
  | get => exact absurd (congrArg World.store (responds_get answered).1) unchanged
  | list => exact absurd (congrArg World.store (responds_list answered).1) unchanged
  | getRevision => exact absurd (congrArg World.store (responds_getRevision answered).1) unchanged
  | now => rcases responds_now answered with ⟨e, -, rfl⟩ | ⟨time, -, -, -, rfl⟩ <;> exact absurd rfl unchanged
  | newUuid =>
    obtain ⟨u, -, -, rfl⟩ := responds_newUuid answered
    exact absurd rfl unchanged
  | random n =>
    obtain ⟨s, -, -, -, rfl⟩ := responds_random answered
    exact absurd rfl unchanged
  | _ => exact absurd (congrArg World.store (responds_external rfl answered)) unchanged

end Azbridge.Broker
