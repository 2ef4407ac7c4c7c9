import Azbridge.Broker.Revocation
import Azbridge.Broker.Keys

/-!
# What saving leaves behind

The rows that one client has had inserted, while others act on the same stores: a profile is made by one
insertion and a revision by another, which may happen although the client never hears of it.
-/

namespace Azbridge.Broker.Saving
open Program Profiles

/-- The world, and the rows that were inserted for one client. -/
structure Site where
  world : World
  inserted : List Key

namespace Site

def made (s : Site) (table : Table) : List Key := s.inserted.filter fun k => k.table == table

def added (w w' : World) (r : Request) : List Key :=
  r.row?.toList.filter fun k => (w.store.lookup k).isNone && (w'.store.lookup k).isSome

def Responds (s : Site) (r : Request) (reply : Except BrokerError (Reply r)) (s' : Site) : Prop :=
  Broker.Responds anyTime s.world r reply s'.world ∧ s'.inserted = s.inserted ++ added s.world s'.world r

end Site

/-- Profiles of the workspace stay, under their names, and so do its revisions. -/
structure Undisturbed (ws : String) (w w' : World) : Prop where
  evolves : Evolves w w'
  profiles : ∀ id e r, w.store.lookup ⟨.profiles, ws, id⟩ = some e → e.data = .profile r →
    ∃ e' r', w'.store.lookup ⟨.profiles, ws, id⟩ = some e' ∧ e'.data = .profile r' ∧ r'.profile.name = r.profile.name
  revisions : ∀ row e, w.store.lookup ⟨.revisionMetadata, ws, row⟩ = some e → w'.store.lookup ⟨.revisionMetadata, ws, row⟩ = some e

/-- Nothing is made for the client meanwhile. -/
structure Elsewhere (ws : String) (s s' : Site) : Prop where
  undisturbed : Undisturbed ws s.world s'.world
  profiles : s'.made .profiles = s.made .profiles
  revisions : s'.made .revisionMetadata = s.made .revisionMetadata

def HasProfile (ws name : String) (w : World) : Prop :=
  ∃ id e r, w.store.lookup ⟨.profiles, ws, id⟩ = some e ∧ e.data = .profile r ∧ r.profile.name = name

/-- This is the text that is stored of the revision. -/
def Blob (ws id : String) (n : Nat) (yaml : String) (w : World) : Prop :=
  ∃ path, revisionPath ws id (toString n) = .ok path ∧ w.configs.lookup path = some yaml

/-- The revision of this number is listed, and this is its text. -/
structure Kept (ws id : String) (n : Nat) (yaml : String) (w : World) : Prop where
  numbered : n ≠ 0
  metadata : ∃ e at_, w.store.lookup ⟨.revisionMetadata, ws, revisionKey id n⟩ = some e ∧ e.data = .revision ⟨n, at_⟩
  blob : Blob ws id n yaml w

section Stability
variable {ws id name yaml : String} {n : Nat} {w w' : World} {s s' : Site}

theorem HasProfile.later (named : HasProfile ws name w) (undisturbed : Undisturbed ws w w') : HasProfile ws name w' := by
  obtain ⟨id, e, r, held, data, rfl⟩ := named
  obtain ⟨e', r', held', data', same⟩ := undisturbed.profiles id e r held data
  exact ⟨id, e', r', held', data', same⟩

theorem Blob.later (blob : Blob ws id n yaml w) (evolves : Evolves w w') : Blob ws id n yaml w' := by
  obtain ⟨path, accepted, stored⟩ := blob
  exact ⟨path, accepted, evolves.blobs _ _ stored⟩

theorem Kept.later (kept : Kept ws id n yaml w) (undisturbed : Undisturbed ws w w') : Kept ws id n yaml w' := by
  obtain ⟨e, at_, held, data⟩ := kept.metadata
  exact ⟨kept.numbered, ⟨e, at_, undisturbed.revisions _ e held, data⟩, kept.blob.later undisturbed.evolves⟩

/-- A revision has one text. -/
theorem Kept.unique {yaml' : String} (kept : Kept ws id n yaml w) (kept' : Kept ws id n yaml' w) : yaml = yaml' := by
  obtain ⟨path, accepted, stored⟩ := kept.blob
  obtain ⟨path', accepted', stored'⟩ := kept'.blob
  obtain rfl : path = path' := Except.ok.inj (accepted.symm.trans accepted')
  exact Option.some.inj (stored.symm.trans stored')

def Apart (r : Request) : Prop := r.Spares .profiles ∧ r.Spares .revisionMetadata

theorem added_apart {r : Request} {table : Table} (spares : r.Spares table) :
    (Site.added w w' r).filter (fun k => k.table == table) = [] := by
  rw [List.filter_eq_nil_iff]
  intro k member
  have named : r.row? = some k := by simpa using List.mem_of_mem_filter member
  simpa using spares k named

theorem made_append {table : Table} {r : Request} {reply : Except BrokerError (Reply r)} (answered : s.Responds r reply s') :
    s'.made table = s.made table ++ (Site.added s.world s'.world r).filter fun k => k.table == table := by
  unfold Site.made
  rw [answered.2, List.filter_append]

theorem made_spared {table : Table} {r : Request} {reply : Except BrokerError (Reply r)} (answered : s.Responds r reply s')
    (spares : r.Spares table) : s'.made table = s.made table := by
  rw [made_append answered, added_apart spares, List.append_nil]

theorem Undisturbed.of_spares {r : Request} {reply : Except BrokerError (Reply r)} (answered : Responds anyTime w r reply w')
    (apart : Apart r) : Undisturbed ws w w' := by
  refine ⟨Evolves.of_responds answered, ?_, ?_⟩
  · intro id e r' held data
    have other : r.row? ≠ some ⟨.profiles, ws, id⟩ := fun named => apart.1 _ named rfl
    exact ⟨e, r', by rw [responds_other answered other]; exact held, data, rfl⟩
  · intro row e held
    have other : r.row? ≠ some ⟨.revisionMetadata, ws, row⟩ := fun named => apart.2 _ named rfl
    rw [responds_other answered other]
    exact held

theorem Elsewhere.of_apart {r : Request} {reply : Except BrokerError (Reply r)} (answered : s.Responds r reply s')
    (apart : Apart r) : Elsewhere ws s s' :=
  ⟨.of_spares answered.1 apart, made_spared answered apart.1, made_spared answered apart.2⟩

end Stability

/-! ### Handlers -/

/-- Others keep to themselves, and wherever the client's request is abandoned `P` holds. -/
def serving (ws : String) (P : Site → Prop) : Contract Request Reply BrokerError Site where
  answers := Site.Responds
  invariant _ := True
  rely := Elsewhere ws
  guarantee _ _ s' := P s'

section Handlers
variable {α β : Type} {app : App} {headers : Headers} {ws id name yaml : String} {n : Nat} {P J K : Site → Prop} {s : Site}
  {e : BrokerError}

/-- Every request leaves `P` true, a result satisfies `Q`, and so does what is left by an error `P`. -/
abbrev Serving (ws : String) (P : Site → Prop) (Q : α → Site → Prop) (p : Handler α) (s : Site) : Prop :=
  Meets (serving ws P) Q (fun _ => P) p s

/-- What holds until the client's request does something. -/
structure Lasting (ws : String) (P J : Site → Prop) : Prop where
  stable : ∀ s s', Elsewhere ws s s' → J s → J s'
  within : ∀ s, J s → P s

theorem Lasting.and (lasting : Lasting ws P J) (stable : ∀ s s', Undisturbed ws s.world s'.world → K s → K s') :
    Lasting ws P fun s => J s ∧ K s := by
  constructor
  · intro s s' others holds
    exact ⟨lasting.stable s s' others holds.1, stable s s' others.undisturbed holds.2⟩
  · intro s holds
    exact lasting.within s holds.1

theorem apart_of_reading {p : Handler α} (reading : Reading p) : p.Uses Apart :=
  reading.mono fun _ reads => ⟨reads.spares, reads.spares⟩

theorem recordAudit_apart {actor action target : String} : (recordAudit ws actor action target).Uses Apart := by
  have drawn : Apart .newUuid := ⟨nofun, nofun⟩
  have entered : ∀ entry : AuditEntry, Apart (.insert .audit ws entry.id (encode entry)) := by
    intro entry
    constructor
    · rintro k named
      obtain rfl := Option.some.inj named
      exact nofun
    · rintro k named
      obtain rfl := Option.some.inj named
      exact nofun
  apply (uses_request drawn).bind
  intro id
  apply (apart_of_reading Reading.now).bind
  intro time
  apply (uses_request (entered _)).bind
  intro _
  exact uses_pure _

theorem decode_revision {value : Value} {r : RevisionRecord} (h : (Record.decode value : Option RevisionRecord) = some r) :
    value = .revision r := by
  cases value with
  | revision r' =>
    obtain rfl := Option.some.inj h
    rfl
  | _ => cases h

theorem decode_profile {value : Value} {r : ProfileRecord} (h : (Record.decode value : Option ProfileRecord) = some r) :
    value = .profile r := by
  cases value with
  | profile r' =>
    obtain rfl := Option.some.inj h
    rfl
  | _ => cases h

/-! What is checked changes nothing. -/

theorem require_then {condition : Bool} {f : Unit → Handler β} {Q : β → Site → Prop} (within : P s)
    (rest : condition = true → Serving ws P Q (f ()) s) : Serving ws P Q (require condition e >>= f) s := by
  cases condition with
  | false => exact within
  | true => exact rest rfl

theorem okOr_then {value : Option α} {f : α → Handler β} {Q : β → Site → Prop} (within : P s)
    (rest : ∀ a, value = some a → Serving ws P Q (f a) s) : Serving ws P Q (okOr value e >>= f) s := by
  cases value with
  | none => exact within
  | some a => exact rest a rfl

namespace Lasting

theorem spares {p : Handler α} (lasting : Lasting ws P J) (apart : p.Uses Apart) (start : J s) :
    Serving ws P (fun _ => J) p s := by
  have meets : Meets (serving ws P) (fun _ => J) (fun _ => J) p s := by
    apply apart.meets
    · intro s s' holds others
      exact lasting.stable s s' others holds
    · intro s r reply s' holds _ allowed answered
      have later := lasting.stable s s' (.of_apart answered allowed) holds
      exact ⟨lasting.within s' later, later⟩
    · exact start
  exact meets.mono (fun _ _ holds => holds) fun _ s holds => lasting.within s holds

theorem reads {p : Handler α} (lasting : Lasting ws P J) (reading : Reading p) (start : J s) : Serving ws P (fun _ => J) p s :=
  lasting.spares (apart_of_reading reading) start

theorem request (r : Request) {Q : Reply r → World → Prop} (lasting : Lasting ws P J) (reads : r.Reads) (start : J s)
    (answers : ∀ w w' a, Responds anyTime w r (.ok a) w' → Q a w') :
    Serving ws P (fun a s => J s ∧ Q a s.world) (Program.request r) s := by
  intro s₁ others _ reply s₂ answered
  have apart : Apart r := ⟨reads.spares, reads.spares⟩
  have later := lasting.stable s₁ s₂ (.of_apart answered apart) (lasting.stable s s₁ others start)
  refine ⟨lasting.within s₂ later, ?_⟩
  cases reply with
  | ok a => exact ⟨later, answers _ _ a answered.1⟩
  | error error => exact lasting.within s₂ later

theorem get {table : Table} {row : String} (lasting : Lasting ws P J) (start : J s) :
    Serving ws P (fun found s => J s ∧ found = s.world.store.lookup ⟨table, ws, row⟩) (get table ws row) s := by
  have answers : ∀ (w w' : World) (found : Option (Entity Value)), Responds anyTime w (.get table ws row) (.ok found) w' →
      found = w'.store.lookup ⟨table, ws, row⟩ := by
    intro w w' found answered
    obtain ⟨rfl, read⟩ := responds_get answered
    exact read found rfl
  exact lasting.request (.get table ws row) ⟨rfl, nofun, nofun⟩ start answers

theorem list {table : Table} (lasting : Lasting ws P J) (start : J s) :
    Serving ws P (fun found s => J s ∧ s.world.store.Listing table ws found) (list table ws) s := by
  have answers : ∀ (w w' : World) (found : List (Entity Value)), Responds anyTime w (.list table ws) (.ok found) w' →
      w'.store.Listing table ws found := by
    intro w w' found answered
    obtain ⟨rfl, read⟩ := responds_list answered
    exact read found rfl
  exact lasting.request (.list table ws) ⟨rfl, nofun, nofun⟩ start answers

theorem getRevision {r : String} (lasting : Lasting ws P J) (start : J s) :
    Serving ws P (fun found s => J s ∧ ∃ path, revisionPath ws id r = .ok path ∧ found = s.world.configs.lookup path)
      (getRevision ws id r) s := by
  have answers : ∀ (w w' : World) (found : Option String), Responds anyTime w (.getRevision ws id r) (.ok found) w' →
      ∃ path, revisionPath ws id r = .ok path ∧ found = w'.configs.lookup path := by
    intro w w' found answered
    obtain ⟨rfl, read⟩ := responds_getRevision answered
    exact read found rfl
  exact lasting.request (.getRevision ws id r) ⟨rfl, by rintro ⟨⟩, by rintro ⟨⟩⟩ start answers

/-! ### Revisions are read -/

theorem revision (lasting : Lasting ws P J) (start : J s) :
    Serving ws P (fun r s => J s ∧ r.revision = n ∧ Kept ws id n r.yaml s.world) (revision ws id n) s := by
  unfold Profiles.revision
  apply require_then (lasting.within s start)
  intro numbered
  apply (lasting.get start).bind
  rintro found s ⟨start, read⟩
  apply okOr_then (lasting.within s start)
  intro entity same
  subst same
  have listed := lasting.and (K := fun s => s.world.store.lookup ⟨.revisionMetadata, ws, revisionKey id n⟩ = some entity)
    fun s s' undisturbed => undisturbed.revisions _ _
  apply okOr_then (lasting.within s start)
  intro record decoded
  apply require_then (lasting.within s start)
  intro same
  apply (listed.getRevision ⟨start, read.symm⟩).bind
  rintro text s ⟨⟨start, held⟩, path, accepted, stored⟩
  apply okOr_then (lasting.within s start)
  intro yaml same'
  subst same'
  obtain rfl := eq_of_beq same
  exact ⟨start, rfl, by simpa using numbered, ⟨entity, _, held, decode_revision decoded⟩, path, accepted, stored.symm⟩

theorem loadRevisions (entities : List (Entity Value)) (lasting : Lasting ws P J) (start : J s) :
    Serving ws P (fun rs s => J s ∧ (∀ r ∈ rs, Kept ws id r.revision r.yaml s.world) ∧
      ∀ e ∈ entities, hasPrefix id e = true → ∀ record : RevisionRecord, Record.decode e.data = some record →
        ∃ r ∈ rs, r.revision = record.revision) (loadRevisions ws id entities) s := by
  rw [loadRevisions_eq]
  induction entities generalizing J s with
  | nil => exact ⟨start, fun _ member => (List.not_mem_nil member).elim, fun _ member => (List.not_mem_nil member).elim⟩
  | cons entity rest ih =>
    cases own : hasPrefix id entity with
    | false =>
      rw [List.filter_cons_of_neg (by simp [own])]
      apply (ih lasting start).mono
      · rintro rs s ⟨start, kept, all⟩
        refine ⟨start, kept, ?_⟩
        intro e member prefixed
        rcases List.mem_cons.mp member with rfl | member
        · rw [own] at prefixed
          cases prefixed
        · exact all e member prefixed
      · exact fun _ _ holds => holds
    | true =>
      rw [List.filter_cons_of_pos own]
      apply okOr_then (lasting.within s start)
      intro record decoded
      apply (lasting.revision start).bind
      rintro first s ⟨start, number, kept⟩
      have carried := lasting.and (K := fun s => Kept ws id record.revision first.yaml s.world) fun _ _ undisturbed kept =>
        kept.later undisturbed
      apply (ih carried ⟨start, kept⟩).bind
      rintro rs s ⟨⟨start, kept⟩, others, all⟩
      refine ⟨start, ?_, ?_⟩
      · intro r member
        rcases List.mem_cons.mp member with rfl | member
        · rw [number]
          exact kept
        · exact others r member
      · intro e member prefixed record' decoded'
        rcases List.mem_cons.mp member with rfl | member
        · obtain rfl := Option.some.inj (decoded.symm.trans decoded')
          exact ⟨first, .head _, number⟩
        · obtain ⟨r, there, same⟩ := all e member prefixed record' decoded'
          exact ⟨r, .tail _ there, same⟩

theorem listRevisions (lasting : Lasting ws P J) (start : J s) :
    Serving ws P (fun rs s => J s ∧ (∀ r ∈ rs, Kept ws id r.revision r.yaml s.world) ∧
      ∀ n yaml, (∀ s, J s → Kept ws id n yaml s.world) → ∃ r ∈ rs, r.yaml = yaml) (listRevisions app ws id headers) s := by
  apply (lasting.reads Reading.authorize start).bind
  intro _ s start
  apply (lasting.reads Reading.workspace start).bind
  intro _ s start
  apply (lasting.reads Reading.profile start).bind
  intro _ s start
  apply (lasting.list start).bind
  rintro entities s ⟨start, listing⟩
  have there : ∀ n yaml, (∀ s, J s → Kept ws id n yaml s.world) → ∃ e ∈ entities, hasPrefix id e = true ∧ ∃ at_,
      Record.decode e.data = some (⟨n, at_⟩ : RevisionRecord) := by
    intro n yaml always
    obtain ⟨e, at_, held, data⟩ := (always s start).metadata
    obtain ⟨partition, row⟩ := s.world.store.keyed _ e held
    refine ⟨e, (listing.mem e).mpr ⟨partition, by rw [row]; exact held⟩, ?_, at_, by rw [data]; rfl⟩
    unfold hasPrefix
    rw [row, revisionKey_toList, List.isPrefixOf_iff_prefix, String.toList_append]
    exact ⟨Text.padded 20 n, by rw [List.append_assoc]; rfl⟩
  apply (lasting.loadRevisions entities start).bind
  rintro rs s ⟨start, kept, all⟩
  refine ⟨start, ?_, ?_⟩
  · intro r member
    exact kept r (List.mem_mergeSort.mp member)
  · intro n yaml always
    obtain ⟨e, member, prefixed, at_, decoded⟩ := there n yaml always
    obtain ⟨r, found, same⟩ := all e member prefixed _ decoded
    refine ⟨r, List.mem_mergeSort.mpr found, ?_⟩
    have stored := kept r found
    rw [same] at stored
    exact stored.unique (always s start)

end Lasting

theorem decodeAll_then [Record α] {f : List α → Handler β} {Q : β → Site → Prop} (within : P s) (entities : List (Entity Value))
    (rest : ∀ records, (∀ e ∈ entities, ∃ r ∈ records, Record.decode e.data = some r) → Serving ws P Q (f records) s) :
    Serving ws P Q (decodeAll entities >>= f) s := by
  induction entities generalizing f with
  | nil => exact rest [] fun _ member => (List.not_mem_nil member).elim
  | cons entity entities ih =>
    unfold decodeAll
    rw [bind_assoc]
    apply okOr_then within
    intro first decoded
    rw [bind_assoc]
    apply ih
    intro records all
    apply rest
    intro e member
    rcases List.mem_cons.mp member with rfl | member
    · exact ⟨first, .head _, decoded⟩
    · obtain ⟨r, there, same⟩ := all e member
      exact ⟨r, .tail _ there, same⟩

theorem Lasting.listProfiles (lasting : Lasting ws P J) (start : J s) :
    Serving ws P (fun ps s => J s ∧ ∀ name, (∀ s, J s → HasProfile ws name s.world) → ∃ p ∈ ps, p.name = name)
      (listProfiles app ws headers) s := by
  apply (lasting.reads Reading.authorize start).bind
  intro _ s start
  apply (lasting.reads Reading.workspace start).bind
  intro _ s start
  apply (lasting.list start).bind
  rintro entities s ⟨start, listing⟩
  apply decodeAll_then (lasting.within s start)
  intro records all
  refine ⟨start, ?_⟩
  intro name always
  obtain ⟨id, e, r, held, data, named⟩ := always s start
  obtain ⟨partition, row⟩ := s.world.store.keyed _ e held
  obtain ⟨record, member, decoded⟩ := all e ((listing.mem e).mpr ⟨partition, by rw [row]; exact held⟩)
  have same : record = r := by
    rw [data] at decoded
    exact (Option.some.inj decoded).symm
  refine ⟨record.profile, List.mem_mergeSort.mpr (List.mem_map_of_mem member), ?_⟩
  rw [same, named]

end Handlers

/-! ### What is made -/

section Made
variable {app : App} {headers : Headers} {ws id name yaml requestName : String} {n : Nat} {R : Site → Prop} {s s' : Site}

theorem Undisturbed.of_stored {w w' : World} {k : Key} (evolves : Evolves w w') (absent : w.store.lookup k = none)
    (others : ∀ k', k' ≠ k → w'.store.lookup k' = w.store.lookup k') : Undisturbed ws w w' := by
  have kept : ∀ k' e', w.store.lookup k' = some e' → w'.store.lookup k' = some e' := by
    intro k' e' held
    have other : k' ≠ k := by
      rintro rfl
      rw [absent] at held
      cases held
    rw [others k' other, held]
  refine ⟨evolves, ?_, fun row e held => kept _ e held⟩
  intro id e r held data
  exact ⟨e, r, kept _ e held, data, rfl⟩

/-- The profile was read under this ETag. -/
def Fetched (ws id : String) (e : Entity Value) (w : World) : Prop :=
  ∃ w₀, Evolves w₀ w ∧ w₀.store.lookup ⟨.profiles, ws, id⟩ = some e

theorem Fetched.later {e : Entity Value} {w w' : World} (fetched : Fetched ws id e w) (undisturbed : Undisturbed ws w w') :
    Fetched ws id e w' := by
  obtain ⟨w₀, since, held⟩ := fetched
  exact ⟨w₀, since.trans undisturbed.evolves, held⟩

theorem Lasting.profile {P J : Site → Prop} (lasting : Lasting ws P J) (start : J s) :
    Serving ws P (fun found s => J s ∧ Uuid.isText id = true ∧ Fetched ws id found.1 s.world ∧ found.1.data = .profile found.2)
      (Profiles.profile ws id) s := by
  apply require_then (lasting.within s start)
  intro real
  apply (lasting.get start).bind
  rintro found s ⟨start, read⟩
  apply okOr_then (lasting.within s start)
  intro entity same
  subst same
  apply okOr_then (lasting.within s start)
  intro record decoded
  apply require_then (lasting.within s start)
  intro _
  exact ⟨start, real, ⟨s.world, .refl _, read.symm⟩, decode_profile decoded⟩

theorem insert_cases {table : Table} {row : String} {data : Value} {reply : Except BrokerError (Entity Value)}
    (answered : s.Responds (.insert table ws row data) reply s') :
    ((∃ e, reply = .error e) ∧ s'.world = s.world ∧ s'.inserted = s.inserted) ∨
      ∃ e, s'.world.store.lookup ⟨table, ws, row⟩ = some e ∧ e.data = data ∧ s'.inserted = s.inserted ++ [⟨table, ws, row⟩] ∧
        Undisturbed ws s.world s'.world ∧ s'.world.configs = s.world.configs := by
  obtain ⟨answered, inserted⟩ := answered
  have evolves := Evolves.of_responds answered
  rcases responds_insert answered with ⟨e, failed, same⟩ | ⟨e, store, absent, data, stored, -, same⟩
  · left
    refine ⟨⟨e, failed⟩, same, ?_⟩
    rw [inserted, same]
    simp [Site.added, Request.row?]
  · right
    rw [same] at evolves inserted ⊢
    refine ⟨e, stored.written, data, ?_, .of_stored evolves absent stored.others, rfl⟩
    rw [inserted]
    simp [Site.added, Request.row?, absent, stored.written]

theorem Undisturbed.refl (w : World) : Undisturbed ws w w :=
  ⟨.refl w, fun _ e r held data => ⟨e, r, held, data, rfl⟩, fun _ _ held => held⟩

def ProfileMade (ws name : String) (s : Site) : Prop := (∃ k, s.made .profiles = [k]) ∧ HasProfile ws name s.world

def RevisionMade (ws id yaml : String) (s : Site) : Prop :=
  (∃ k, s.made .revisionMetadata = [k]) ∧ id ≠ "" ∧ ∃ n, Kept ws id n yaml s.world

theorem RevisionMade.later (made : RevisionMade ws id yaml s) (undisturbed : Undisturbed ws s.world s'.world)
    (same : s'.made .revisionMetadata = s.made .revisionMetadata) : RevisionMade ws id yaml s' := by
  obtain ⟨⟨k, rows⟩, real, n, kept⟩ := made
  exact ⟨⟨k, same.trans rows⟩, real, n, kept.later undisturbed⟩

theorem made_insert {table table' : Table} {row : String} (inserted : s'.inserted = s.inserted ++ [⟨table, ws, row⟩]) :
    s'.made table' = s.made table' ++ if table = table' then [⟨table, ws, row⟩] else [] := by
  unfold Site.made
  rw [inserted, List.filter_append]
  by_cases same : table = table'
  · simp [same]
  · simp [same]

theorem made_congr (same : s'.inserted = s.inserted) (table : Table) : s'.made table = s.made table := by
  unfold Site.made
  rw [same]

theorem createProfile_serving (stable : ∀ s s', Undisturbed ws s.world s'.world →
      s'.made .revisionMetadata = s.made .revisionMetadata → R s → R s') (start : R s) (none_ : s.made .profiles = []) :
    Serving ws (fun s => R s ∧ (s.made .profiles = [] ∨ ProfileMade ws (Text.trim requestName) s))
      (fun _ s => R s ∧ ProfileMade ws (Text.trim requestName) s) (createProfile app ws headers requestName) s := by
  have before : Lasting ws (fun s => R s ∧ (s.made .profiles = [] ∨ ProfileMade ws (Text.trim requestName) s))
      fun s => R s ∧ s.made .profiles = [] := by
    constructor
    · rintro s s' others ⟨holds, none_⟩
      exact ⟨stable s s' others.undisturbed others.revisions holds, others.profiles.trans none_⟩
    · rintro s ⟨holds, none_⟩
      exact ⟨holds, .inl none_⟩
  have after : Lasting ws (fun s => R s ∧ (s.made .profiles = [] ∨ ProfileMade ws (Text.trim requestName) s))
      fun s => R s ∧ ProfileMade ws (Text.trim requestName) s := by
    constructor
    · rintro s s' others ⟨holds, ⟨k, made⟩, named⟩
      exact ⟨stable s s' others.undisturbed others.revisions holds, ⟨k, others.profiles.trans made⟩,
        named.later others.undisturbed⟩
    · rintro s ⟨holds, created⟩
      exact ⟨holds, .inr created⟩
  have start' : R s ∧ s.made .profiles = [] := ⟨start, none_⟩
  unfold createProfile
  extract_lets title
  -- The check is not to be evaluated.
  generalize (!(title.isEmpty || title.utf8ByteSize > 128 || title.toList.any Text.isControl)) = valid
  apply (before.reads Reading.authorize start').bind
  intro actor s start
  apply (before.reads Reading.workspace start).bind
  intro _ s start
  apply require_then (before.within s start)
  intro _
  apply (before.list start).bind
  rintro entities s ⟨start, -⟩
  have free : (Profiles.nameIsFree (Text.trim requestName) entities).Uses Apart := Reading.nameIsFree entities
  apply (before.spares free start).bind
  intro _ s start
  have drawn : (newUuid : Handler Uuid).Uses Apart := uses_request ⟨nofun, nofun⟩
  apply (before.spares drawn start).bind
  intro u s start s₁ others _ reply s₂ answered
  obtain ⟨holds, none_⟩ := before.stable s s₁ others start
  rcases insert_cases answered with ⟨⟨e, failed⟩, world, inserted⟩ | ⟨e, held, data, inserted, undisturbed, -⟩
  · have made := made_congr inserted
    have holds' : R s₂ := stable s₁ s₂ (by rw [world]; exact .refl _) (made _) holds
    subst failed
    exact ⟨⟨holds', .inl ((made _).trans none_)⟩, holds', .inl ((made _).trans none_)⟩
  · have holds' : R s₂ := by
      apply stable s₁ s₂ undisturbed _ holds
      rw [made_insert inserted]
      simp
    have created : ProfileMade ws (Text.trim requestName) s₂ := by
      refine ⟨⟨⟨.profiles, ws, u.hyphenated⟩, ?_⟩, u.hyphenated, e, _, held, data, rfl⟩
      rw [made_insert inserted, none_]
      simp
    refine ⟨after.within s₂ ⟨holds', created⟩, ?_⟩
    cases reply with
    | error e => exact after.within s₂ ⟨holds', created⟩
    | ok e =>
      apply (after.spares recordAudit_apart ⟨holds', created⟩).bind
      intro _ s holds
      exact holds

/-- Writing a profile back under its name disturbs nothing. -/
theorem replace_profile {e : Entity Value} {r r' : ProfileRecord} {reply : Except BrokerError (Entity Value)}
    (fetched : Fetched ws id e s.world) (data : e.data = .profile r) (named : r'.profile.name = r.profile.name)
    (answered : s.Responds (.replace .profiles ws id (encode r') e.etag) reply s') :
    Undisturbed ws s.world s'.world ∧ s'.inserted = s.inserted := by
  obtain ⟨answered, inserted⟩ := answered
  have evolves := Evolves.of_responds answered
  rcases responds_replace answered with ⟨e, -, same⟩ | ⟨written, store, old, found, tag, content, stored, -, same⟩
  · rw [same] at inserted ⊢
    refine ⟨.refl _, ?_⟩
    rw [inserted]
    simp [Site.added, Request.row?]
  · rw [same] at evolves inserted ⊢
    constructor
    · refine ⟨evolves, ?_, ?_⟩
      · intro id' e' r₀ held data'
        by_cases own : (⟨.profiles, ws, id'⟩ : Key) = ⟨.profiles, ws, id⟩
        · obtain ⟨w₀, since, read⟩ := fetched
          have untouched : old = e := since.unchanged read found tag
          rw [own, found, untouched, Option.some.injEq] at held
          subst held
          obtain rfl := Value.profile.inj (data.symm.trans data')
          exact ⟨written, r', by rw [own]; exact stored.written, content, named⟩
        · exact ⟨e', r₀, by rw [stored.others _ own]; exact held, data', rfl⟩
      · intro row e' held
        exact (stored.others _ (by simp)).trans held
    · rw [inserted]
      simp [Site.added, Request.row?, found]

/-- A text is stored, or nothing happens. -/
theorem put_blob {reply : Except BrokerError Unit} (answered : s.Responds (.putRevision ws id (toString n) yaml) reply s') :
    Undisturbed ws s.world s'.world ∧ s'.inserted = s.inserted ∧ (reply = .ok () → Blob ws id n yaml s'.world) := by
  have apart : Apart (.putRevision ws id (toString n) yaml) := ⟨nofun, nofun⟩
  refine ⟨.of_spares answered.1 apart, ?_, ?_⟩
  · rw [answered.2]
    simp [Site.added, Request.row?]
  · rintro rfl
    rcases responds_putRevision answered.1 with ⟨e, failed, -⟩ | ⟨path, accepted, -, -, same⟩
    · cases failed
    · refine ⟨path, accepted, ?_⟩
      rw [same]
      exact AList.lookup_insert _

theorem nonempty_of_isText (real : Uuid.isText id = true) : id ≠ "" := by
  rintro rfl
  exact absurd real (by decide)

/-- With its text stored, a revision is listed as soon as its row is there. -/
theorem insertRevision_serving {time : Nat} (stable : ∀ s s', Undisturbed ws s.world s'.world → s'.made .profiles = s.made .profiles →
      R s → R s') (real : id ≠ "") (numbered : n ≠ 0)
    (start : (R s ∧ s.made .revisionMetadata = []) ∧ Blob ws id n yaml s.world) :
    Serving ws (fun s => R s ∧ (s.made .revisionMetadata = [] ∨ RevisionMade ws id yaml s))
      (fun _ s => R s ∧ RevisionMade ws id yaml s ∧ Kept ws id n yaml s.world)
      (insert .revisionMetadata ws (revisionKey id n) (encode (⟨n, time⟩ : RevisionRecord))) s := by
  obtain ⟨⟨holds, none_⟩, blob⟩ := start
  intro s₁ others _ reply s₂ answered
  have holds' : R s₁ := stable s s₁ others.undisturbed others.profiles holds
  have none' : s₁.made .revisionMetadata = [] := others.revisions.trans none_
  rcases insert_cases answered with ⟨⟨e, failed⟩, world, same⟩ | ⟨e, held, data, inserted, undisturbed, -⟩
  · have kept : R s₂ := stable s₁ s₂ (by rw [world]; exact .refl _) (made_congr same _) holds'
    subst failed
    exact ⟨⟨kept, .inl ((made_congr same _).trans none')⟩, kept, .inl ((made_congr same _).trans none')⟩
  · have kept : R s₂ := by
      apply stable s₁ s₂ undisturbed _ holds'
      rw [made_insert inserted]
      simp
    have listed : Kept ws id n yaml s₂.world :=
      ⟨numbered, ⟨e, time, held, data⟩, (blob.later others.undisturbed.evolves).later undisturbed.evolves⟩
    have made : RevisionMade ws id yaml s₂ := by
      refine ⟨⟨⟨.revisionMetadata, ws, revisionKey id n⟩, ?_⟩, real, n, listed⟩
      rw [made_insert inserted, none']
      simp
    refine ⟨⟨kept, .inr made⟩, ?_⟩
    cases reply with
    | error e => exact ⟨kept, .inr made⟩
    | ok e => exact ⟨kept, made, listed⟩

theorem createRevision_serving (stable : ∀ s s', Undisturbed ws s.world s'.world → s'.made .profiles = s.made .profiles →
      R s → R s') (start : R s) (none_ : s.made .revisionMetadata = []) :
    Serving ws (fun s => R s ∧ (s.made .revisionMetadata = [] ∨ RevisionMade ws id yaml s))
      (fun r s => R s ∧ RevisionMade ws id yaml s ∧ Kept ws id r.revision yaml s.world)
      (createRevision app ws id headers yaml) s := by
  have before : Lasting ws (fun s => R s ∧ (s.made .revisionMetadata = [] ∨ RevisionMade ws id yaml s))
      fun s => R s ∧ s.made .revisionMetadata = [] := by
    constructor
    · rintro s s' others ⟨holds, none_⟩
      exact ⟨stable s s' others.undisturbed others.profiles holds, others.revisions.trans none_⟩
    · rintro s ⟨holds, none_⟩
      exact ⟨holds, .inl none_⟩
  have listed : ∀ n, Lasting ws (fun s => R s ∧ (s.made .revisionMetadata = [] ∨ RevisionMade ws id yaml s))
      fun s => R s ∧ RevisionMade ws id yaml s ∧ Kept ws id n yaml s.world := by
    intro n
    constructor
    · rintro s s' others ⟨holds, made, kept⟩
      exact ⟨stable s s' others.undisturbed others.profiles holds, made.later others.undisturbed others.revisions,
        kept.later others.undisturbed⟩
    · rintro s ⟨holds, made, -⟩
      exact ⟨holds, .inr made⟩
  have start' : R s ∧ s.made .revisionMetadata = [] := ⟨start, none_⟩
  apply (before.reads Reading.authorize start').bind
  intro actor s start
  apply (before.reads Reading.workspace start).bind
  intro _ s start
  apply Meets.bind (before.profile start)
  rintro ⟨entity, record⟩ s ⟨start, real, fetched, data⟩
  have read := before.and (K := fun s => Fetched ws id entity s.world) fun _ _ undisturbed fetched => fetched.later undisturbed
  apply (read.reads Reading.validateConfig ⟨start, fetched⟩).bind
  rintro config s ⟨start, fetched⟩
  apply require_then (before.within s start)
  intro numbered
  apply require_then (before.within s start)
  intro _ s₁ others _ reply s₂ answered
  obtain ⟨⟨holds, none_⟩, fetched⟩ := read.stable s s₁ others ⟨start, fetched⟩
  have written : Undisturbed ws s₁.world s₂.world ∧ s₂.inserted = s₁.inserted := replace_profile fetched data (by exact rfl) answered
  have reserved : R s₂ ∧ s₂.made .revisionMetadata = [] :=
    ⟨stable s₁ s₂ written.1 (made_congr written.2 _) holds, (made_congr written.2 _).trans none_⟩
  refine ⟨before.within s₂ reserved, ?_⟩
  cases reply with
  | error e => exact before.within s₂ reserved
  | ok reservation =>
    intro s₃ others _ reply s₄ answered
    obtain ⟨holds, none_⟩ := before.stable s₂ s₃ others reserved
    obtain ⟨undisturbed, same, blob⟩ := put_blob answered
    have uploaded : R s₄ ∧ s₄.made .revisionMetadata = [] :=
      ⟨stable s₃ s₄ undisturbed (made_congr same _) holds, (made_congr same _).trans none_⟩
    refine ⟨before.within s₄ uploaded, ?_⟩
    cases reply with
    | error e => exact before.within s₄ uploaded
    | ok u =>
      have stored := before.and (K := fun s => Blob ws id record.nextRevision yaml s.world) fun _ _ undisturbed blob =>
        blob.later undisturbed.evolves
      apply (stored.reads Reading.now ⟨uploaded, blob rfl⟩).bind
      intro time s start
      apply (insertRevision_serving stable (nonempty_of_isText real) (by simpa using numbered) start).bind
      rintro _ s holds
      apply ((listed _).spares recordAudit_apart holds).bind
      rintro _ s ⟨holds, made, kept⟩
      exact ⟨holds, made, kept⟩

end Made
end Azbridge.Broker.Saving
