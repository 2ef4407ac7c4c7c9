import Azbridge.Lib.History
import Azbridge.Broker.Publication
import Azbridge.Broker.Saving

/-!
# Numbers of revisions

A number is reserved by a conditional write of its profile, then its text is stored, then its row is inserted.
Whoever stops in between leaves a gap, and nothing else: the profile stays ahead of every number that has a text
or a row, and a row comes after its text. A number is handed out after its text was stored, which succeeds once.
-/

namespace Azbridge.Broker.Numbering
open Program Profiles Interleaving Saving

variable {app : App} {ws ws' id id' yaml : String} {n : Nat} {w w' : World}

/-! ### Texts and rows -/

theorem of_parseU64 {m : Nat} (parsed : Text.parseU64 (toString n) = some m) : n = m := by
  have digits : (toString n).toList = Nat.toDigits 10 n := Nat.toList_repr
  simp only [Text.parseU64, digits] at parsed
  split at parsed
  · next rest same =>
    have digit : '+'.isDigit = true := Text.digit_of_toString (n := n) (by rw [digits, same]; exact .head _)
    exact absurd digit (by decide)
  · split at parsed
    · rw [Nat.ofDigitChars_ten_toDigits] at parsed
      exact Option.some.inj parsed
    · cases parsed

/-- The revision has a row. -/
def Registered (ws id : String) (n : Nat) (w : World) : Prop :=
  w.store.lookup ⟨.revisionMetadata, ws, revisionKey id n⟩ ≠ none

/-- The profile is past this number. -/
def Past (ws id : String) (n : Nat) (w : World) : Prop :=
  ∀ e r, w.store.lookup ⟨.profiles, ws, id⟩ = some e → e.data = .profile r → n < r.nextRevision

structure Numbered (app : App) (w : World) : Prop where
  stored : ∀ ws id n yaml, Blob ws id n yaml w → Past ws id n w
  registered : ∀ ws id n, Registered ws id n w → Past ws id n w
  keyed : ∀ ws row e, w.store.lookup ⟨.revisionMetadata, ws, row⟩ = some e → ∃ id n at_, row = revisionKey id n ∧
    e.data = .revision ⟨n, at_⟩ ∧ n ≠ 0 ∧ ∃ yaml config, Blob ws id n yaml w ∧ parseManagedConfig app yaml = .ok config

/-- Where there are no revisions yet. -/
theorem Numbered.of_unrevised (rows : ∀ ws row, w.store.lookup ⟨.revisionMetadata, ws, row⟩ = none)
    (blobs : ∀ path, w.configs.lookup path = none) : Numbered app w := by
  constructor
  · rintro ws id n yaml ⟨path, -, held⟩
    rw [blobs] at held
    cases held
  · intro ws id n registered
    exact absurd (rows ws _) registered
  · intro ws row e held
    rw [rows] at held
    cases held

/-- Profiles count upwards, and none comes; revisions stay. -/
structure Later (w w' : World) : Prop where
  evolves : Evolves w w'
  rows : ∀ ws row e, w.store.lookup ⟨.revisionMetadata, ws, row⟩ = some e → w'.store.lookup ⟨.revisionMetadata, ws, row⟩ = some e
  counted : ∀ ws id e' r', w'.store.lookup ⟨.profiles, ws, id⟩ = some e' → e'.data = .profile r' →
    ∃ e r, w.store.lookup ⟨.profiles, ws, id⟩ = some e ∧ e.data = .profile r ∧ r.nextRevision ≤ r'.nextRevision

theorem Later.refl (w : World) : Later w w := ⟨.refl w, fun _ _ _ held => held, fun _ _ e r held data => ⟨e, r, held, data, Nat.le_refl _⟩⟩

theorem Later.trans {w'' : World} (first : Later w w') (second : Later w' w'') : Later w w'' := by
  refine ⟨first.evolves.trans second.evolves, fun ws row e held => second.rows ws row e (first.rows ws row e held), ?_⟩
  intro ws id e'' r'' held data
  obtain ⟨e', r', held', data', up⟩ := second.counted ws id e'' r'' held data
  obtain ⟨e, r, held, data, up'⟩ := first.counted ws id e' r' held' data'
  exact ⟨e, r, held, data, Nat.le_trans up' up⟩

theorem Past.later (past : Past ws id n w) (later : Later w w') : Past ws id n w' := by
  intro e' r' held data
  obtain ⟨e, r, held, data, up⟩ := later.counted ws id e' r' held data
  have before := past e r held data
  omega

theorem Fetched.since {e : Entity Value} (fetched : Fetched ws id e w) (evolves : Evolves w w') : Fetched ws id e w' := by
  obtain ⟨w₀, since, held⟩ := fetched
  exact ⟨w₀, since.trans evolves, held⟩

/-! ### One request -/

def Aside (r : Request) : Prop := Apart r ∧ ∀ ws profile revision yaml, r ≠ .putRevision ws profile revision yaml

section Requests
variable {r : Request} {reply : Except BrokerError (Reply r)}

theorem configs_aside (aside : Aside r) (answered : Responds anyTime w r reply w') : w'.configs = w.configs := by
  cases r with
  | get => rw [(responds_get answered).1]
  | list => rw [(responds_list answered).1]
  | getRevision => rw [(responds_getRevision answered).1]
  | insert =>
    rcases responds_insert answered with ⟨e, -, rfl⟩ | ⟨e, s, -, -, -, -, rfl⟩
    · rfl
    · rfl
  | replace =>
    rcases responds_replace answered with ⟨e, -, rfl⟩ | ⟨e, s, old, -, -, -, -, -, rfl⟩
    · rfl
    · rfl
  | delete =>
    rcases responds_delete answered with ⟨e, -, rfl⟩ | ⟨old, -, -, -, rfl⟩
    · rfl
    · rfl
  | putRevision => exact absurd rfl (aside.2 _ _ _ _)
  | now =>
    rcases responds_now answered with ⟨e, -, rfl⟩ | ⟨time, -, -, -, rfl⟩
    · rfl
    · rfl
  | newUuid =>
    obtain ⟨u, -, -, rfl⟩ := responds_newUuid answered
    rfl
  | random =>
    obtain ⟨s, -, -, -, rfl⟩ := responds_random answered
    rfl
  | _ => rw [responds_external rfl answered]

/-- Where profiles, revisions and texts are the same, so is what is known of them. -/
theorem Numbered.congr (numbered : Numbered app w) (profiles : ∀ ws id, w'.store.lookup ⟨.profiles, ws, id⟩ = w.store.lookup ⟨.profiles, ws, id⟩)
    (revisions : ∀ ws row, w'.store.lookup ⟨.revisionMetadata, ws, row⟩ = w.store.lookup ⟨.revisionMetadata, ws, row⟩)
    (configs : w'.configs = w.configs) : Numbered app w' := by
  have past : ∀ ws id n, Past ws id n w → Past ws id n w' := by
    intro ws id n past e r held
    rw [profiles] at held
    exact past e r held
  constructor
  · rintro ws id n yaml ⟨path, accepted, held⟩
    rw [configs] at held
    exact past ws id n (numbered.stored ws id n yaml ⟨path, accepted, held⟩)
  · intro ws id n registered
    apply past
    apply numbered.registered
    rwa [Registered, ← revisions]
  · intro ws row e held
    rw [revisions] at held
    obtain ⟨id, n, at_, key, data, positive, yaml, config, ⟨path, accepted, held⟩, parsed⟩ := numbered.keyed ws row e held
    exact ⟨id, n, at_, key, data, positive, yaml, config, ⟨path, accepted, by rw [configs]; exact held⟩, parsed⟩

theorem aside_step (numbered : Numbered app w) (aside : Aside r) (answered : Responds anyTime w r reply w') :
    Later w w' ∧ Numbered app w' := by
  have profiles : ∀ ws id, w'.store.lookup ⟨.profiles, ws, id⟩ = w.store.lookup ⟨.profiles, ws, id⟩ :=
    fun ws id => responds_other answered fun named => aside.1.1 _ named rfl
  have revisions : ∀ ws row, w'.store.lookup ⟨.revisionMetadata, ws, row⟩ = w.store.lookup ⟨.revisionMetadata, ws, row⟩ :=
    fun ws row => responds_other answered fun named => aside.1.2 _ named rfl
  refine ⟨⟨.of_responds answered, fun ws row e held => (revisions ws row).trans held, ?_⟩,
    numbered.congr profiles revisions (configs_aside aside answered)⟩
  intro ws id e r held data
  rw [profiles] at held
  exact ⟨e, r, held, data, Nat.le_refl _⟩

end Requests

/-- A profile that was read is written back with a number that is not smaller. -/
theorem replace_step {e : Entity Value} {r : ProfileRecord} (r' : ProfileRecord) {reply : Except BrokerError (Entity Value)}
    (numbered : Numbered app w) (fetched : Fetched ws id e w) (data : e.data = .profile r) (up : r.nextRevision ≤ r'.nextRevision)
    (answered : Responds anyTime w (.replace .profiles ws id (encode r') e.etag) reply w') :
    Later w w' ∧ Numbered app w' ∧ ∀ a, reply = .ok a → ∀ n, n < r'.nextRevision → Past ws id n w' := by
  have evolves := Evolves.of_responds answered
  rcases responds_replace answered with ⟨failure, rfl, rfl⟩ | ⟨written, store, old, found, tag, content, stored, -, rfl⟩
  · refine ⟨.refl _, numbered, ?_⟩
    rintro a ⟨⟩
  have own : w.store.lookup ⟨.profiles, ws, id⟩ = some e := by
    obtain ⟨w₀, since, read⟩ := fetched
    have untouched : old = e := since.unchanged read found tag
    exact untouched ▸ found
  have later : Later w { w with store := store } := by
    refine ⟨evolves, fun ws' row e' held => (stored.others _ (by simp)).trans held, ?_⟩
    intro ws' id' e' r₁ held data'
    by_cases same : (⟨.profiles, ws', id'⟩ : Key) = ⟨.profiles, ws, id⟩
    · rw [same, stored.written, Option.some.injEq] at held
      subst held
      obtain rfl : r' = r₁ := Value.profile.inj (content.symm.trans data')
      exact ⟨e, r, by rw [same]; exact own, data, up⟩
    · rw [stored.others _ same] at held
      exact ⟨e', r₁, held, data', Nat.le_refl _⟩
  refine ⟨later, ?_, ?_⟩
  · constructor
    · intro ws' id' n yaml blob
      exact (numbered.stored ws' id' n yaml blob).later later
    · intro ws' id' n registered
      rw [Registered, stored.others _ (by simp)] at registered
      exact (numbered.registered ws' id' n registered).later later
    · intro ws' row e' held
      rw [stored.others _ (by simp)] at held
      exact numbered.keyed ws' row e' held
  · intro a _ n less e' r₁ held data'
    rw [stored.written, Option.some.injEq] at held
    subst held
    obtain rfl : r' = r₁ := Value.profile.inj (content.symm.trans data')
    exact less

theorem put_step {reply : Except BrokerError Unit} (numbered : Numbered app w) (past : Past ws id n w)
    (answered : Responds anyTime w (.putRevision ws id (toString n) yaml) reply w') :
    Later w w' ∧ Numbered app w' ∧ (reply = .ok () → Blob ws id n yaml w') := by
  have evolves := Evolves.of_responds answered
  rcases responds_putRevision answered with ⟨failure, rfl, rfl⟩ | ⟨path, accepted, absent, -, rfl⟩
  · exact ⟨.refl _, numbered, nofun⟩
  have blob : Blob ws id n yaml { w with configs := w.configs.insert path yaml } := ⟨path, accepted, AList.lookup_insert _⟩
  refine ⟨⟨evolves, fun _ _ _ held => held, fun _ _ e r held data => ⟨e, r, held, data, Nat.le_refl _⟩⟩, ?_, fun _ => blob⟩
  constructor
  · rintro ws' id' n' yaml' ⟨path', accepted', held⟩
    by_cases same : path' = path
    · obtain ⟨rfl, rfl, numbers⟩ := (revisionPath_inj accepted' accepted).mp same
      obtain ⟨-, -, m, parsed, -⟩ := revisionPath_ok accepted
      rw [parsed] at numbers
      obtain rfl := of_parseU64 parsed
      obtain rfl := of_parseU64 numbers
      exact past
    · have held' : w.configs.lookup path' = some yaml' := (AList.lookup_insert_ne same).symm.trans held
      exact numbered.stored ws' id' n' yaml' ⟨path', accepted', held'⟩
  · exact numbered.registered
  · intro ws' row e held
    obtain ⟨id', n', at_, key, data, positive, yaml', config, blob', parsed⟩ := numbered.keyed ws' row e held
    exact ⟨id', n', at_, key, data, positive, yaml', config, blob'.later evolves, parsed⟩

theorem insert_step {reply : Except BrokerError (Entity Value)} {time : Nat} {config : Config} (numbered : Numbered app w)
    (past : Past ws id n w) (positive : n ≠ 0) (blob : Blob ws id n yaml w) (parsed : parseManagedConfig app yaml = .ok config)
    (answered : Responds anyTime w (.insert .revisionMetadata ws (revisionKey id n) (encode (⟨n, time⟩ : RevisionRecord))) reply w') :
    Later w w' ∧ Numbered app w' := by
  have evolves := Evolves.of_responds answered
  rcases responds_insert answered with ⟨failure, rfl, rfl⟩ | ⟨e, store, absent, content, stored, -, rfl⟩
  · exact ⟨.refl _, numbered⟩
  have profiles : ∀ ws id, store.lookup ⟨.profiles, ws, id⟩ = w.store.lookup ⟨.profiles, ws, id⟩ :=
    fun ws id => stored.others _ (by simp)
  have later : Later w { w with store := store } := by
    refine ⟨evolves, ?_, ?_⟩
    · intro ws' row e' held
      have other : (⟨.revisionMetadata, ws', row⟩ : Key) ≠ ⟨.revisionMetadata, ws, revisionKey id n⟩ := by
        intro same
        rw [same, absent] at held
        cases held
      exact (stored.others _ other).trans held
    · intro ws id e r held data
      exact ⟨e, r, (profiles ws id).symm.trans held, data, Nat.le_refl _⟩
  refine ⟨later, ?_⟩
  constructor
  · intro ws' id' n' yaml' blob'
    exact (numbered.stored ws' id' n' yaml' blob').later later
  · intro ws' id' n' registered
    by_cases same : (⟨.revisionMetadata, ws', revisionKey id' n'⟩ : Key) = ⟨.revisionMetadata, ws, revisionKey id n⟩
    · simp only [Key.mk.injEq, true_and] at same
      obtain ⟨rfl, rfl⟩ := revisionKey_inj.mp same.2
      obtain rfl := same.1
      exact past.later later
    · rw [Registered, stored.others _ same] at registered
      exact (numbered.registered ws' id' n' registered).later later
  · intro ws' row e' held
    by_cases same : (⟨.revisionMetadata, ws', row⟩ : Key) = ⟨.revisionMetadata, ws, revisionKey id n⟩
    · rw [same, stored.written, Option.some.injEq] at held
      subst held
      simp only [Key.mk.injEq, true_and] at same
      obtain ⟨rfl, rfl⟩ := same
      exact ⟨id, n, time, rfl, content, positive, yaml, config, blob, parsed⟩
    · rw [stored.others _ same] at held
      exact numbered.keyed ws' row e' held

/-! ### Handlers -/

def numbering (app : App) : Contract Request Reply BrokerError World where
  answers := Responds anyTime
  invariant := Numbered app
  rely := Later
  guarantee w _ w' := Later w w' ∧ Numbered app w'

/-- The program goes on as `Q` says, where it does not fail. -/
def Counting {α : Type} (app : App) (Q : α → World → Prop) (p : Handler α) (w : World) : Prop :=
  Meets (numbering app) Q (fun _ _ => True) p w

section Handlers
variable {α β : Type} {headers : Headers} {J : World → Prop} {e : BrokerError}

/-- Others leave it true. -/
def Steady (J : World → Prop) : Prop := ∀ w w', Later w w' → J w → J w'

theorem Steady.and {K : World → Prop} (first : Steady J) (second : Steady K) : Steady fun w => J w ∧ K w := by
  rintro w w' later ⟨holds, holds'⟩
  exact ⟨first w w' later holds, second w w' later holds'⟩

theorem steady_true : Steady fun _ => True := fun _ _ _ _ => trivial

theorem steady_past : Steady (Past ws id n) := fun _ _ later past => past.later later

theorem steady_blob : Steady (Blob ws id n yaml) := fun _ _ later blob => blob.later later.evolves

theorem steady_fetched {entity : Entity Value} : Steady (Fetched ws id entity) :=
  fun _ _ later fetched => Fetched.since fetched later.evolves

theorem Counting.bind {p : Handler α} {f : α → Handler β} {P : α → World → Prop} {Q : β → World → Prop} (first : Counting app P p w)
    (rest : ∀ a w, P a w → Counting app Q (f a) w) : Counting app Q (p >>= f) w := Meets.bind first rest

theorem require_then {condition : Bool} {f : Unit → Handler β} {Q : β → World → Prop}
    (rest : condition = true → Counting app Q (f ()) w) : Counting app Q (require condition e >>= f) w := by
  cases condition with
  | false => exact trivial
  | true => exact rest rfl

theorem okOr_then {value : Option α} {f : α → Handler β} {Q : β → World → Prop}
    (rest : ∀ a, value = some a → Counting app Q (f a) w) : Counting app Q (okOr value e >>= f) w := by
  cases value with
  | none => exact trivial
  | some a => exact rest a rfl

/-- What touches neither profiles nor revisions. -/
theorem counting_aside {p : Handler α} (uses : p.Uses Aside) (steady : Steady J) (start : J w) : Counting app (fun _ => J) p w := by
  have meets : Meets (numbering app) (fun _ => J) (fun _ => J) p w := by
    apply uses.meets
    · intro w w' holds later
      exact steady w w' later holds
    · intro w r reply w' holds numbered allowed answered
      obtain ⟨later, numbered'⟩ := aside_step numbered allowed answered
      exact ⟨⟨later, numbered'⟩, steady w w' later holds⟩
    · exact start
  exact meets.mono (fun _ _ holds => holds) fun _ _ _ => trivial

theorem aside_of_reading {p : Handler α} (reading : Reading p) : p.Uses Aside := by
  apply reading.mono
  intro r reads
  refine ⟨⟨reads.spares, reads.spares⟩, ?_⟩
  rintro _ _ _ _ rfl
  cases reads.1

theorem recordAudit_aside {actor action target : String} : (recordAudit ws actor action target).Uses Aside := by
  apply Program.Uses.bind
  · exact uses_request ⟨⟨nofun, nofun⟩, nofun⟩
  intro u
  apply (aside_of_reading Reading.now).bind
  intro time
  apply Program.Uses.bind
  · apply uses_request
    refine ⟨⟨?_, ?_⟩, nofun⟩
    · rintro k named
      obtain rfl := Option.some.inj named
      exact nofun
    · rintro k named
      obtain rfl := Option.some.inj named
      exact nofun
  intro _
  exact uses_pure _

theorem counting_reads {p : Handler α} (reading : Reading p) (steady : Steady J) (start : J w) : Counting app (fun _ => J) p w :=
  counting_aside (aside_of_reading reading) steady start

theorem counting_profile (steady : Steady J) (start : J w) : Counting app
    (fun found w => J w ∧ Fetched ws id found.1 w ∧ found.1.data = .profile found.2) (Profiles.profile ws id) w := by
  apply require_then
  intro _ w₁ later numbered reply w₂ answered
  obtain ⟨same, read⟩ := responds_get answered
  subst same
  refine ⟨⟨.refl _, numbered⟩, ?_⟩
  have holds := steady w w₂ later start
  cases reply with
  | error e => exact trivial
  | ok found =>
    have row := read found rfl
    apply okOr_then
    intro entity same
    subst same
    apply okOr_then
    intro record decoded
    apply require_then
    intro _
    exact ⟨holds, ⟨w₂, .refl _, row.symm⟩, decode_profile decoded⟩

/-- A configuration that is accepted was read from the text. -/
theorem counting_validateConfig (steady : Steady J) (start : J w) : Counting app
    (fun _ w => J w ∧ ∃ config, parseManagedConfig app yaml = .ok config) (validateConfig app ws yaml) w := by
  cases parsed : parseManagedConfig app yaml with
  | ok config =>
    have reads : Counting app (fun _ => J) (validateConfig app ws yaml) w := counting_reads Reading.validateConfig steady start
    exact Meets.mono reads (fun _ _ holds => ⟨holds, config, rfl⟩) fun _ _ _ => trivial
  | error errors =>
    unfold validateConfig checkConfig
    rw [parsed, Program.bind_assoc]
    apply (counting_reads Reading.workspace steady start).bind
    intro _ w _
    exact trivial

theorem counting_createRevision : Counting app (fun _ _ => True) (createRevision app ws id headers yaml) w := by
  apply (counting_reads Reading.authorize steady_true trivial).bind
  intro actor w _
  apply (counting_reads Reading.workspace steady_true trivial).bind
  intro _ w _
  apply (counting_profile steady_true trivial).bind
  rintro ⟨entity, record⟩ w ⟨-, fetched, data⟩
  apply (counting_validateConfig steady_fetched fetched).bind
  rintro _ w ⟨fetched, config, parsed⟩
  apply require_then
  intro positive
  apply require_then
  intro _ w₁ later numbered reply w₂ answered
  -- the number is reserved
  obtain ⟨later', numbered', past⟩ := replace_step { record with nextRevision := record.nextRevision + 1 } numbered
    (Fetched.since fetched later.evolves) data (Nat.le_succ _) answered
  refine ⟨⟨later', numbered'⟩, ?_⟩
  cases reply with
  | error e => exact trivial
  | ok reservation =>
    have past : Past ws id record.nextRevision w₂ := past reservation rfl record.nextRevision (Nat.lt_succ_self _)
    -- its text is stored
    intro w₃ later numbered reply w₄ answered
    have past := past.later later
    obtain ⟨later', numbered', blob⟩ := put_step numbered past answered
    refine ⟨⟨later', numbered'⟩, ?_⟩
    cases reply with
    | error e => exact trivial
    | ok u =>
      have reads : Counting app (fun _ w => Past ws id record.nextRevision w ∧ Blob ws id record.nextRevision yaml w) now w₄ :=
        counting_reads Reading.now (steady_past.and steady_blob) ⟨past.later later', blob rfl⟩
      apply reads.bind
      -- its row is inserted
      rintro time w ⟨past, blob⟩ w₅ later numbered reply w₆ answered
      obtain ⟨later', numbered'⟩ := insert_step numbered (past.later later) (by simpa using positive) (blob.later later.evolves)
        parsed answered
      refine ⟨⟨later', numbered'⟩, ?_⟩
      cases reply with
      | error e => exact trivial
      | ok inserted => exact (counting_aside recordAudit_aside steady_true trivial).bind fun _ _ _ => trivial

theorem counting_publish {request : PublishRevisionRequest} : Counting app (fun _ _ => True) (publish app ws id headers request) w := by
  apply (counting_reads Reading.authorize steady_true trivial).bind
  intro actor w _
  apply (counting_reads Reading.workspace steady_true trivial).bind
  intro _ w _
  apply (counting_profile steady_true trivial).bind
  rintro ⟨entity, record⟩ w ⟨-, fetched, data⟩
  apply require_then
  intro _
  apply (counting_reads Reading.revision steady_fetched fetched).bind
  intro snapshot w fetched
  apply (counting_reads Reading.validateConfig steady_fetched fetched).bind
  intro _ w fetched w₁ later numbered reply w₂ answered
  obtain ⟨later', numbered', -⟩ := replace_step
    { record with profile := { record.profile with currentRevision := some request.revision } } numbered
    (Fetched.since fetched later.evolves) data (Nat.le_refl _) answered
  refine ⟨⟨later', numbered'⟩, ?_⟩
  cases reply with
  | error e => exact trivial
  | ok replaced => exact (counting_aside recordAudit_aside steady_true trivial).bind fun _ _ _ => trivial

end Handlers

/-! ### Runs -/

def saves : Op → Prop
  | .createRevision .. | .publish .. => True
  | _ => False

def outline (app : App) : Outline (replicas app anyTime saves) where
  invariant := Numbered app
  rely _ _ := Later
  guarantee _ _ w _ w' := Later w w' ∧ Numbered app w'
  post _ _ _ _ := True
  rely_refl _ := .refl _
  rely_trans := Later.trans
  preserves _ kept := kept.2
  compatible _ _ _ kept := kept.1
  settled _ _ _ _ := trivial

theorem starts (t : Nat) (o : Op) (w : World) (admitted : saves o) : (outline app).Meets t o (o.program app) w := by
  cases o with
  | createRevision headers ws id yaml =>
    have counting : Counting app (fun _ _ => True) (createRevision app ws id headers yaml >>= fun r => pure (Outcome.revision r)) w :=
      counting_createRevision.bind fun _ _ _ => trivial
    exact counting
  | publish headers ws id request =>
    have counting : Counting app (fun _ _ => True) (publish app ws id headers request >>= fun _ => pure Outcome.done) w :=
      counting_publish.bind fun _ _ _ => trivial
    exact counting
  | _ => cases admitted

section Runs
variable {w₀ : World} {p p' : Pool}

theorem numbered_holds (start : Numbered app w₀) (run : Reaches (replicas app anyTime saves) (Pool.fresh w₀) p) :
    (outline app).Holds p :=
  Outline.holds_reaches (fun t o w _ admitted => starts t o w admitted) (Outline.holds_fresh start) run

theorem later_reaches (holds : (outline app).Holds p) (run : Reaches (replicas app anyTime saves) p p') :
    Later p.world p'.world := by
  induction run with
  | refl => exact .refl _
  | tail before step ih =>
    have between := Outline.holds_reaches (fun t o w _ admitted => starts t o w admitted) holds before
    rcases between.world_step step with same | ⟨t, th, r, -, -, kept⟩
    · rw [same]
      exact ih
    · exact ih.trans kept.1

end Runs

/-! ### Numbers that are handed out -/

def Puts (ws id : String) (n : Nat) : (r : Request) → Except BrokerError (Reply r) → Prop
  | .putRevision ws' id' number _, .ok _ => ws' = ws ∧ id' = id ∧ number = toString n
  | _, _ => False

/-- An operation stores a text under this number of its profile. -/
def OwnPuts (n : Nat) : Op → (r : Request) → Except BrokerError (Reply r) → Prop
  | .createRevision _ ws id _, r, reply => Puts ws id n r reply
  | _, _, _ => False

/-- The number is handed out. -/
def Created (n : Nat) (result : Except BrokerError Outcome) : Prop :=
  ∃ revision, result = .ok (.revision revision) ∧ revision.revision = n

/-- Requests that store no text under this number. -/
def Spared (ws id : String) (n : Nat) (r : Request) : Prop := ¬ False ∧ ∀ reply, ¬ Puts ws id n r reply

theorem spared_of_row {r : Request} (other : ∀ ws profile revision yaml, r ≠ .putRevision ws profile revision yaml) : Spared ws id n r := by
  refine ⟨not_false, ?_⟩
  intro reply puts
  cases r with
  | putRevision => exact other _ _ _ _ rfl
  | _ => exact puts

theorem spared_aside {α : Type} {p : Handler α} (uses : p.Uses Aside) : p.Uses (Spared ws id n) :=
  uses.mono fun _ aside => spared_of_row aside.2

/-- A program puts requests. -/
theorem uses_all {α : Type} {P : Request → Prop} (all : ∀ r, P r) : ∀ p : Handler α, p.Uses P
  | .done _ => .done
  | .call r next => .call (all r) fun reply => uses_all all (next reply)

/-- This number is handed out in the end. -/
def Handed (n : Nat) (result : Except BrokerError ConfigRevision) : Prop := Created n (result.map Outcome.revision)

theorem not_handed_error (e : BrokerError) : ¬ Handed n (.error e) := by
  rintro ⟨revision, same, -⟩
  cases same

theorem toString_injective {m : Nat} (same : toString m = toString n) : m = n := by
  have digits : Nat.toDigits 10 m = Nat.toDigits 10 n := by simpa using congrArg String.toList same
  have value := congrArg (fun ds => Nat.ofDigitChars 10 ds 0) digits
  simpa using value

section Redeeming
variable {headers : Headers} {m : Nat}

theorem reading_redeems {α : Type} {p : Handler α} {f : α → Handler ConfigRevision} (reading : Reading p)
    (rest : ∀ a, Redeems (fun _ _ => True) (Puts ws id n) (fun _ => False) (Handed n) (f a)) :
    Redeems (fun _ _ => True) (Puts ws id n) (fun _ => False) (Handed n) (p >>= f) :=
  (spared_aside (aside_of_reading reading)).bind_redeems not_handed_error rest

theorem spared_redeems {r : Request} {f : Reply r → Handler ConfigRevision} (spared : Spared ws id n r)
    (rest : ∀ a, Redeems (fun _ _ => True) (Puts ws id n) (fun _ => False) (Handed n) (f a)) :
    Redeems (fun _ _ => True) (Puts ws id n) (fun _ => False) (Handed n) (request r >>= f) :=
  redeems_request spared not_handed_error fun a _ => rest a

theorem redeems_createRevision : Redeems (fun _ _ => True) (Puts ws id n) (fun _ => False) (Handed n)
    (createRevision app ws id headers yaml) := by
  apply reading_redeems Reading.authorize
  intro actor
  apply reading_redeems Reading.workspace
  intro _
  apply reading_redeems Reading.profile
  rintro ⟨entity, record⟩
  apply reading_redeems Reading.validateConfig
  intro _
  apply reading_redeems Reading.require
  intro _
  apply reading_redeems Reading.require
  intro _
  apply spared_redeems (r := .replace .profiles ws id _ _) (spared_of_row nofun)
  intro _
  by_cases same : record.nextRevision = n
  · subst same
    apply redeems_claim (fun impossible => impossible) (fun _ impossible => impossible) (fun _ => ⟨rfl, rfl, rfl⟩) not_handed_error
    intro _
    exact .quiet (uses_all (fun _ => not_false) _)
  · -- Another number is stored under, and handed out.
    have other : Spared ws id n (.putRevision ws id (toString record.nextRevision) yaml) := by
      refine ⟨not_false, ?_⟩
      rintro (e | u) puts
      · exact puts
      · exact same (toString_injective puts.2.2)
    apply spared_redeems other
    intro _
    apply reading_redeems Reading.now
    intro time
    apply spared_redeems (r := .insert .revisionMetadata ws _ _) (spared_of_row nofun)
    intro _
    apply (spared_aside recordAudit_aside).bind_redeems not_handed_error
    intro _
    apply Redeems.done
    rintro ⟨revision, handed, number⟩
    obtain rfl := Outcome.revision.inj (Except.ok.inj handed)
    exact same number

theorem redeems_publish {request : PublishRevisionRequest} : Redeems (fun _ _ => True) (fun _ _ => False) (fun _ => False) (Created n)
    (Op.program app (.publish headers ws id request)) := by
  apply Program.Uses.bind_redeems (uses_all (fun _ => ⟨not_false, fun _ => not_false⟩) _)
  · rintro e ⟨revision, same, -⟩
    cases same
  intro _
  apply Redeems.done
  rintro ⟨revision, same, -⟩
  cases same

theorem redeems_program (n : Nat) (o : Op) (w : World) (admitted : (replicas app anyTime saves).admits o w) :
    Redeems (fun _ _ => True) (OwnPuts n o) (fun _ => False) (Created n) (o.program app) := by
  cases o with
  | createRevision headers ws id yaml => exact Redeems.map redeems_createRevision
  | publish headers ws id request => exact redeems_publish
  | _ => cases admitted

end Redeeming

/-! ### Revisions over runs -/

section Immutable
variable {w₀ : World} {p p' : Pool}

/-- Something is stored under the number. -/
def Occupied (ws id : String) (n : Nat) (w : World) : Prop :=
  ∃ path, revisionPath ws id (toString n) = .ok path ∧ w.configs.lookup path ≠ none

theorem occupies {r : Request} {reply : Except BrokerError (Reply r)} (answered : Responds anyTime w r reply w')
    (puts : Puts ws id n r reply) : ¬ Occupied ws id n w ∧ Occupied ws id n w' := by
  cases r with
  | putRevision ws' id' number yaml =>
    cases reply with
    | error e => exact puts.elim
    | ok u =>
      obtain ⟨rfl, rfl, rfl⟩ := puts
      rcases responds_putRevision answered with ⟨e, failed, -⟩ | ⟨path, accepted, absent, -, rfl⟩
      · cases failed
      constructor
      · rintro ⟨path', accepted', present⟩
        obtain rfl : path = path' := Except.ok.inj (accepted.symm.trans accepted')
        exact present absent
      · refine ⟨path, accepted, ?_⟩
        have stored : (w.configs.insert path yaml).lookup path = some yaml := AList.lookup_insert _
        dsimp only
        rw [stored]
        nofun
  | _ => exact puts.elim

theorem Occupied.later (occupied : Occupied ws id n w) (evolves : Evolves w w') : Occupied ws id n w' := by
  obtain ⟨path, accepted, present⟩ := occupied
  obtain ⟨yaml, held⟩ := Option.ne_none_iff_exists'.mp present
  refine ⟨path, accepted, ?_⟩
  rw [evolves.blobs path yaml held]
  nofun

theorem handed_out_once (run : Reaches (replicas app anyTime saves) (Pool.fresh w₀) p) {t t' : Nat} {headers headers' : Headers}
    {yaml' : String} {r r' : ConfigRevision} (first : p.Returned t (.createRevision headers ws id yaml) (.ok (.revision r)))
    (second : p.Returned t' (.createRevision headers' ws id yaml') (.ok (.revision r'))) (same : r.revision = r'.revision) : t = t' := by
  obtain ⟨history, recorded⟩ := run.recorded
  have accounted := (accounts (s := replicas app anyTime saves) (redeems_program r.revision)
    (fun _ _ _ _ _ _ => trivial) recorded).2
  have once := (taken_once (s := replicas app anyTime saves) (fun e => Puts ws id r.revision e.2.1 e.2.2) (Occupied ws id r.revision)
    (P := fun _ => True) (fun o _ _ => uses_all (fun _ => trivial) (o.program app))
    (fun t w r reply w' answered puts => occupies answered puts)
    (fun t w r reply w' answered _ occupied => occupied.later (.of_responds answered)) recorded).1
  obtain ⟨e, member, puts⟩ := (accounted t _ first).result ⟨r, rfl, rfl⟩
  obtain ⟨e', member', puts'⟩ := (accounted t' _ second).result ⟨r', rfl, same.symm⟩
  have equal := once.unique (mem_trace.mp member) (mem_trace.mp member') puts puts'
  exact congrArg Prod.fst equal

theorem Blob.unique {yaml' : String} (blob : Blob ws id n yaml w) (blob' : Blob ws id n yaml' w) : yaml = yaml' := by
  obtain ⟨path, accepted, stored⟩ := blob
  obtain ⟨path', accepted', stored'⟩ := blob'
  obtain rfl : path = path' := Except.ok.inj (accepted.symm.trans accepted')
  exact Option.some.inj (stored.symm.trans stored')

/-- A revision that has its row and its text is loaded. -/
theorem yields_kept {e : Entity Value} {at_ : Nat} (positive : n ≠ 0)
    (held : w.store.lookup ⟨.revisionMetadata, ws, revisionKey id n⟩ = some e) (data : e.data = .revision ⟨n, at_⟩)
    (blob : Blob ws id n yaml w) : Yields w (revision ws id n) ⟨n, at_, yaml⟩ := by
  apply yields_revision positive ?_ blob
  simp [Ledger.value, World.ledger, held, data]

/-- A revision that is loaded can be published at any time, beside whatever else is under way. -/
theorem published {v : Tape} {headers : Headers} {config : Config} {r : ProfileRecord} {t at_ : Nat}
    (publishable : Publishable app headers ws id config r v) (loaded : Yields v.world (revision ws id n) ⟨n, at_, yaml⟩)
    (parsed : parseManagedConfig app yaml = .ok config) (same : p.world = v.world) (unused : p.threads t = none) :
    ∃ q, Reaches (replicas app anyTime saves) p q ∧ q.Returned t (.publish headers ws id ⟨n, r.profile.currentRevision⟩) (.ok .done) ∧
      ∃ e, q.world.store.lookup ⟨.profiles, ws, id⟩ = some e ∧
        e.data = .profile { r with profile := { r.profile with currentRevision := some n } } := by
  obtain ⟨v', e, ran, held, data⟩ := publishes publishable loaded parsed
  have whole : (Op.program app (.publish headers ws id ⟨n, r.profile.currentRevision⟩)).exec Tape.answer v = some (.ok .done, v') :=
    exec_bind ran
  obtain ⟨k, advanced⟩ := advance_of_exec whole
  have admitted : (replicas app anyTime saves).admits (.publish headers ws id ⟨n, r.profile.currentRevision⟩) v.world := trivial
  have run := reaches_beside (s := replicas app anyTime saves) (fun _ _ _ _ _ => Tape.answer_sound) admitted advanced
    (fun _ _ _ _ => ⟨trivial, trivial⟩) unused same
  refine ⟨_, run, ?_, e, held, data⟩
  unfold Interleaving.Pool.Returned
  simp only [Function.update_self]

/-- However creations and publications interleave, fail or stop: a number is handed out once, a profile is past every
number that has a row or a text, a text never changes, and every row stands for a revision that can be loaded, now and
later, and that whoever may publish in the workspace publishes where its relays are Ready. -/
theorem revisions_are_immutable (start : Numbered app w₀) (run : Reaches (replicas app anyTime saves) (Pool.fresh w₀) p)
    (later : Reaches (replicas app anyTime saves) p p') :
    (∀ t t' headers headers' ws id yaml yaml' r r', p.Returned t (.createRevision headers ws id yaml) (.ok (.revision r)) →
      p.Returned t' (.createRevision headers' ws id yaml') (.ok (.revision r')) → r.revision = r'.revision → t = t') ∧
    (∀ ws id e r n, p.world.store.lookup ⟨.profiles, ws, id⟩ = some e → e.data = .profile r →
      (Registered ws id n p.world ∨ ∃ yaml, Blob ws id n yaml p.world) → n < r.nextRevision) ∧
    (∀ ws id n yaml yaml', Blob ws id n yaml p.world → (Blob ws id n yaml' p'.world ↔ yaml' = yaml)) ∧
    ∀ ws row e, p.world.store.lookup ⟨.revisionMetadata, ws, row⟩ = some e →
      ∃ id n at_ yaml config, row = revisionKey id n ∧ Blob ws id n yaml p.world ∧ parseManagedConfig app yaml = .ok config ∧
        Yields p.world (revision ws id n) ⟨n, at_, yaml⟩ ∧ Yields p'.world (revision ws id n) ⟨n, at_, yaml⟩ ∧
        ∀ headers r t (v : Tape), p'.world = v.world → p'.threads t = none → Publishable app headers ws id config r v →
          ∃ q, Reaches (replicas app anyTime saves) p' q ∧
            q.Returned t (.publish headers ws id ⟨n, r.profile.currentRevision⟩) (.ok .done) ∧
            ∃ e, q.world.store.lookup ⟨.profiles, ws, id⟩ = some e ∧
              e.data = .profile { r with profile := { r.profile with currentRevision := some n } } := by
  have holds := numbered_holds start run
  have numbered : Numbered app p.world := holds.invariant
  have after := later_reaches holds later
  refine ⟨?_, ?_, ?_, ?_⟩
  · intro t t' headers headers' ws id yaml yaml' r r' first second same
    exact handed_out_once run first second same
  · intro ws id e r n held data used
    rcases used with registered | ⟨yaml, blob⟩
    · exact numbered.registered ws id n registered e r held data
    · exact numbered.stored ws id n yaml blob e r held data
  · intro ws id n yaml yaml' blob
    have kept := blob.later after.evolves
    constructor
    · intro blob'
      exact Blob.unique blob' kept
    · rintro rfl
      exact kept
  · intro ws row e held
    obtain ⟨id, n, at_, rfl, data, positive, yaml, config, blob, parsed⟩ := numbered.keyed ws row e held
    have kept : Yields p'.world (revision ws id n) ⟨n, at_, yaml⟩ :=
      yields_kept positive (after.rows ws _ e held) data (blob.later after.evolves)
    refine ⟨id, n, at_, yaml, config, rfl, blob, parsed, yields_kept positive held data blob, kept, ?_⟩
    intro headers r t v same unused publishable
    exact published publishable (same ▸ kept) parsed same unused

end Immutable

/-! ### A first revision -/

/-- A Ready workspace with a Ready connection, and a profile without revisions. -/
def preparedStore : Except BrokerError (MemoryMetadata Value) := do
  let (_, store) ← MemoryMetadata.empty.insert .workspaces platformPartition localWorkspace (.workspace localRecord localExtra)
  let (_, store) ← store.insert .connections localWorkspace localGateway (.connection ⟨localGateway, "r", .ready, none⟩ {})
  let (_, store) ← store.insert .profiles localWorkspace localProfile (.profile ⟨⟨localProfile, "p", none⟩, 1⟩)
  return store

def preparedTape : Tape := { localTape with world := { World.empty with store := preparedStore.toOption.getD .empty } }

def firstOp : Op := .createRevision (browser 1) localWorkspace localProfile localYaml

/-- The profile after its first revision, still without a published one. -/
def firstProfile : ProfileRecord := ⟨⟨localProfile, "p", none⟩, 2⟩

/-- What a publication reads and writes: the rows it asks for, and those that it makes. -/
structure Prepared (v : Tape) : Prop where
  workspace : (v.world.store.lookup ⟨.workspaces, platformPartition, localWorkspace⟩).map (·.data) =
    some (.workspace localRecord localExtra)
  connections : (v.world.store.list .connections localWorkspace).toOption.map (·.map (·.data)) =
    some [.connection ⟨localGateway, "r", .ready, none⟩ {}]
  profile : (v.world.store.lookup ⟨.profiles, localWorkspace, localProfile⟩).map (·.data) = some (.profile firstProfile)
  revision : (v.world.store.lookup ⟨.revisionMetadata, localWorkspace, revisionKey localProfile 1⟩).isSome = true
  room : v.world.store.version + 2 < Text.u64
  clock : v.world.clock = 0
  drawn : ∃ u rest, v.uuids = u :: rest ∧ u ∉ v.world.uuids ∧ v.world.store.lookup ⟨.audit, localWorkspace, u.hyphenated⟩ = none

/-- The creation returns the first number and leaves what a publication needs. -/
def numberedFirst : Option (Handler Outcome × Tape) → Bool
  | some (.done (.ok (.revision r)), v) =>
    r.revision == 1 &&
    decide ((v.world.store.lookupFast .workspaces platformPartition localWorkspace).map (·.data) = some (.workspace localRecord localExtra)) &&
    decide ((v.world.store.listFast .connections localWorkspace).toOption.map (·.map (·.data)) =
      some [.connection ⟨localGateway, "r", .ready, none⟩ {}]) &&
    decide ((v.world.store.lookupFast .profiles localWorkspace localProfile).map (·.data) = some (.profile firstProfile)) &&
    (v.world.store.lookupFast .revisionMetadata localWorkspace (revisionKey localProfile 1)).isSome &&
    decide (v.world.store.version + 2 < Text.u64) && v.world.clock == 0 &&
    match v.uuids with
    | u :: _ => decide (u ∉ v.world.uuids) && (v.world.store.lookupFast .audit localWorkspace u.hyphenated).isNone
    | [] => false
  | _ => false

/-- What the creation returns, and that there were no revisions before it. -/
structure First where
  tape : Tape
  holds : numberedFirst ((firstOp.program localApp).advance Tape.answer 99 tape) = true
  unrevised : (tape.world.store.entities.entries.all fun x => x.1.table != .revisionMetadata) = true
  unwritten : tape.world.configs = ∅

def first : First where
  tape := preparedTape
  holds := (congrArg (fun answer => numberedFirst ((firstOp.program localApp).advance answer 99 preparedTape)) Tape.answer_eq).trans
    (by decide +kernel)
  unrevised := by decide +kernel
  unwritten := rfl

theorem numberedFirst_cases {out : Option (Handler Outcome × Tape)} (h : numberedFirst out = true) :
    ∃ r v, out = some (.done (.ok (.revision r)), v) ∧ r.revision = 1 ∧ Prepared v := by
  unfold numberedFirst at h
  split at h
  · next r v =>
    split at h
    · next u rest drawn =>
      simp only [Bool.and_eq_true, beq_iff_eq, decide_eq_true_eq, MemoryMetadata.lookupFast_eq, MemoryMetadata.listFast_eq,
        Option.isNone_iff_eq_none] at h
      obtain ⟨⟨⟨⟨⟨⟨⟨one, workspace⟩, connections⟩, profile⟩, revision⟩, room⟩, clock⟩, fresh, absent⟩ := h
      exact ⟨r, v, rfl, one, workspace, connections, profile, revision, room, clock, u, rest, drawn, fresh, absent⟩
    · simp at h
  · cases h

theorem First.numbered (first : First) : Numbered localApp first.tape.world := by
  apply Numbered.of_unrevised
  · intro ws row
    by_contra present
    obtain ⟨e, held⟩ := Option.ne_none_iff_exists'.mp present
    have other := List.all_eq_true.mp first.unrevised _ (AList.mem_lookup_iff.mp held)
    simp at other
  · intro path
    rw [first.unwritten]
    exact AList.lookup_empty path

theorem First.runs (first : First) : ∃ (p : Pool) (v : Tape), Reaches (replicas localApp anyTime saves) (Pool.fresh first.tape.world) p ∧
    (∃ r, p.Returned 0 firstOp (.ok (.revision r)) ∧ r.revision = 1) ∧ p.threads 1 = none ∧ p.world = v.world ∧ Prepared v := by
  obtain ⟨r, v, ran, one, prepared⟩ := numberedFirst_cases first.holds
  have fresh : (Pool.fresh first.tape.world : Pool).Idle := fun t th held => nomatch held
  have admitted : (replicas localApp anyTime saves).admits firstOp first.tape.world := trivial
  have run := reaches_start (s := replicas localApp anyTime saves) (t := 0) (p := Pool.fresh first.tape.world)
    (fun _ _ _ _ _ => Tape.answer_sound) admitted ran fresh rfl rfl
  refine ⟨_, v, run, ⟨r, ?_, one⟩, rfl, rfl, prepared⟩
  unfold Interleaving.Pool.Returned
  simp only [Function.update_self]

/-- The first user administers the platform. -/
theorem authorizes_local {v : Tape} (clock : v.world.clock = 0) :
    v.Reads (Auth.authorize localApp (browser 1) localWorkspace .operator true) ⟨⟨1, "1", ""⟩, "csrf", 1⟩ := by
  have token : v.Reads (.done (Auth.cookie (browser 1) Auth.sessionCookie)) "1" := by
    have kept : Auth.cookie (browser 1) Auth.sessionCookie = .ok "1" := by decide +kernel
    rw [kept]
    rfl
  have opened : (localApp.openText "1").bind Auth.asSession = some ⟨⟨1, "1", ""⟩, "csrf", 1⟩ := by decide +kernel
  have session : Yields v.world (openAs localApp Auth.asSession "1") ⟨⟨1, "1", ""⟩, "csrf", 1⟩ := Yields.okOr opened
  have ticked : now.exec Tape.answer v = some (.ok 0, v) := by
    have answered : v.answer .now = some (.ok v.world.clock, v) := if_pos (by omega)
    simp only [now, Program.request, exec, answered, clock]
  have current : v.Reads (Auth.currentSession localApp (browser 1)) ⟨⟨1, "1", ""⟩, "csrf", 1⟩ := by
    unfold Tape.Reads Auth.currentSession
    rw [token.bind, session.reads.bind, exec_bind ticked]
    rfl
  have unforged : v.Reads (.done (Auth.requireCsrf localApp (browser 1) ⟨⟨1, "1", ""⟩, "csrf", 1⟩)) () := by
    have matching : Auth.requireCsrf localApp (browser 1) ⟨⟨1, "1", ""⟩, "csrf", 1⟩ = .ok () := by decide +kernel
    rw [matching]
    rfl
  have checked : v.Reads (Auth.sessionFor localApp (browser 1) true) ⟨⟨1, "1", ""⟩, "csrf", 1⟩ := by
    unfold Tape.Reads Auth.sessionFor
    rw [current.bind, if_pos rfl, unforged.bind]
    rfl
  have role : Yields v.world (Auth.workspaceRole localApp ⟨1, "1", ""⟩ localWorkspace .operator) .admin := by
    unfold Auth.workspaceRole
    apply (Yields.require (by decide +kernel)).bind
    rfl
  unfold Tape.Reads Auth.authorize
  rw [checked.bind, role.reads.bind]
  rfl

theorem local_text {config : Config} (parsed : parseManagedConfig localApp yaml = .ok config) : yaml = localYaml := by
  by_contra other
  have unread : localApp.yaml.config yaml = none := if_neg other
  unfold parseManagedConfig at parsed
  rw [unread] at parsed
  split at parsed
  · cases parsed
  · split at parsed <;> cases parsed

theorem local_relays {config : Config} (parsed : parseManagedConfig localApp localYaml = .ok config) : config.relayNames = ["r"] := by
  have names : (parseManagedConfig localApp localYaml).toOption.map (·.relayNames) = some ["r"] := by decide +kernel
  rw [parsed] at names
  exact Option.some.inj names

theorem Prepared.publishable {v : Tape} (prepared : Prepared v) {config : Config}
    (parsed : parseManagedConfig localApp localYaml = .ok config) :
    Publishable localApp (browser 1) localWorkspace localProfile config firstProfile v := by
  obtain ⟨e, held, data⟩ := Option.map_eq_some_iff.mp prepared.workspace
  obtain ⟨e', held', data'⟩ := Option.map_eq_some_iff.mp prepared.profile
  obtain ⟨entities, listed, rows⟩ := Option.map_eq_some_iff.mp prepared.connections
  have canonical : Uuid.isText localWorkspace = true := by decide +kernel
  have ready : Yields v.world (Profiles.workspace localWorkspace true) () := by
    refine (Yields.require canonical).bind ((Yields.get held).bind ((Yields.okOr rfl).bind ?_))
    refine (Yields.decode (a := localRecord) (by rw [data]; rfl)).bind ((Yields.require ?_).bind (Yields.require rfl))
    exact beq_self_eq_true localWorkspace
  have decoded : List.Forall₂ (fun e c => Record.decode e.data = some c) entities [(⟨localGateway, "r", .ready, none⟩ : Connection)] := by
    obtain ⟨c, rest, rfl, row, none_⟩ := List.map_eq_cons_iff.mp rows
    obtain rfl := List.map_eq_nil_iff.mp none_
    exact .cons (by rw [row]; rfl) .nil
  have found : v.world.store.list .connections localWorkspace = .ok entities := by
    cases answer : v.world.store.list .connections localWorkspace with
    | error e =>
      rw [answer] at listed
      cases listed
    | ok found =>
      rw [answer] at listed
      exact congrArg Except.ok (Option.some.inj listed)
  have names : ∀ name ∈ config.relayNames, name ∈ readyNames [(⟨localGateway, "r", .ready, none⟩ : Connection)] := by
    rw [local_relays parsed]
    decide +kernel
  exact ⟨⟨_, authorizes_local prepared.clock⟩, ready, by decide +kernel, ⟨e', held', data'⟩, rfl,
    ⟨_, (Yields.list found).bind (Yields.decodeAll decoded), names⟩, prepared.room, by rw [prepared.clock]; decide, prepared.drawn⟩

/-- Nobody else was given the first number, and it is published. -/
theorem revisions_are_immutable_first : ∃ p : Pool, Reaches (replicas localApp anyTime saves) (Pool.fresh first.tape.world) p ∧
    (∃ r, p.Returned 0 firstOp (.ok (.revision r)) ∧ r.revision = 1) ∧
    (∀ t headers yaml r, p.Returned t (.createRevision headers localWorkspace localProfile yaml) (.ok (.revision r)) →
      r.revision = 1 → t = 0) ∧
    ∃ q, Reaches (replicas localApp anyTime saves) p q ∧
      q.Returned 1 (.publish (browser 1) localWorkspace localProfile ⟨1, none⟩) (.ok .done) ∧
      ∃ e, q.world.store.lookup ⟨.profiles, localWorkspace, localProfile⟩ = some e ∧
        e.data = .profile ⟨⟨localProfile, "p", some 1⟩, 2⟩ := by
  obtain ⟨p, v, run, ⟨r, own, one⟩, unused, same, prepared⟩ := first.runs
  have claim := revisions_are_immutable first.numbered run .refl
  refine ⟨p, run, ⟨r, own, one⟩, ?_, ?_⟩
  · intro t headers yaml r' returned same
    exact claim.1 t 0 _ _ _ _ _ _ _ _ returned own (same.trans one.symm)
  · obtain ⟨e, held⟩ := Option.isSome_iff_exists.mp prepared.revision
    rw [← same] at held
    obtain ⟨id, n, at_, yaml, config, key, -, parsed, -, -, publishes⟩ := claim.2.2.2 _ _ e held
    obtain ⟨rfl, rfl⟩ := revisionKey_inj.mp key
    obtain rfl := local_text parsed
    exact publishes _ _ 1 v same unused (prepared.publishable parsed)

end Azbridge.Broker.Numbering
