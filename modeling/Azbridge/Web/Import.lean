import Azbridge.Lib.Outcomes
import Azbridge.Broker.Saving
import Azbridge.Hosts.Browser
import Azbridge.Web.CredentialText

/-!
# Importing a profile

A call of the import finds or creates a profile, looks for what an earlier call may have saved, and saves. Any of
its requests may take effect without an answer; what it remembers of them is in the item, where the next call starts.
-/

namespace Azbridge.Web.Import
open Program
open Broker (App Headers Handler Profile ConfigRevision Uuid Tape Key Request Reply BrokerError Op localApp localWorkspace localTape
  localScript localYaml browser)
open Broker.Saving

/-! ### Items -/

structure StandaloneImport where
  yaml : String

structure ImportItem where
  config : StandaloneImport
  name : String
  reuse : Bool
  profileId : Option String := none
  revision : Option Nat := none
  saveAttempted : Bool := false
  status : String
  error : Option String := none

/-- `String.prototype.trim`. -/
def jsTrim (text : String) : String := String.ofList (Hosts.Browser.trim text.toList)

def profileNameKey (name : String) : String := Text.toAsciiLowercase (jsTrim name)

/-- `!value` of a string that may be missing. -/
def missing (value : Option String) : Bool := value.all (· == "")

/-- `others` are the items other than this one. -/
def importNameError (item : ImportItem) (others : List ImportItem) (profiles : List Profile) : Option String :=
  let name := jsTrim item.name
  if name == "" || name.utf8ByteSize > 128 || name.toList.any Text.isControl then
    some "Enter a profile name of 1-128 UTF-8 bytes without control characters."
  else if others.any fun other => profileNameKey other.name == profileNameKey name then
    some "Duplicate name in this import. Rename one profile."
  else if missing item.profileId && !item.reuse && profiles.any fun profile => profileNameKey profile.name == profileNameKey name then
    some "A profile with this name exists. Rename it or choose to save a new revision."
  else none

/-! ### Requests -/

inductive Route where
  | profiles
  | createProfile (name : String)
  | revisions (id : String)
  /-- The answer lists the errors; a valid configuration has none. -/
  | validate (id yaml : String)
  | createRevision (id yaml : String)

@[reducible] def Route.Answer : Route → Type
  | .profiles => List Profile
  | .createProfile _ => Profile
  | .revisions _ => List ConfigRevision
  | .validate .. => List String
  | .createRevision .. => ConfigRevision

inductive Ask where
  | change (update : ImportItem → ImportItem)
  | send (route : Route)

@[reducible] def Ask.Answer : Ask → Type
  | .change _ => Unit
  | .send route => route.Answer

abbrev Importing := Program Ask Ask.Answer String

def onChange (update : ImportItem → ImportItem) : Importing Unit := Program.request (Ask.change update)

def send (route : Route) : Importing route.Answer := Program.request (Ask.send route)

/-! ### The import -/

def resolveProfile (item : ImportItem) : Importing String :=
  match item.profileId.filter (· != "") with
  | some id => return id
  | none => do
    onChange fun item => { item with status := "Resolving profile...", error := none }
    let profiles ← send .profiles
    let existing := profiles.find? fun profile => profileNameKey profile.name == profileNameKey item.name
    let id ← match existing, item.reuse with
      | some _, false => throw "This profile name now exists. Choose reuse or rename before retrying."
      | none, true => throw "The profile selected for reuse no longer exists. Refresh and review the target."
      | some profile, true => pure profile.id
      | none, false => do
        onChange fun item => { item with status := "Creating profile..." }
        let profile ← send (.createProfile (jsTrim item.name))
        pure profile.id
    onChange fun item => { item with profileId := some id }
    return id

/-- What an earlier call has saved. -/
def previousSave (item : ImportItem) (id : String) : Importing (Option ConfigRevision) :=
  if item.saveAttempted then do
    onChange fun item => { item with status := "Checking previous save..." }
    let revisions ← send (.revisions id)
    return (revisions.filter fun revision => revision.yaml == item.config.yaml).getLast?
  else return none

def validateYaml (item : ImportItem) (id : String) : Importing Unit := do
  onChange fun item => { item with status := "Validating YAML...", error := none }
  let errors ← send (.validate id item.config.yaml)
  if errors = [] then return ()
  else
    let joined := " ".intercalate errors
    throw ("Broker validation failed: " ++ if joined = "" then "Review the converted YAML." else joined)

def saved (revision : ConfigRevision) : Importing Unit :=
  onChange fun item => { item with
    revision := some revision.revision
    status := "Saved revision " ++ toString revision.revision ++ "; not published."
    error := none }

def importProfile (t : Casing) (item : ImportItem) : Importing Unit :=
  if item.revision.isSome then return ()
  else if hasCredentialText t item.config.yaml then throw "Credential-like text cannot be sent to the broker."
  else match importNameError item [] [] with
    | some nameError => throw nameError
    | none => do
      let id ← resolveProfile item
      match ← previousSave item id with
      | some revision => saved revision
      | none => do
        validateYaml item id
        onChange fun item => { item with status := "Saving revision...", saveAttempted := true }
        let revision ← send (.createRevision id item.config.yaml)
        saved revision

/-! ### What may happen -/

/-- The broker's side of a request. -/
def Route.handler (app : App) (ws : String) (headers : Headers) : (route : Route) → Handler route.Answer
  | .profiles => Broker.Profiles.listProfiles app ws headers
  | .createProfile name => Broker.Profiles.createProfile app ws headers name
  | .revisions id => Broker.Profiles.listRevisions app ws id headers
  | .validate id yaml => Broker.Profiles.validate app ws id headers yaml
  | .createRevision id yaml => Broker.Profiles.createRevision app ws id headers yaml

structure State where
  site : Site
  item : ImportItem

/-- A request is served, or it fails wherever the broker leaves it, and goes no further then. -/
inductive Answered (app : App) (ws : String) : State → (a : Ask) → Except String a.Answer → State → Prop
  | changed {x : State} {update : ImportItem → ImportItem} : Answered app ws x (.change update) (.ok ()) { x with item := update x.item }
  | served {x : State} {route : Route} {headers : Headers} {answer : route.Answer} {site : Site}
      (run : Ends Site.Responds (Elsewhere ws) (route.handler app ws headers) x.site (some (.ok answer)) site) :
      Answered app ws x (.send route) (.ok answer) { x with site }
  | failed {x : State} {route : Route} {headers : Headers} {ended : Option (Except Broker.BrokerError route.Answer)} {site : Site}
      {message : String} (run : Ends Site.Responds (Elsewhere ws) (route.handler app ws headers) x.site ended site) :
      Answered app ws x (.send route) (.error message) { x with site }

def Meanwhile (ws : String) (x y : State) : Prop := Elsewhere ws x.site y.site ∧ y.item = x.item

/-- Any number of calls for one item; whoever reviews it between them may choose to reuse a profile. -/
inductive Imports (app : App) (ws : String) (t : Casing) : State → State → Prop
  | start {x : State} : Imports app ws t x x
  | call {x y z : State} {ended : Option (Except String Unit)} (before : Imports app ws t x y)
      (run : Ends (Answered app ws) (Meanwhile ws) (importProfile t y.item) y ended z) : Imports app ws t x z
  | reviewed {x y : State} (before : Imports app ws t x y) (reuse : Bool) (status : String) (error : Option String) :
      Imports app ws t x { y with item := { y.item with reuse, status, error } }
  | others {x y : State} {site : Site} (before : Imports app ws t x y) (elsewhere : Elsewhere ws y.site site) :
      Imports app ws t x { y with site }

/-! ### Names -/

section Names
variable {p : Char → Bool} {cs : List Char} {name : String}

theorem dropWhile_initial (h : cs.dropWhile p = cs) {front : List Char} (within : front <+: cs) : front.dropWhile p = front := by
  obtain ⟨back, rfl⟩ := within
  cases front with
  | nil => rfl
  | cons c front =>
    cases first : p c with
    | false => exact List.dropWhile_cons_of_neg (by simp [first])
    | true =>
      have shorter := (List.dropWhile_suffix p (l := front ++ back)).length_le
      rw [List.cons_append, List.dropWhile_cons_of_pos first] at h
      rw [h, List.length_cons] at shorter
      omega

theorem dropWhile_dropWhile (cs : List Char) : (cs.dropWhile p).dropWhile p = cs.dropWhile p := by
  induction cs with
  | nil => rfl
  | cons c cs ih =>
    cases first : p c with
    | false => rw [List.dropWhile_cons_of_neg (by simp [first]), List.dropWhile_cons_of_neg (by simp [first])]
    | true => rw [List.dropWhile_cons_of_pos first, ih]

theorem trimBy_trimBy (cs : List Char) : Hosts.Browser.trimBy p (Hosts.Browser.trimBy p cs) = Hosts.Browser.trimBy p cs := by
  unfold Hosts.Browser.trimBy
  have inner : ((cs.dropWhile p).reverse.dropWhile p).reverse <+: cs.dropWhile p := by
    rw [← List.reverse_suffix, List.reverse_reverse]
    exact List.dropWhile_suffix p
  rw [dropWhile_initial (dropWhile_dropWhile cs) inner, List.reverse_reverse, dropWhile_dropWhile]

theorem mem_trimBy {c : Char} (member : c ∈ Hosts.Browser.trimBy p cs) : c ∈ cs := by
  unfold Hosts.Browser.trimBy at member
  have inner := (List.dropWhile_suffix p).subset (List.mem_reverse.mp member)
  exact (List.dropWhile_suffix p).subset (List.mem_reverse.mp inner)

theorem jsTrim_toList : (jsTrim name).toList = Hosts.Browser.trimBy Hosts.Browser.isSpace name.toList := by
  unfold jsTrim
  rw [String.toList_ofList]
  rfl

theorem trim_jsTrim (plain : (jsTrim name).toList.any Text.isControl = false) : Text.trim (jsTrim name) = jsTrim name := by
  have fixed : Hosts.Browser.trimBy Hosts.Browser.isSpace (jsTrim name).toList = (jsTrim name).toList := by
    rw [jsTrim_toList, trimBy_trimBy]
  have clean : Hosts.Browser.nextLine ∉ (jsTrim name).toList := by
    intro member
    have control := List.any_eq_false.mp plain _ member
    exact control (by decide)
  have same : Hosts.Browser.trimBy Hosts.Browser.isSpace (jsTrim name).toList = Text.trimList (jsTrim name).toList := by
    apply Hosts.Browser.trimBy_congr (x := Hosts.Browser.byteOrderMark) (y := Hosts.Browser.nextLine)
    · rw [fixed]
    · rw [List.count_eq_zero.mpr clean, List.count_eq_zero]
      exact fun member => clean (mem_trimBy member)
    · intro c space other
      exact Hosts.Browser.space_of_isSpace space other
    · intro c space other
      exact Hosts.Browser.isSpace_of_space space other
  rw [Text.trim, ← same, fixed, String.ofList_toList]

theorem profileNameKey_jsTrim : profileNameKey (jsTrim name) = profileNameKey name := by
  have same : jsTrim (jsTrim name) = jsTrim name := by
    rw [← String.toList_inj, jsTrim_toList, jsTrim_toList, trimBy_trimBy]
  rw [profileNameKey, same, profileNameKey]

end Names

/-! ### What is kept -/

def OneProfile (ws name : String) (s : Site) : Prop := s.made .profiles = [] ∨ ProfileMade ws (Text.trim (jsTrim name)) s

/-- Of the profiles and revisions made for the item there is one at most, and the item knows enough to find it. -/
structure Sound (ws name yaml : String) (x : State) : Prop where
  named : x.item.name = name
  text : x.item.config.yaml = yaml
  profile : OneProfile ws name x.site
  revision : x.site.made .revisionMetadata = [] ∨
    x.item.saveAttempted = true ∧ ∃ id, x.item.profileId = some id ∧ RevisionMade ws id yaml x.site
  recorded : ∀ n, x.item.revision = some n → ∃ id, x.item.profileId = some id ∧ Kept ws id n yaml x.site.world

/-- A call that is under way: no revision is recorded yet. -/
structure Phase (ws name yaml : String) (id : Option String) (attempted : Bool) (x : State) : Prop where
  sound : Sound ws name yaml x
  profileId : x.item.profileId = id
  saveAttempted : x.item.saveAttempted = attempted
  open_ : x.item.revision = none

section Kept
variable {ws name yaml : String} {id : Option String} {attempted : Bool} {x y : State} {s s' : Site}

theorem OneProfile.later (made : OneProfile ws name s) (undisturbed : Undisturbed ws s.world s'.world)
    (same : s'.made .profiles = s.made .profiles) : OneProfile ws name s' := by
  rcases made with none_ | ⟨⟨k, rows⟩, named⟩
  · exact .inl (same.trans none_)
  · exact .inr ⟨⟨k, same.trans rows⟩, named.later undisturbed⟩

theorem Sound.elsewhere (sound : Sound ws name yaml x) (elsewhere : Elsewhere ws x.site s) : Sound ws name yaml { x with site := s } := by
  refine ⟨sound.named, sound.text, sound.profile.later elsewhere.undisturbed elsewhere.profiles, ?_, ?_⟩
  · rcases sound.revision with none_ | ⟨attempted, id, known, made⟩
    · exact .inl (elsewhere.revisions.trans none_)
    · exact .inr ⟨attempted, id, known, made.later elsewhere.undisturbed elsewhere.revisions⟩
  · intro n recorded
    obtain ⟨id, known, kept⟩ := sound.recorded n recorded
    exact ⟨id, known, kept.later elsewhere.undisturbed⟩

theorem Phase.elsewhere (phase : Phase ws name yaml id attempted x) (elsewhere : Elsewhere ws x.site s) :
    Phase ws name yaml id attempted { x with site := s } :=
  ⟨phase.sound.elsewhere elsewhere, phase.profileId, phase.saveAttempted, phase.open_⟩

end Kept

/-! ### Requests of a call -/

/-- Others act between the requests, and each leaves `P` true. -/
def importing (app : App) (ws : String) (P : State → Prop) : Contract Ask Ask.Answer String State where
  answers := Answered app ws
  invariant _ := True
  rely := Meanwhile ws
  guarantee _ _ y := P y

section Calls
variable {α : Type} {app : App} {ws name yaml : String} {t : Casing} {x : State} {P J : State → Prop}

abbrev Sends (app : App) (ws : String) (P : State → Prop) (Q : α → State → Prop) (p : Importing α) (x : State) : Prop :=
  Meets (importing app ws P) Q (fun _ _ => True) p x

/-- What lasts while others act and while the item is only told how the import stands. -/
structure Steady (ws : String) (P J : State → Prop) : Prop where
  elsewhere : ∀ x s, J x → Elsewhere ws x.site s → J { x with site := s }
  told : ∀ x status error, J x → J { x with item := { x.item with status, error } }
  within : ∀ x, J x → P x

theorem Steady.and {K : Site → Prop} (steady : Steady ws P J) (stable : ∀ s s', K s → Elsewhere ws s s' → K s') :
    Steady ws P fun x => J x ∧ K x.site := by
  constructor
  · intro x s holds elsewhere
    exact ⟨steady.elsewhere x s holds.1 elsewhere, stable _ s holds.2 elsewhere⟩
  · intro x status error holds
    exact ⟨steady.told x status error holds.1, holds.2⟩
  · intro x holds
    exact steady.within x holds.1

theorem Steady.change {Q : State → Prop} {update : ImportItem → ImportItem} (steady : Steady ws P J) (start : J x)
    (changed : ∀ x, J x → Q { x with item := update x.item }) (within : ∀ x, Q x → P x) :
    Sends app ws P (fun _ => Q) (onChange update) x := by
  rintro ⟨site, item⟩ ⟨elsewhere, same⟩ _ reply z answered
  obtain rfl : item = x.item := same
  have later : J ⟨site, x.item⟩ := steady.elsewhere x site start elsewhere
  cases answered with
  | changed => exact ⟨within _ (changed _ later), changed _ later⟩

theorem Steady.tells {update : ImportItem → ImportItem} (steady : Steady ws P J) (start : J x)
    (plain : ∀ item, update item = { item with status := (update item).status, error := (update item).error }) :
    Sends app ws P (fun _ => J) (onChange update) x := by
  apply steady.change start
  · intro x holds
    rw [plain]
    exact steady.told x _ _ holds
  · exact steady.within

/-- What the broker promises of a request holds for the client, whether it is answered or not. -/
theorem Steady.sends {route : Route} {K : Site → Prop} {Q : route.Answer → Site → Prop}
    {R : route.Answer → State → Prop} (steady : Steady ws P J) (start : J x)
    (serves : ∀ s headers, J { x with site := s } → K s ∧ Serving ws K Q (route.handler app ws headers) s)
    (within : ∀ s, K s → P { x with site := s }) (reports : ∀ a s, Q a s → R a { x with site := s }) :
    Sends app ws P R (send route) x := by
  rintro ⟨site, item⟩ ⟨elsewhere, same⟩ _ reply z answered
  obtain rfl : item = x.item := same
  have later : J { x with site := site } := steady.elsewhere x site start elsewhere
  have promised : ∀ headers ended site', Ends Site.Responds (Elsewhere ws) (route.handler app ws headers) site ended site' →
      K site' ∧ Ended Q (fun _ => K) ended site' := by
    intro headers ended site' run
    obtain ⟨holds, meets⟩ := serves site headers later
    exact meets.ends (fun _ => trivial) (fun _ _ _ kept => kept) holds run
  cases answered with
  | served run =>
    obtain ⟨holds, result⟩ := promised _ _ _ run
    exact ⟨within _ holds, reports _ _ result⟩
  | failed run =>
    obtain ⟨holds, -⟩ := promised _ _ _ run
    exact ⟨within _ holds, trivial⟩

/-- A request that only reads learns something of what lasts. -/
theorem Steady.reads {route : Route} {Q : route.Answer → Site → Prop} {R : route.Answer → State → Prop} (steady : Steady ws P J)
    (start : J x) (serves : ∀ s headers, Lasting ws (fun s => J { x with site := s }) (fun s => J { x with site := s }) →
      J { x with site := s } → Serving ws (fun s => J { x with site := s }) Q (route.handler app ws headers) s)
    (reports : ∀ a s, Q a s → R a { x with site := s }) : Sends app ws P R (send route) x := by
  have lasting : Lasting ws (fun s => J { x with site := s }) fun s => J { x with site := s } :=
    ⟨fun s s' elsewhere holds => steady.elsewhere { x with site := s } s' holds elsewhere, fun _ holds => holds⟩
  apply steady.sends start
  · intro s headers holds
    exact ⟨holds, serves s headers lasting holds⟩
  · intro s holds
    exact steady.within _ holds
  · exact reports

/-! ### The profile -/

/-- No revision was made so far. -/
structure Unsaved (ws name yaml : String) (id : Option String) (attempted : Bool) (x : State) : Prop where
  phase : Phase ws name yaml id attempted x
  none_ : x.site.made .revisionMetadata = []

section Steps
variable {id id' : Option String} {attempted : Bool} {s : Site} {item : ImportItem} {profileId : String}

theorem Unsaved.elsewhere (unsaved : Unsaved ws name yaml id attempted x) (elsewhere : Elsewhere ws x.site s) :
    Unsaved ws name yaml id attempted { x with site := s } :=
  ⟨unsaved.phase.elsewhere elsewhere, elsewhere.revisions.trans unsaved.none_⟩

theorem Phase.at_site (phase : Phase ws name yaml id attempted x)
    (profile : OneProfile ws name s)
    (revision : s.made .revisionMetadata = [] ∨ attempted = true ∧ ∃ i, id = some i ∧ RevisionMade ws i yaml s) :
    Phase ws name yaml id attempted { x with site := s } := by
  refine ⟨⟨phase.sound.named, phase.sound.text, profile, ?_, ?_⟩, phase.profileId, phase.saveAttempted, phase.open_⟩
  · rcases revision with none_ | ⟨tried, i, known, made⟩
    · exact .inl none_
    · exact .inr ⟨phase.saveAttempted.trans tried, i, phase.profileId.trans known, made⟩
  · intro n recorded
    have open_ := phase.open_
    rw [show x.item.revision = some n from recorded] at open_
    cases open_

/-- Nothing else is said of an item than what it knows. -/
theorem Unsaved.change (unsaved : Unsaved ws name yaml id attempted x) (item : ImportItem) (named : item.name = x.item.name)
    (text : item.config.yaml = x.item.config.yaml) (open_ : item.revision = none) :
    Unsaved ws name yaml item.profileId item.saveAttempted { x with item } := by
  refine ⟨⟨⟨?_, ?_, unsaved.phase.sound.profile, .inl unsaved.none_, ?_⟩, rfl, rfl, open_⟩, unsaved.none_⟩
  · exact named.trans unsaved.phase.sound.named
  · exact text.trans unsaved.phase.sound.text
  · intro n recorded
    rw [show item.revision = some n from recorded] at open_
    cases open_

theorem unsaved_steady : Steady ws (Sound ws name yaml) (Unsaved ws name yaml id attempted) := by
  constructor
  · exact fun x s unsaved elsewhere => unsaved.elsewhere elsewhere
  · intro x status error unsaved
    have known := unsaved.phase.profileId
    have tried := unsaved.phase.saveAttempted
    subst known tried
    exact unsaved.change { x.item with status, error } rfl rfl unsaved.phase.open_
  · exact fun x unsaved => unsaved.phase.sound

theorem phase_steady : Steady ws (Sound ws name yaml) (Phase ws name yaml id attempted) := by
  constructor
  · exact fun x s phase elsewhere => phase.elsewhere elsewhere
  · intro x status error phase
    have sound := phase.sound
    exact ⟨⟨sound.named, sound.text, sound.profile, sound.revision, sound.recorded⟩, phase.profileId, phase.saveAttempted, phase.open_⟩
  · exact fun x phase => phase.sound

theorem unmade_steady : Steady ws (Sound ws name yaml) fun x => Unsaved ws name yaml id attempted x ∧ x.site.made .profiles = [] :=
  unsaved_steady.and fun _ _ none_ elsewhere => elsewhere.profiles.trans none_

theorem listProfiles_sends (unsaved : Unsaved ws name yaml id attempted x) :
    Sends app ws (Sound ws name yaml) (fun ps x => Unsaved ws name yaml id attempted x ∧
      (x.site.made .profiles = [] ∨ ∃ p ∈ ps, p.name = Text.trim (jsTrim name))) (send .profiles) x := by
  rcases unsaved.phase.sound.profile with none_ | ⟨-, named⟩
  · apply unmade_steady.reads (Q := fun _ s => Unsaved ws name yaml id attempted { x with site := s } ∧ s.made .profiles = [])
      ⟨unsaved, none_⟩
    · intro s headers lasting holds
      exact (lasting.listProfiles holds).mono (fun _ _ holds => holds.1) fun _ _ holds => holds
    · rintro ps s ⟨unsaved, none_⟩
      exact ⟨unsaved, .inl none_⟩
  · have steady : Steady ws (Sound ws name yaml) fun x => Unsaved ws name yaml id attempted x ∧
        HasProfile ws (Text.trim (jsTrim name)) x.site.world :=
      unsaved_steady.and fun _ _ named elsewhere => HasProfile.later named elsewhere.undisturbed
    apply steady.reads ⟨unsaved, named⟩
    · intro s headers lasting holds
      exact lasting.listProfiles holds
    · rintro ps s ⟨holds, listed⟩
      exact ⟨holds.1, .inr (listed _ fun s holds => holds.2)⟩

theorem createProfile_sends (unsaved : Unsaved ws name yaml id attempted x) (none_ : x.site.made .profiles = []) :
    Sends app ws (Sound ws name yaml) (fun _ => Unsaved ws name yaml id attempted) (send (.createProfile (jsTrim name))) x := by
  have whole : ∀ s, s.made .revisionMetadata = [] → OneProfile ws name s → Unsaved ws name yaml id attempted { x with site := s } :=
    fun s saved made => ⟨unsaved.phase.at_site made (.inl saved), saved⟩
  apply unmade_steady.sends (Q := fun _ s => s.made .revisionMetadata = [] ∧ ProfileMade ws (Text.trim (jsTrim name)) s) ⟨unsaved, none_⟩
  · rintro s headers ⟨unsaved, none_⟩
    have serves : Serving ws (fun s => s.made .revisionMetadata = [] ∧ OneProfile ws name s)
        (fun _ s => s.made .revisionMetadata = [] ∧ ProfileMade ws (Text.trim (jsTrim name)) s)
        (Broker.Profiles.createProfile app ws headers (jsTrim name)) s :=
      createProfile_serving (fun s s' _ same none_ => same.trans none_) unsaved.none_ none_
    exact ⟨⟨unsaved.none_, .inl none_⟩, serves⟩
  · rintro s ⟨saved, made⟩
    exact (whole s saved made).phase.sound
  · rintro profile s ⟨saved, made⟩
    exact whole s saved (.inr made)

theorem resolveProfile_sends (plain : (jsTrim item.name).toList.any Text.isControl = false) (named : item.name = name)
    (phase : Phase ws name yaml item.profileId attempted x) :
    Sends app ws (Sound ws name yaml) (fun id => Phase ws name yaml (some id) attempted) (resolveProfile item) x := by
  unfold resolveProfile
  split
  · next known present =>
    obtain ⟨same, -⟩ := Option.filter_eq_some_iff.mp present
    rw [same] at phase
    exact phase
  · next absent =>
    have unsaved : Unsaved ws name yaml item.profileId attempted x := by
      refine ⟨phase, ?_⟩
      rcases phase.sound.revision with none_ | ⟨-, id, known, -, nonempty, -⟩
      · exact none_
      · rw [← phase.profileId, known] at absent
        simp [nonempty] at absent
    have settles : ∀ id x, Unsaved ws name yaml item.profileId attempted x → Sends app ws (Sound ws name yaml)
        (fun id => Phase ws name yaml (some id) attempted)
        (onChange (fun item => { item with profileId := some id }) >>= fun _ => pure id) x := by
      intro id x unsaved
      apply Meets.bind (P := fun _ => Phase ws name yaml (some id) attempted)
      · apply unsaved_steady.change unsaved
        · intro x unsaved
          have tried := unsaved.phase.saveAttempted
          have changed := unsaved.change { x.item with profileId := some id } rfl rfl unsaved.phase.open_
          subst tried
          exact changed.phase
        · exact fun _ phase => phase.sound
      · exact fun _ _ phase => phase
    apply (unsaved_steady.tells unsaved fun _ => rfl).bind
    intro _ x unsaved
    apply (listProfiles_sends unsaved).bind
    rintro profiles x ⟨unsaved, listed⟩
    dsimp only
    cases found : profiles.find? fun profile => profileNameKey profile.name == profileNameKey item.name with
    | some profile =>
      cases item.reuse with
      | false => trivial
      | true => exact settles _ x unsaved
    | none =>
      cases item.reuse with
      | true => trivial
      | false =>
        have none_ : x.site.made .profiles = [] := by
          rcases listed with none_ | ⟨profile, member, same⟩
          · exact none_
          · have other := List.find?_eq_none.mp found profile member
            rw [same, ← named, trim_jsTrim plain, profileNameKey_jsTrim] at other
            exact absurd (beq_self_eq_true _) other
        apply (unmade_steady.tells ⟨unsaved, none_⟩ fun _ => rfl).bind
        rintro _ x ⟨unsaved, none_⟩
        rw [named]
        apply (createProfile_sends unsaved none_).bind
        intro profile x unsaved
        exact settles _ x unsaved

/-! ### The revision -/

/-- What was listed of the profile: the item's own revision is among it, if one was made. -/
theorem listRevisions_sends (phase : Phase ws name yaml (some profileId) attempted x) :
    Sends app ws (Sound ws name yaml) (fun rs x => Phase ws name yaml (some profileId) attempted x ∧
      (∀ r ∈ rs, Kept ws profileId r.revision r.yaml x.site.world) ∧
      (x.site.made .revisionMetadata = [] ∨ ∃ r ∈ rs, r.yaml = yaml)) (send (.revisions profileId)) x := by
  rcases phase.sound.revision with none_ | ⟨-, id, known, -, -, n, kept⟩
  · have unsaved : Unsaved ws name yaml (some profileId) attempted x := ⟨phase, none_⟩
    apply unsaved_steady.reads unsaved
    · intro s headers lasting holds
      exact lasting.listRevisions holds
    · rintro rs s ⟨unsaved, kept, -⟩
      exact ⟨unsaved.phase, kept, .inl unsaved.none_⟩
  · obtain rfl : profileId = id := Option.some.inj (phase.profileId.symm.trans known)
    have steady : Steady ws (Sound ws name yaml) fun x => Phase ws name yaml (some profileId) attempted x ∧
        Kept ws profileId n yaml x.site.world :=
      phase_steady.and fun _ _ kept elsewhere => Kept.later kept elsewhere.undisturbed
    apply steady.reads ⟨phase, kept⟩
    · intro s headers lasting holds
      exact lasting.listRevisions holds
    · rintro rs s ⟨holds, kept, listed⟩
      exact ⟨holds.1, kept, .inr (listed n yaml fun s holds => holds.2)⟩

theorem previousSave_sends (text : item.config.yaml = yaml) (phase : Phase ws name yaml (some profileId) item.saveAttempted x) :
    Sends app ws (Sound ws name yaml) (fun found x => Phase ws name yaml (some profileId) item.saveAttempted x ∧
      (∀ r, found = some r → Kept ws profileId r.revision yaml x.site.world) ∧
      (found = none → x.site.made .revisionMetadata = [])) (previousSave item profileId) x := by
  unfold previousSave
  split
  · next tried =>
    apply (phase_steady.tells phase fun _ => rfl).bind
    intro _ x phase
    apply (listRevisions_sends phase).bind
    rintro rs x ⟨phase, kept, listed⟩
    refine ⟨phase, ?_, ?_⟩
    · intro r last
      obtain ⟨member, same⟩ := List.mem_filter.mp (List.mem_of_getLast? last)
      have stored := kept r member
      rw [eq_of_beq same, text] at stored
      exact stored
    · intro nothing
      rcases listed with none_ | ⟨r, member, same⟩
      · exact none_
      · have empty := List.getLast?_eq_none_iff.mp nothing
        have absent := List.filter_eq_nil_iff.mp empty r member
        rw [same, text] at absent
        exact absurd (beq_self_eq_true _) absent
  · next untried =>
    refine ⟨phase, nofun, ?_⟩
    intro _
    rcases phase.sound.revision with none_ | ⟨tried, -⟩
    · exact none_
    · exact absurd (phase.saveAttempted.symm.trans tried) untried

theorem validate_reading {headers : Headers} {text : String} : Broker.Reading (Broker.Profiles.validate app ws profileId headers text) := by
  apply Broker.Reading.authorize.bind
  intro _
  apply Broker.Reading.workspace.bind
  intro _
  apply Broker.Reading.profile.bind
  intro _
  apply Broker.Reading.checkConfig.bind
  intro result
  cases result with
  | ok config => exact uses_pure _
  | error errors => exact uses_pure _

theorem validateYaml_sends (unsaved : Unsaved ws name yaml id attempted x) :
    Sends app ws (Sound ws name yaml) (fun _ => Unsaved ws name yaml id attempted) (validateYaml item profileId) x := by
  apply (unsaved_steady.tells unsaved fun _ => rfl).bind
  intro _ x unsaved
  apply Meets.bind (P := fun _ => Unsaved ws name yaml id attempted)
  · apply unsaved_steady.reads unsaved
    · intro s headers lasting holds
      exact lasting.reads validate_reading holds
    · exact fun errors s holds => holds
  · intro errors x unsaved
    dsimp only
    split
    · exact unsaved
    · trivial

theorem createRevision_sends (unsaved : Unsaved ws name yaml (some profileId) true x) :
    Sends app ws (Sound ws name yaml) (fun r x => Phase ws name yaml (some profileId) true x ∧
      Kept ws profileId r.revision yaml x.site.world) (send (.createRevision profileId yaml)) x := by
  have whole : ∀ s, OneProfile ws name s → s.made .revisionMetadata = [] ∨ RevisionMade ws profileId yaml s →
      Phase ws name yaml (some profileId) true { x with site := s } :=
    fun s profile revision => unsaved.phase.at_site profile (revision.imp_right fun made => ⟨rfl, profileId, rfl, made⟩)
  apply unsaved_steady.sends (K := fun s => OneProfile ws name s ∧ (s.made .revisionMetadata = [] ∨ RevisionMade ws profileId yaml s))
    (Q := fun (r : ConfigRevision) s => OneProfile ws name s ∧ RevisionMade ws profileId yaml s ∧
      Kept ws profileId r.revision yaml s.world) unsaved
  · intro s headers unsaved
    have profile := unsaved.phase.sound.profile
    refine ⟨⟨profile, .inl unsaved.none_⟩, createRevision_serving ?_ profile unsaved.none_⟩
    exact fun s s' undisturbed same made => OneProfile.later made undisturbed same
  · rintro s ⟨profile, revision⟩
    exact (whole s profile revision).sound
  · rintro r s ⟨profile, made, kept⟩
    exact ⟨whole s profile (.inr made), kept⟩

theorem saved_sends {r : ConfigRevision} (phase : Phase ws name yaml (some profileId) attempted x)
    (kept : Kept ws profileId r.revision yaml x.site.world) :
    Sends app ws (Sound ws name yaml) (fun _ => Sound ws name yaml) (saved r) x := by
  have steady : Steady ws (Sound ws name yaml) fun x => Phase ws name yaml (some profileId) attempted x ∧
      Kept ws profileId r.revision yaml x.site.world :=
    phase_steady.and fun _ _ kept elsewhere => Kept.later kept elsewhere.undisturbed
  apply steady.change ⟨phase, kept⟩
  · rintro x ⟨phase, kept⟩
    have sound := phase.sound
    refine ⟨sound.named, sound.text, sound.profile, sound.revision, ?_⟩
    intro n recorded
    obtain rfl : r.revision = n := Option.some.inj recorded
    exact ⟨profileId, phase.profileId, kept⟩
  · exact fun _ sound => sound

theorem plain_of_importNameError (accepted : importNameError item [] [] = none) : (jsTrim item.name).toList.any Text.isControl = false := by
  unfold importNameError at accepted
  dsimp only at accepted
  split at accepted
  · cases accepted
  · next valid =>
    simp only [Bool.or_eq_true, not_or, Bool.not_eq_true] at valid
    exact valid.2

theorem importProfile_sends (sound : Sound ws name yaml x) :
    Sends app ws (Sound ws name yaml) (fun _ _ => True) (importProfile t x.item) x := by
  unfold importProfile
  split
  · trivial
  · next unrecorded =>
    have open_ : x.item.revision = none := by simpa using unrecorded
    split
    · trivial
    · split
      · trivial
      · next accepted =>
        have phase : Phase ws name yaml x.item.profileId x.item.saveAttempted x := ⟨sound, rfl, rfl, open_⟩
        have text := sound.text
        have resolved : Sends app ws (Sound ws name yaml) _ (resolveProfile x.item) x :=
          resolveProfile_sends (plain_of_importNameError accepted) sound.named phase
        generalize x.item = item at text resolved ⊢
        apply resolved.bind
        intro id x phase
        apply (previousSave_sends text phase).bind
        rintro found x ⟨phase, kept, none_⟩
        cases found with
        | some revision => exact (saved_sends phase (kept revision rfl)).mono (fun _ _ _ => trivial) fun _ _ _ => trivial
        | none =>
          apply (validateYaml_sends ⟨phase, none_ rfl⟩).bind
          intro _ x unsaved
          apply Meets.bind (P := fun _ => Unsaved ws name yaml (some id) true)
          · apply unsaved_steady.change unsaved
            · intro x unsaved
              have known := unsaved.phase.profileId
              have changed := unsaved.change { x.item with status := "Saving revision...", saveAttempted := true } rfl rfl
                unsaved.phase.open_
              rw [known] at changed
              exact changed
            · exact fun _ unsaved => unsaved.phase.sound
          · intro _ x unsaved
            rw [text]
            apply (createRevision_sends unsaved).bind
            rintro revision x ⟨phase, kept⟩
            exact (saved_sends phase kept).mono (fun _ _ _ => trivial) fun _ _ _ => trivial

end Steps
end Calls

section Runs
variable {app : App} {ws name yaml : String} {t : Casing} {x y : State}

theorem Imports.sound (run : Imports app ws t x y) (start : Sound ws name yaml x) : Sound ws name yaml y := by
  induction run with
  | start => exact start
  | call before run ih =>
    have meets : Sends app ws (Sound ws name yaml) (fun _ _ => True) (importProfile t _) _ := importProfile_sends ih
    exact (meets.ends (fun _ => trivial) (fun _ _ _ sound => sound) ih run).1
  | reviewed before reuse status error ih => exact ⟨ih.named, ih.text, ih.profile, ih.revision, ih.recorded⟩
  | others before elsewhere ih => exact ih.elsewhere elsewhere

/-- However often an item is imported, one profile and one revision are made for it at most, and the revision that it
records is one of its profile with its text. -/
theorem imported_at_most_once {w : Broker.World} {item : ImportItem} (fresh : item.revision = none)
    (run : Imports app ws t ⟨⟨w, []⟩, item⟩ y) :
    (y.site.made .profiles).length ≤ 1 ∧ (y.site.made .revisionMetadata).length ≤ 1 ∧
      ∀ n, y.item.revision = some n → ∃ id, y.item.profileId = some id ∧ Kept ws id n item.config.yaml y.site.world := by
  have start : Sound ws item.name item.config.yaml ⟨⟨w, []⟩, item⟩ := by
    refine ⟨rfl, rfl, .inl rfl, .inl rfl, ?_⟩
    intro n recorded
    rw [fresh] at recorded
    cases recorded
  have sound := run.sound start
  refine ⟨?_, ?_, sound.recorded⟩
  · rcases sound.profile with none_ | ⟨⟨k, rows⟩, -⟩
    · simp [none_]
    · simp [rows]
  · rcases sound.revision with none_ | ⟨-, id, -, ⟨k, rows⟩, -⟩
    · simp [none_]
    · simp [rows]

end Runs

/-! ### A run -/

/-- A local broker, an item, and how many answers arrive before one is lost. -/
structure Visit where
  tape : Tape
  inserted : List Key
  item : ImportItem
  patience : Nat

def Visit.state (v : Visit) : State := ⟨⟨v.tape.world, v.inserted⟩, v.item⟩

def siteAnswer (v : Tape × List Key) (r : Request) : Option (Except BrokerError (Reply r) × Tape × List Key) :=
  (v.1.answer r).map fun (reply, tape) => (reply, tape, v.2 ++ Site.added v.1.world tape.world r)

def Visit.answer (v : Visit) : (a : Ask) → Option (Except String a.Answer × Visit)
  | .change update => some (.ok (), { v with item := update v.item })
  | .send route =>
    match (route.handler localApp localWorkspace (browser 1)).exec siteAnswer (v.tape, v.inserted) with
    | some (.ok answer, tape, inserted) =>
      some (if v.patience = 0 then .error "Failed to fetch" else .ok answer, { v with tape, inserted, patience := v.patience - 1 })
    | some (.error _, tape, inserted) => some (.error "Request failed", { v with tape, inserted })
    | none => none

def siteFast (v : Tape × List Key) (r : Request) : Option (Except BrokerError (Reply r) × Tape × List Key) :=
  (v.1.fast r).map fun (reply, tape) => (reply, tape, v.2 ++ Site.added v.1.world tape.world r)

theorem siteAnswer_eq : siteAnswer = siteFast := by
  funext v r
  unfold siteAnswer siteFast
  rw [Tape.answer_eq]

def Visit.fast (v : Visit) : (a : Ask) → Option (Except String a.Answer × Visit)
  | .change update => some (.ok (), { v with item := update v.item })
  | .send route =>
    match (route.handler localApp localWorkspace (browser 1)).exec siteFast (v.tape, v.inserted) with
    | some (.ok answer, tape, inserted) =>
      some (if v.patience = 0 then .error "Failed to fetch" else .ok answer, { v with tape, inserted, patience := v.patience - 1 })
    | some (.error _, tape, inserted) => some (.error "Request failed", { v with tape, inserted })
    | none => none

theorem Visit.answer_eq : Visit.answer = Visit.fast := by
  funext v a
  unfold Visit.answer Visit.fast
  rw [siteAnswer_eq]

theorem siteAnswer_sound {v v' : Tape × List Key} {r : Request} {reply : Except BrokerError (Reply r)}
    (answered : siteAnswer v r = some (reply, v')) : Site.Responds ⟨v.1.world, v.2⟩ r reply ⟨v'.1.world, v'.2⟩ := by
  obtain ⟨⟨reply', tape⟩, found, same⟩ := Option.map_eq_some_iff.mp answered
  cases same
  exact ⟨Tape.answer_sound found, rfl⟩

theorem elsewhere_refl {ws : String} (s : Site) : Elsewhere ws s s := ⟨.refl _, rfl, rfl⟩

theorem visit_sound {v v' : Visit} {a : Ask} {reply : Except String a.Answer} (answered : v.answer a = some (reply, v')) :
    Answered localApp localWorkspace v.state a reply v'.state := by
  cases a with
  | change update =>
    cases answered
    exact .changed
  | send route =>
    have ends : ∀ {result : Except BrokerError route.Answer} {tape inserted},
        (route.handler localApp localWorkspace (browser 1)).exec siteAnswer (v.tape, v.inserted) = some (result, tape, inserted) →
        Ends Site.Responds (Elsewhere localWorkspace) (route.handler localApp localWorkspace (browser 1)) v.state.site
          (some result) ⟨tape.world, inserted⟩ := by
      intro result tape inserted ran
      exact Ends.of_exec (fun v => (⟨v.1.world, v.2⟩ : Site)) (fun _ _ _ _ => siteAnswer_sound) elsewhere_refl ran
    unfold Visit.answer at answered
    dsimp only at answered
    split at answered
    · next answer tape inserted ran =>
      split at answered
      · cases answered
        exact .failed (ends ran)
      · cases answered
        exact .served (ends ran)
    · next ran =>
      cases answered
      exact .failed (ends ran)
    · cases answered

def localItem : ImportItem := { config := ⟨localYaml⟩, name := " imported ", reuse := false, status := "Ready for review" }

/-- Two calls; of the first one the last answer is lost. -/
def twice : Option (Visit × Visit × Visit) := do
  let tape ← Interleaving.play (Op.program localApp) (fun _ _ => true) Tape.answer (localScript.take 2) localTape
  let start : Visit := ⟨tape, [], localItem, 3⟩
  let (_, first) ← (importProfile plainCasing start.item).exec Visit.answer start
  let (_, second) ← (importProfile plainCasing first.item).exec Visit.answer { first with patience := 9 }
  return (start, first, second)

def twiceFast : Option (Visit × Visit × Visit) := do
  let tape ← Interleaving.play (Op.program localApp) (fun _ _ => true) Tape.fast (localScript.take 2) localTape
  let start : Visit := ⟨tape, [], localItem, 3⟩
  let (_, first) ← (importProfile plainCasing start.item).exec Visit.fast start
  let (_, second) ← (importProfile plainCasing first.item).exec Visit.fast { first with patience := 9 }
  return (start, first, second)

theorem twice_eq : twice = twiceFast := by
  unfold twice twiceFast
  rw [Tape.answer_eq, Visit.answer_eq]

theorem twice_cases {start first second : Visit} (played : twice = some (start, first, second)) :
    start.inserted = [] ∧ start.item = localItem ∧ Imports localApp localWorkspace plainCasing start.state second.state := by
  unfold twice at played
  obtain ⟨tape, -, played⟩ := Option.bind_eq_some_iff.mp played
  obtain ⟨⟨result, first'⟩, ran, played⟩ := Option.bind_eq_some_iff.mp played
  obtain ⟨⟨result', second'⟩, ran', played⟩ := Option.bind_eq_some_iff.mp played
  cases played
  have refl : ∀ x, Meanwhile localWorkspace x x := fun x => ⟨elsewhere_refl x.site, rfl⟩
  have called := Ends.of_exec Visit.state (fun _ _ _ _ => visit_sound) refl ran
  have again := Ends.of_exec Visit.state (fun _ _ _ _ => visit_sound) refl ran'
  exact ⟨rfl, rfl, .call (.call .start called) again⟩

/-- A revision was saved although the client was not told; the second call finds it. -/
theorem imported_at_most_once_twice : ∃ w y id, Imports localApp localWorkspace plainCasing ⟨⟨w, []⟩, localItem⟩ y ∧
    (y.site.made .profiles).length ≤ 1 ∧ (y.site.made .revisionMetadata).length ≤ 1 ∧
    y.item.profileId = some id ∧ Kept localWorkspace id 1 localYaml y.site.world := by
  have ends : twice.any (fun (_, first, second) => first.item.revision == none && first.item.saveAttempted &&
      second.item.revision == some 1) = true := by
    rw [twice_eq]
    decide +kernel
  obtain ⟨⟨start, first, second⟩, played, checked⟩ := (Option.any_eq_true ..).mp ends
  simp only [Bool.and_eq_true, beq_iff_eq] at checked
  obtain ⟨⟨-, -⟩, recorded⟩ := checked
  obtain ⟨none_, same, run⟩ := twice_cases played
  have from_ : start.state = ⟨⟨start.tape.world, []⟩, localItem⟩ := by
    unfold Visit.state
    rw [none_, same]
  rw [from_] at run
  obtain ⟨profiles, revisions, known⟩ := imported_at_most_once rfl run
  obtain ⟨id, own, kept⟩ := known 1 recorded
  exact ⟨_, _, id, run, profiles, revisions, own, kept⟩

end Azbridge.Web.Import
