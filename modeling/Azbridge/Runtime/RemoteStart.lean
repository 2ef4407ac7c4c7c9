import Mathlib.Data.List.Infix
import Azbridge.Lib.Fallible
import Azbridge.Runtime.Host

/-!
# Starting remote forwards

`Host::start` gathers the remote forwards by their relay. Each relay gets one listener, opened with
the credentials of its first forward, and one table of forwarders by port name.
-/

namespace Azbridge.Runtime
open Fallible

inductive RelayCredentials
  | connectionString (text : String)
  /-- The address and the token provider that a managed host has for the relay. -/
  | broker (relay : String)
  deriving DecidableEq, Repr

inductive StartError
  | failed (message : String)
  /-- No attempt is made, and there is no last error to unwrap. -/
  | panicked
  deriving DecidableEq, Repr

structure RemoteGroup where
  credentials : RelayCredentials
  bindings : List (Position × RemoteForwardBinding)

structure Bridge where
  relayName : String
  credentials : RelayCredentials
  forwarders : Table String (Position × RemoteForwarder)
  httpForwarders : List Position

/-- What a host finds where it starts. -/
structure Surroundings where
  lowercase : String → String
  managed : Bool
  /-- How many tasks the local forwards became. -/
  localTasks : Except StartError Nat
  /-- Whether a managed host has an address and a token provider for a relay. -/
  provider : String → Except StartError Unit
  /-- Whether a listener is created, by attempt. -/
  listener : RelayCredentials → Nat → Except String Unit
  httpForwarder : Position → Except StartError Unit
  /-- The address that is picked for the host and port of the binding there. -/
  resolve : Position → String → UInt16 → Except StartError SocketAddr
  bindAddress : Position → String → Except StartError SocketAddr
  /-- Whether the listener of a managed host becomes ready. -/
  ready : String → Except StartError Unit
  /-- The order in which the groups are visited. -/
  visited : List (String × RemoteGroup) → List (String × RemoteGroup)
  visited_perm : ∀ groups, (visited groups).Perm groups

def exitOnForwardFailure (config : Config) : Bool := config.exitOnForwardFailure.getD true

def effectivePortName (binding : RemoteForwardBinding) : String := binding.portName.getD (defaultPortName binding.hostPort)

def targetHost (binding : RemoteForwardBinding) : String := binding.host.getD "localhost"

def absPort (binding : RemoteForwardBinding) : UInt16 := .ofNat binding.hostPort.natAbs

namespace Surroundings
variable (world : Surroundings) (config : Config)

def withEntityPath (relayName cs : String) : String :=
  if "entitypath=".toList <:+: (world.lowercase cs).toList then cs else cs ++ ";EntityPath=" ++ relayName

def buildConnectionString (relayName : String) (overrideCs : Option String) : Except StartError String :=
  match overrideCs, config.azureRelayConnectionString, config.azureRelayEndpoint with
  | some cs, _, _ => .ok (world.withEntityPath relayName cs)
  | none, some cs, _ => .ok (world.withEntityPath relayName cs)
  | none, none, some endpoint =>
    let cs := "Endpoint=" ++ endpoint ++ ";EntityPath=" ++ relayName
    let cs := config.azureRelaySharedAccessKeyName.elim cs (cs ++ ";SharedAccessKeyName=" ++ ·)
    let cs := config.azureRelaySharedAccessKey.elim cs (cs ++ ";SharedAccessKey=" ++ ·)
    .ok (config.azureRelaySharedAccessSignature.elim cs (cs ++ ";SharedAccessSignature=" ++ ·))
  | none, none, none => .error (.failed "No connection string or endpoint configured")

def credentials (rf : RemoteForward) : Except StartError RelayCredentials :=
  if world.managed then (world.provider rf.relayName).map fun _ => .broker rf.relayName
  else (world.buildConnectionString config rf.relayName rf.connectionString).map .connectionString

def joinGroup (groups : Table String RemoteGroup) (relayName : String) (cs : RelayCredentials)
    (bindings : List (Position × RemoteForwardBinding)) : Table String RemoteGroup :=
  let entry := (groups.get relayName).getD ⟨cs, []⟩
  groups.set relayName { entry with bindings := entry.bindings ++ bindings }

def gatherForward (groups : Table String RemoteGroup) (placed : RemoteForward × Nat) :
    Except StartError (Table String RemoteGroup) :=
  match world.credentials config placed.1 with
  | .ok cs => .ok (joinGroup groups placed.1.relayName cs
      ((remoteBindings placed.1).zipIdx.map fun (binding, index) => ((placed.2, index), binding)))
  | .error e => if exitOnForwardFailure config then .error e else .ok groups

def gatherForwards : Except StartError (Table String RemoteGroup) :=
  config.remoteForward.zipIdx.foldlM (world.gatherForward config) .empty

/-! ### The bridges -/

def openListener (cs : RelayCredentials) (lastErr : Option String) : List Nat → Except StartError Unit
  | [] => .error (lastErr.elim .panicked .failed)
  | attempt :: rest =>
    match world.listener cs attempt with
    | .ok () => .ok ()
    | .error e => openListener cs (some e) rest

def maxAttempts : Nat := config.connectionAttempts.getD 1

def Bridge.insert (bridge : Bridge) (portName : String) (position : Position) (forwarder : RemoteForwarder) : Bridge :=
  { bridge with forwarders := bridge.forwarders.set portName (position, forwarder) }

def addBinding (bridge : Bridge) (placed : Position × RemoteForwardBinding) : Except StartError Bridge :=
  let (position, binding) := placed
  let portName := effectivePortName binding
  if binding.http then
    match world.httpForwarder position with
    | .ok () => .ok { bridge with httpForwarders := bridge.httpForwarders ++ [position] }
    | .error e => if exitOnForwardFailure config then .error e else .ok bridge
  else match binding.localSocket with
    | some path => .ok (Bridge.insert bridge portName position (.socket path portName))
    | none =>
      if binding.hostPort = 0 then .ok bridge
      else match world.resolve position (targetHost binding) (absPort binding) with
        | .error e => .error e
        | .ok targetAddr =>
          if !isAddressFamilyAllowed world.lowercase targetAddr config.addressFamily then .ok bridge
          else match config.bindAddress.mapM (world.bindAddress position) with
            | .error e => .error e
            | .ok _ => .ok (Bridge.insert bridge portName position
                (if binding.hostPort < 0 then .udp targetAddr portName else .tcp targetAddr portName))

/-- The bridge of a relay, if it has something to forward to. -/
def startGroup (relayName : String) (group : RemoteGroup) : Except StartError (Option Bridge) :=
  match world.openListener group.credentials none (List.range' 1 (maxAttempts config)) with
  | .error .panicked => .error .panicked
  | .error (.failed e) =>
    if exitOnForwardFailure config then
      .error (.failed ("failed to create listener for '" ++ relayName ++ "': " ++ e))
    else .ok none
  | .ok () => do
    let bridge ← group.bindings.foldlM (world.addBinding config) ⟨relayName, group.credentials, .empty, []⟩
    if bridge.forwarders.size = 0 ∧ bridge.httpForwarders = [] then return none
    if world.managed then world.ready relayName
    return some bridge

def startGroups : List (String × RemoteGroup) → Except StartError (List Bridge)
  | [] => .ok []
  | (relayName, group) :: rest => do
    let bridge ← world.startGroup config relayName group
    return bridge.toList ++ (← startGroups rest)

def start : Except StartError (List Bridge) := do
  let tasks ← world.localTasks
  let groups ← world.gatherForwards config
  let bridges ← world.startGroups config (world.visited groups.entries)
  if world.managed ∧ tasks + bridges.length = 0 then
    throw (.failed "Managed profile started no forwarding tasks")
  return bridges

/-! ### What is reached -/

def eligible (placed : Position × RemoteForwardBinding) : Bool :=
  let (position, binding) := placed
  !binding.http && (binding.localSocket.isSome || binding.hostPort ≠ 0 &&
    match world.resolve position (targetHost binding) (absPort binding) with
    | .ok addr => isAddressFamilyAllowed world.lowercase addr config.addressFamily
    | .error _ => false)

/-- The forwarder leads to the socket of the binding, or to an address that its host and port resolve to. -/
def Serves (binding : RemoteForwardBinding) (forwarder : RemoteForwarder) : Prop :=
  match binding.localSocket with
  | some path => forwarder = .socket path (effectivePortName binding)
  | none => ∃ position addr, world.resolve position (targetHost binding) (absPort binding) = .ok addr ∧
      forwarder = if binding.hostPort < 0 then .udp addr (effectivePortName binding) else .tcp addr (effectivePortName binding)

/-- Some preamble with the binding's port name leads to its target, on a listener with its forward's credentials. -/
def Reachable (bridges : List Bridge) (rf : RemoteForward) (binding : RemoteForwardBinding) : Prop :=
  ∃ bridge ∈ bridges, bridge.relayName = rf.relayName ∧ world.credentials config rf = .ok bridge.credentials ∧
    ∃ mode written forwarder, writeRequest ⟨mode, effectivePortName binding⟩ = .ok written ∧
      (∀ rest, dispatchConnection bridge.forwarders (written ++ rest) = .handled forwarder rest) ∧
      world.Serves binding forwarder.2

def Stands (config : Config) (position : Position) (rf : RemoteForward) (binding : RemoteForwardBinding) : Prop :=
  config.remoteForward[position.1]? = some rf ∧ (remoteBindings rf)[position.2]? = some binding

/-- No remote forward is lost. -/
def AllReachable (bridges : List Bridge) : Prop :=
  ∀ position rf binding, Stands config position rf binding → world.eligible config (position, binding) = true →
    world.Reachable config bridges rf binding

def sharing (relayName portName : String) : List (Position × RemoteForwardBinding) :=
  (((remoteGroups config).get relayName).getD []).filter fun placed =>
    world.eligible config placed && effectivePortName placed.2 = portName

/-- The first binding leads to where the other one is to lead. -/
def SameTarget (placed : Position × RemoteForwardBinding) (binding : RemoteForwardBinding) : Prop :=
  match placed.2.localSocket, binding.localSocket with
  | some path, some path' => path = path'
  | none, none => (placed.2.hostPort < 0 ↔ binding.hostPort < 0) ∧ ∃ position,
      world.resolve position (targetHost binding) (absPort binding) =
        world.resolve placed.1 (targetHost placed.2) (absPort placed.2)
  | _, _ => False

/-- The forwards of a relay have the same credentials, their names fit into a preamble, and what is last
under a name leads to where all of that name are to lead. -/
def Separate : Prop :=
  ∀ position rf binding, Stands config position rf binding → world.eligible config (position, binding) = true →
    (∃ first, config.remoteForward.find? (·.relayName = rf.relayName) = some first ∧
      world.credentials config first = world.credentials config rf) ∧
    (effectivePortName binding).utf8ByteSize ≤ 255 ∧
    ∀ last, (world.sharing config rf.relayName (effectivePortName binding)).getLast? = some last →
      world.SameTarget last binding

section Starting
variable {world config}

/-- What is gathered of so many forwards. -/
structure Gathered (world : Surroundings) (config : Config) (seen : List (RemoteForward × Nat))
    (groups : Table String RemoteGroup) : Prop where
  credentials : ∀ placed ∈ seen, ∃ cs, world.credentials config placed.1 = .ok cs
  keys : ∀ relayName, relayName ∈ groups.keys ↔ relayName ∈ seen.map (·.1.relayName)
  first : ∀ relayName group, groups.get relayName = some group → ∃ placed,
    seen.find? (·.1.relayName = relayName) = some placed ∧ world.credentials config placed.1 = .ok group.credentials
  bindings : ∀ relayName, ((groups.get relayName).map (·.bindings)).getD [] =
    (seen.filter (·.1.relayName = relayName)).flatMap fun (rf, group) =>
      (remoteBindings rf).zipIdx.map fun (binding, index) => ((group, index), binding)

theorem gatherForward_ok {seen : List (RemoteForward × Nat)} {placed : RemoteForward × Nat} {groups next : Table String RemoteGroup}
    (on : exitOnForwardFailure config = true) (gathered : Gathered world config seen groups)
    (done : world.gatherForward config groups placed = .ok next) : Gathered world config (seen ++ [placed]) next := by
  unfold gatherForward at done
  split at done
  · next cs own =>
    cases done
    refine ⟨fun other member => ?_, fun relayName => ?_, fun relayName group held => ?_, fun relayName => ?_⟩
    · rcases List.mem_append.mp member with old | new
      · exact gathered.credentials other old
      · rw [List.mem_singleton.mp new]
        exact ⟨cs, own⟩
    · unfold joinGroup
      rw [Table.mem_keys_set, gathered.keys, List.map_append, List.mem_append, List.map_singleton, List.mem_singleton]
    · by_cases same : relayName = placed.1.relayName
      · subst same
        unfold joinGroup at held
        rw [Table.get_set_self] at held
        cases held
        cases old : groups.get placed.1.relayName with
        | none =>
          have absent : seen.find? (·.1.relayName = placed.1.relayName) = none := by
            rw [List.find?_eq_none]
            intro other member same
            refine Table.get_eq_none.mp old ((gathered.keys _).mpr (List.mem_map.mpr ⟨other, member, ?_⟩))
            simpa using same
          exact ⟨placed, by simp [List.find?_append, absent], own⟩
        | some group =>
          obtain ⟨first, found, creds⟩ := gathered.first _ group old
          exact ⟨first, by simp [List.find?_append, found], creds⟩
      · unfold joinGroup at held
        rw [Table.get_set_other same] at held
        obtain ⟨first, found, creds⟩ := gathered.first relayName group held
        exact ⟨first, by simp [List.find?_append, found], creds⟩
    · rw [List.filter_append, List.flatMap_append, ← gathered.bindings]
      unfold joinGroup
      by_cases same : relayName = placed.1.relayName
      · subst same
        rw [Table.get_set_self]
        cases groups.get placed.1.relayName <;> simp
      · rw [Table.get_set_other same]
        simp [Ne.symm same]
  · rw [if_pos on] at done
    cases done

theorem gatherForwards_ok {groups : Table String RemoteGroup} (on : exitOnForwardFailure config = true)
    (done : world.gatherForwards config = .ok groups) : Gathered world config config.remoteForward.zipIdx groups := by
  have start : Gathered world config [] .empty := ⟨nofun, fun _ => Iff.rfl, nofun, fun _ => rfl⟩
  exact foldlM_ok (fun _ _ _ _ gathered stepped => gatherForward_ok on gathered stepped) start done

theorem Gathered.group_bindings {groups : Table String RemoteGroup} {relayName : String} {group : RemoteGroup}
    (gathered : Gathered world config config.remoteForward.zipIdx groups) (held : groups.get relayName = some group) :
    group.bindings = ((remoteGroups config).get relayName).getD [] := by
  have all := gathered.bindings relayName
  rw [held] at all
  rw [remoteGroups_eq]
  exact all

/-! ### The forwarders of a bridge -/

/-- The address, once it is known that there is one. -/
def resolved (world : Surroundings) (position : Position) (host : String) (port : UInt16) : SocketAddr :=
  match world.resolve position host port with
  | .ok addr => addr
  | .error _ => .v4 0 0

/-- What `remoteForwarder` says of a binding whose address was found. -/
theorem made_iff {placed : Position × RemoteForwardBinding}
    (found : placed.2.http = false → placed.2.localSocket = none → placed.2.hostPort ≠ 0 →
      ∃ addr, world.resolve placed.1 (targetHost placed.2) (absPort placed.2) = .ok addr) :
    (remoteForwarder world.lowercase config.addressFamily world.resolved placed).isSome = world.eligible config placed := by
  obtain ⟨position, binding⟩ := placed
  unfold remoteForwarder eligible
  dsimp only
  cases http : binding.http with
  | true => rfl
  | false =>
    cases socket : binding.localSocket with
    | some path => rfl
    | none =>
      by_cases zero : binding.hostPort = 0
      · simp [zero]
      · obtain ⟨addr, same⟩ := found http socket zero
        have picked : world.resolved position (binding.host.getD "localhost") (.ofNat binding.hostPort.natAbs) = addr := by
          unfold resolved
          rw [show world.resolve position (binding.host.getD "localhost") (.ofNat binding.hostPort.natAbs) = .ok addr from same]
        dsimp only at same
        rw [same, picked]
        cases allowed : isAddressFamilyAllowed world.lowercase addr config.addressFamily <;> simp [zero, allowed]

/-- What a bridge has after so many of its bindings. -/
structure Collected (world : Surroundings) (config : Config) (relayName : String) (cs : RelayCredentials)
    (seen : List (Position × RemoteForwardBinding)) (bridge : Bridge) : Prop where
  relayName : bridge.relayName = relayName
  credentials : bridge.credentials = cs
  forwarders : bridge.forwarders =
    .ofEntries (seen.filterMap (remoteForwarder world.lowercase config.addressFamily world.resolved))
  found : ∀ placed ∈ seen, placed.2.http = false → placed.2.localSocket = none → placed.2.hostPort ≠ 0 →
    ∃ addr, world.resolve placed.1 (targetHost placed.2) (absPort placed.2) = .ok addr

section Collecting
variable {relayName : String} {cs : RelayCredentials} {seen : List (Position × RemoteForwardBinding)}
  {bridge : Bridge} {placed : Position × RemoteForwardBinding}

/-- The binding adds no forwarder. -/
theorem Collected.skipped (collected : Collected world config relayName cs seen bridge)
    (none_ : remoteForwarder world.lowercase config.addressFamily world.resolved placed = none)
    (found : placed.2.http = false → placed.2.localSocket = none → placed.2.hostPort ≠ 0 →
      ∃ addr, world.resolve placed.1 (targetHost placed.2) (absPort placed.2) = .ok addr) :
    Collected world config relayName cs (seen ++ [placed]) bridge where
  relayName := collected.relayName
  credentials := collected.credentials
  forwarders := by simp [collected.forwarders, none_]
  found := by
    intro other member
    rcases List.mem_append.mp member with old | new
    · exact collected.found other old
    · rw [List.mem_singleton.mp new]
      exact found

theorem Collected.inserted {portName : String} {position : Position} {forwarder : RemoteForwarder}
    (collected : Collected world config relayName cs seen bridge)
    (made : remoteForwarder world.lowercase config.addressFamily world.resolved placed = some (portName, position, forwarder))
    (found : placed.2.http = false → placed.2.localSocket = none → placed.2.hostPort ≠ 0 →
      ∃ addr, world.resolve placed.1 (targetHost placed.2) (absPort placed.2) = .ok addr) :
    Collected world config relayName cs (seen ++ [placed]) (Bridge.insert bridge portName position forwarder) where
  relayName := collected.relayName
  credentials := collected.credentials
  forwarders := by
    show bridge.forwarders.set portName (position, forwarder) = _
    rw [collected.forwarders, List.filterMap_append, List.filterMap_cons_some made, List.filterMap_nil, Table.ofEntries_append]
  found := by
    intro other member
    rcases List.mem_append.mp member with old | new
    · exact collected.found other old
    · rw [List.mem_singleton.mp new]
      exact found

theorem addBinding_ok {next : Bridge} (on : exitOnForwardFailure config = true)
    (collected : Collected world config relayName cs seen bridge) (done : world.addBinding config bridge placed = .ok next) :
    Collected world config relayName cs (seen ++ [placed]) next := by
  obtain ⟨position, binding⟩ := placed
  unfold addBinding at done
  dsimp only at done
  split at done
  · next http =>
    have none_ : remoteForwarder world.lowercase config.addressFamily world.resolved (position, binding) = none := by
      simp [remoteForwarder, http]
    have kept := collected.skipped none_ (fun off => by simp [http] at off)
    split at done
    · cases done
      exact ⟨kept.relayName, kept.credentials, kept.forwarders, kept.found⟩
    · cases done
  · next plain =>
    split at done
    · next path socket =>
      cases done
      exact collected.inserted (by simp [remoteForwarder, plain, socket, effectivePortName])
        (fun _ none_ => by simp [socket] at none_)
    · next none_ =>
      split at done
      · next zero =>
        cases done
        exact collected.skipped (by simp [remoteForwarder, plain, none_, zero]) (fun _ _ nonzero => absurd zero nonzero)
      · next nonzero =>
        split at done
        · cases done
        · next addr found =>
          have picked : world.resolved position (binding.host.getD "localhost") (.ofNat binding.hostPort.natAbs) = addr := by
            unfold resolved
            rw [show world.resolve position (binding.host.getD "localhost") (.ofNat binding.hostPort.natAbs) = .ok addr from found]
          split at done
          · next other =>
            cases done
            refine collected.skipped ?_ (fun _ _ _ => ⟨addr, found⟩)
            simp [remoteForwarder, plain, none_, nonzero, picked, other]
          · next allowed =>
            split at done
            · cases done
            · cases done
              refine collected.inserted ?_ (fun _ _ _ => ⟨addr, found⟩)
              simp [remoteForwarder, plain, none_, nonzero, picked, allowed, effectivePortName]

theorem startGroup_ok {group : RemoteGroup} {made : Option Bridge} (on : exitOnForwardFailure config = true)
    (done : world.startGroup config relayName group = .ok made) : ∃ bridge,
      Collected world config relayName group.credentials group.bindings bridge ∧
        (made = some bridge ∨ made = none ∧ bridge.forwarders.size = 0) := by
  unfold startGroup at done
  split at done
  · cases done
  · rw [if_pos on] at done
    cases done
  · obtain ⟨bridge, folded, done⟩ := bind_eq_ok.mp done
    have start : Collected world config relayName group.credentials [] ⟨relayName, group.credentials, .empty, []⟩ :=
      ⟨rfl, rfl, rfl, nofun⟩
    have collected : Collected world config relayName group.credentials group.bindings bridge :=
      foldlM_ok (fun _ _ _ _ before stepped => addBinding_ok on before stepped) start folded
    refine ⟨bridge, collected, ?_⟩
    split at done
    · next nothing =>
      cases done
      exact .inr ⟨rfl, nothing.1⟩
    · split at done
      · obtain ⟨_, _, same⟩ := bind_eq_ok.mp done
        cases same
        exact .inl rfl
      · cases done
        exact .inl rfl

end Collecting

theorem startGroups_ok {groups : List (String × RemoteGroup)} {bridges : List Bridge}
    (done : world.startGroups config groups = .ok bridges) :
    (∀ entry ∈ groups, ∃ made, world.startGroup config entry.1 entry.2 = .ok made ∧ ∀ bridge, made = some bridge → bridge ∈ bridges) ∧
      ∀ bridge ∈ bridges, ∃ entry ∈ groups, world.startGroup config entry.1 entry.2 = .ok (some bridge) := by
  induction groups generalizing bridges with
  | nil =>
    cases done
    exact ⟨nofun, nofun⟩
  | cons entry rest ih =>
    obtain ⟨made, first, done⟩ := bind_eq_ok.mp done
    obtain ⟨others, later, same⟩ := bind_eq_ok.mp done
    cases same
    obtain ⟨each, from_⟩ := ih later
    constructor
    · intro other member
      rcases List.mem_cons.mp member with rfl | old
      · exact ⟨made, first, fun bridge same => by simp [same]⟩
      · obtain ⟨made', started, inside⟩ := each other old
        exact ⟨made', started, fun bridge same => List.mem_append_right _ (inside bridge same)⟩
    · intro bridge member
      rcases List.mem_append.mp member with new | old
      · have same : made = some bridge := by simpa using new
        exact ⟨entry, List.mem_cons_self, same ▸ first⟩
      · obtain ⟨other, there, started⟩ := from_ bridge old
        exact ⟨other, List.mem_cons_of_mem _ there, started⟩

theorem start_ok {bridges : List Bridge} (done : world.start config = .ok bridges) : ∃ groups,
    world.gatherForwards config = .ok groups ∧ world.startGroups config (world.visited groups.entries) = .ok bridges := by
  unfold start at done
  obtain ⟨tasks, _, done⟩ := bind_eq_ok.mp done
  obtain ⟨groups, gathered, done⟩ := bind_eq_ok.mp done
  obtain ⟨made, started, done⟩ := bind_eq_ok.mp done
  split at done
  · cases done
  · cases done
    exact ⟨groups, gathered, started⟩

/-! ### Who is reached -/

/-- The bridge of a relay that has an eligible binding. -/
structure Opened (world : Surroundings) (config : Config) (bridges : List Bridge) (relayName : String) (bridge : Bridge) :
    Prop where
  among : bridge ∈ bridges
  named : bridge.relayName = relayName
  first : ∃ first, config.remoteForward.find? (·.relayName = relayName) = some first ∧
    world.credentials config first = .ok bridge.credentials
  forwarders : bridge.forwarders = .ofEntries ((((remoteGroups config).get relayName).getD []).filterMap
    (remoteForwarder world.lowercase config.addressFamily world.resolved))
  made : ∀ placed ∈ ((remoteGroups config).get relayName).getD [],
    (remoteForwarder world.lowercase config.addressFamily world.resolved placed).isSome = world.eligible config placed

theorem stands_grouped {position : Position} {rf : RemoteForward} {binding : RemoteForwardBinding}
    (stands : Stands config position rf binding) :
    (position, binding) ∈ ((remoteGroups config).get rf.relayName).getD [] := by
  obtain ⟨forward, place⟩ := stands
  rw [remoteGroups_eq, List.mem_flatMap]
  refine ⟨(rf, position.1), List.mem_filter.mpr ⟨List.mk_mem_zipIdx_iff_getElem?.mpr forward, by simp⟩, ?_⟩
  exact List.mem_map.mpr ⟨(binding, position.2), List.mk_mem_zipIdx_iff_getElem?.mpr place, rfl⟩

theorem find_zipIdx {forwards : List RemoteForward} {relayName : String} {placed : RemoteForward × Nat} (k : Nat)
    (found : (forwards.zipIdx k).find? (·.1.relayName = relayName) = some placed) :
    forwards.find? (·.relayName = relayName) = some placed.1 := by
  induction forwards generalizing k with
  | nil => cases found
  | cons forward rest ih =>
    rw [List.zipIdx_cons] at found
    by_cases same : forward.relayName = relayName
    · rw [List.find?_cons_of_pos (by simpa using same)] at found ⊢
      cases found
      rfl
    · rw [List.find?_cons_of_neg (by simpa using same)] at found ⊢
      exact ih (k + 1) found

theorem bridge_opened {groups : Table String RemoteGroup} {bridges : List Bridge} {relayName : String} {group : RemoteGroup}
    {bridge : Bridge} (gathered : Gathered world config config.remoteForward.zipIdx groups)
    (held : groups.get relayName = some group) (among : bridge ∈ bridges)
    (collected : Collected world config relayName group.credentials group.bindings bridge) :
    Opened world config bridges relayName bridge := by
  obtain ⟨placed, found, creds⟩ := gathered.first relayName group held
  have all := gathered.group_bindings held
  refine ⟨among, collected.relayName, ⟨placed.1, find_zipIdx 0 found, by rw [creds, collected.credentials]⟩, ?_, ?_⟩
  · rw [collected.forwarders, all]
  · intro other member
    exact made_iff (collected.found other (all ▸ member))

theorem opened_of_bridge {bridges : List Bridge} {bridge : Bridge} (on : exitOnForwardFailure config = true)
    (done : world.start config = .ok bridges) (member : bridge ∈ bridges) :
    Opened world config bridges bridge.relayName bridge := by
  obtain ⟨groups, gathering, starting⟩ := start_ok done
  obtain ⟨-, from_⟩ := startGroups_ok starting
  obtain ⟨⟨relayName, group⟩, there, started⟩ := from_ bridge member
  have held := Table.get_eq_some.mpr ((world.visited_perm _).mem_iff.mp there)
  obtain ⟨made, collected, same | ⟨none_, -⟩⟩ := startGroup_ok on started
  · cases same
    have opened := bridge_opened (gatherForwards_ok on gathering) held member collected
    rw [opened.named]
    exact opened
  · cases none_

theorem exists_opened {bridges : List Bridge} {position : Position} {rf : RemoteForward} {binding : RemoteForwardBinding}
    (on : exitOnForwardFailure config = true) (done : world.start config = .ok bridges)
    (stands : Stands config position rf binding) (eligible : world.eligible config (position, binding) = true) :
    ∃ bridge, Opened world config bridges rf.relayName bridge := by
  obtain ⟨groups, gathering, starting⟩ := start_ok done
  have gathered := gatherForwards_ok on gathering
  have forward : (rf, position.1) ∈ config.remoteForward.zipIdx := List.mk_mem_zipIdx_iff_getElem?.mpr stands.1
  have present : rf.relayName ∈ groups.keys := (gathered.keys _).mpr (List.mem_map.mpr ⟨_, forward, rfl⟩)
  obtain ⟨group, held⟩ := Option.ne_none_iff_exists'.mp fun none_ => Table.get_eq_none.mp none_ present
  have there := (world.visited_perm groups.entries).mem_iff.mpr (Table.get_eq_some.mp held)
  obtain ⟨made, started, inside⟩ := (startGroups_ok starting).1 _ there
  obtain ⟨bridge, collected, same | ⟨-, empty⟩⟩ := startGroup_ok on started
  · exact ⟨bridge, bridge_opened gathered held (inside bridge same) collected⟩
  · exfalso
    have grouped := stands_grouped stands
    rw [← gathered.group_bindings held] at grouped
    obtain ⟨entry, made⟩ := Option.isSome_iff_exists.mp ((made_iff (collected.found _ grouped)).trans eligible)
    have key : entry.1 ∈ bridge.forwarders.keys := by
      rw [collected.forwarders, Table.mem_keys_ofEntries]
      exact List.mem_map_of_mem (List.mem_filterMap.mpr ⟨_, grouped, made⟩)
    have none_ : bridge.forwarders.entries = [] := List.length_eq_zero_iff.mp empty
    simp [Table.keys, none_] at key

theorem getLast_filterMap {α β : Type} {f : α → Option β} {entries : List α} (all : ∀ entry ∈ entries, (f entry).isSome = true) :
    (entries.filterMap f).getLast? = entries.getLast?.bind f := by
  induction entries using List.reverseRecOn with
  | nil => rfl
  | append_singleton entries entry ih =>
    obtain ⟨made, same⟩ := Option.isSome_iff_exists.mp (all entry (by simp))
    rw [List.filterMap_append, List.filterMap_cons_some same, List.filterMap_nil]
    simp [same]

/-- A forwarder is kept under the name of its binding, together with its position. -/
theorem remoteForwarder_key {lowercase : String → String} {family : Option String}
    {resolve : Position → String → UInt16 → SocketAddr} {placed : Position × RemoteForwardBinding}
    {entry : String × Position × RemoteForwarder} (made : remoteForwarder lowercase family resolve placed = some entry) :
    entry.1 = effectivePortName placed.2 ∧ entry.2.1 = placed.1 ∧ ∃ mode, entry.2.2.mode = some mode := by
  obtain ⟨position, binding⟩ := placed
  unfold remoteForwarder at made
  dsimp only at made
  split at made
  · cases made
  · split at made
    · cases made
      exact ⟨rfl, rfl, .stream, rfl⟩
    · split at made
      · cases made
      · split at made
        · cases made
        · cases made
          refine ⟨rfl, rfl, ?_⟩
          split
          · exact ⟨.datagram, rfl⟩
          · exact ⟨.stream, rfl⟩

theorem mem_sharing {relayName portName : String} {placed : Position × RemoteForwardBinding} :
    placed ∈ world.sharing config relayName portName ↔ placed ∈ ((remoteGroups config).get relayName).getD [] ∧
      world.eligible config placed = true ∧ effectivePortName placed.2 = portName := by
  simp [sharing, List.mem_filter]

theorem Opened.lookup {bridges : List Bridge} {relayName portName : String} {bridge : Bridge}
    {last : Position × RemoteForwardBinding} (opened : Opened world config bridges relayName bridge)
    (ends : (world.sharing config relayName portName).getLast? = some last) : ∃ forwarder,
      remoteForwarder world.lowercase config.addressFamily world.resolved last = some (portName, last.1, forwarder) ∧
        lookupForwarder bridge.forwarders portName = some (last.1, forwarder) := by
  have own : (((((remoteGroups config).get relayName).getD []).filterMap
      (remoteForwarder world.lowercase config.addressFamily world.resolved)).filter (·.1 = portName)) =
      (world.sharing config relayName portName).filterMap
        (remoteForwarder world.lowercase config.addressFamily world.resolved) := by
    unfold sharing
    rw [List.filter_filterMap, List.filterMap_filter]
    apply List.filterMap_congr
    intro placed member
    have some_ := opened.made placed member
    cases made : remoteForwarder world.lowercase config.addressFamily world.resolved placed with
    | none => simp
    | some entry =>
      rw [made] at some_
      rw [← some_, ← (remoteForwarder_key made).1]
      simp [Option.filter]
  have inside := mem_sharing.mp (List.mem_of_getLast? ends)
  obtain ⟨entry, made⟩ := Option.isSome_iff_exists.mp ((opened.made last inside.1).trans inside.2.1)
  obtain ⟨name, position, forwarder⟩ := entry
  obtain ⟨key, place, -⟩ := remoteForwarder_key made
  have found : bridge.forwarders.get portName = some (last.1, forwarder) := by
    rw [opened.forwarders, Table.get_ofEntries, own, getLast_filterMap, ends, Option.bind_some, made]
    · simpa using place
    · intro placed member
      obtain ⟨grouped, eligible, -⟩ := mem_sharing.mp member
      exact (opened.made placed grouped).trans eligible
  refine ⟨forwarder, ?_, ?_⟩
  · have place : position = last.1 := place
    have key : name = portName := key.trans inside.2.2
    rw [made, place, key]
  · unfold lookupForwarder
    rw [found]

theorem serves_iff {placed : Position × RemoteForwardBinding} {binding : RemoteForwardBinding} {portName : String}
    {position : Position} {forwarder : RemoteForwarder} (eligible : world.eligible config placed = true)
    (made : remoteForwarder world.lowercase config.addressFamily world.resolved placed = some (portName, position, forwarder))
    (name : portName = effectivePortName binding) : world.Serves binding forwarder ↔ world.SameTarget placed binding := by
  obtain ⟨place, other⟩ := placed
  unfold remoteForwarder at made
  unfold Surroundings.eligible at eligible
  unfold Serves SameTarget
  dsimp only at made eligible ⊢
  split at made
  · cases made
  · next plain =>
    cases socket : other.localSocket with
    | some path =>
      rw [socket] at made
      cases made
      cases binding.localSocket with
      | some path' => simp [name]
      | none =>
        constructor
        · rintro ⟨position, addr, -, same⟩
          split at same <;> cases same
        · nofun
    | none =>
      rw [socket] at made
      dsimp only at made
      split at made
      · cases made
      · next nonzero =>
        obtain ⟨addr, found⟩ : ∃ addr, world.resolve place (targetHost other) (absPort other) = .ok addr := by
          cases found : world.resolve place (targetHost other) (absPort other) with
          | ok addr => exact ⟨addr, rfl⟩
          | error e => simp [plain, socket, found] at eligible
        have picked : world.resolved place (other.host.getD "localhost") (.ofNat other.hostPort.natAbs) = addr := by
          unfold resolved
          rw [show world.resolve place (other.host.getD "localhost") (.ofNat other.hostPort.natAbs) = .ok addr from found]
        rw [picked] at made
        split at made
        · cases made
        · cases made
          cases binding.localSocket with
          | some path =>
            constructor
            · intro same
              by_cases udp : other.hostPort < 0 <;> simp [udp] at same
            · nofun
          | none =>
            dsimp only
            rw [found, ← name]
            constructor
            · rintro ⟨position, addr', resolves, same⟩
              by_cases udp : other.hostPort < 0 <;> by_cases udp' : binding.hostPort < 0 <;> simp [udp, udp'] at same <;>
                exact ⟨by simp [udp, udp'], position, by rw [resolves, same]⟩
            · rintro ⟨kind, position, resolves⟩
              exact ⟨position, addr, resolves, by simp [kind]⟩

theorem forwards_reachable_iff {bridges : List Bridge} (on : exitOnForwardFailure config = true)
    (started : world.start config = .ok bridges) : world.AllReachable config bridges ↔ world.Separate config := by
  constructor
  · intro reachable position rf binding stands eligible
    obtain ⟨bridge, among, named, creds, mode, written, forwarder, wrote, handled, serves⟩ :=
      reachable position rf binding stands eligible
    have opened := opened_of_bridge on started among
    rw [named] at opened
    obtain ⟨first, found, own⟩ := opened.first
    refine ⟨⟨first, found, own.trans creds.symm⟩, (writeRequest_ok.mp wrote).1, fun last ends => ?_⟩
    obtain ⟨kept, made, leads⟩ := opened.lookup ends
    obtain ⟨looked, -⟩ := (dispatchConnection_handled (readRequest_of_written wrote [])).mp (handled [])
    rw [leads] at looked
    cases looked
    exact (serves_iff (mem_sharing.mp (List.mem_of_getLast? ends)).2.1 made rfl).mp serves
  · intro separate position rf binding stands eligible
    obtain ⟨⟨first, found, creds⟩, fits, leads⟩ := separate position rf binding stands eligible
    obtain ⟨bridge, opened⟩ := exists_opened on started stands eligible
    obtain ⟨first', found', own⟩ := opened.first
    rw [found] at found'
    cases found'
    have among : (position, binding) ∈ world.sharing config rf.relayName (effectivePortName binding) :=
      mem_sharing.mpr ⟨stands_grouped stands, eligible, rfl⟩
    obtain ⟨last, ends⟩ := Option.isSome_iff_exists.mp (List.getLast?_isSome.mpr (List.ne_nil_of_mem among))
    obtain ⟨forwarder, made, looked⟩ := opened.lookup ends
    obtain ⟨-, -, mode, takes⟩ := remoteForwarder_key made
    obtain ⟨written, wrote⟩ : ∃ written, writeRequest ⟨mode, effectivePortName binding⟩ = .ok written :=
      ⟨_, writeRequest_ok.mpr ⟨fits, rfl⟩⟩
    refine ⟨bridge, opened.among, opened.named, creds.symm.trans own, mode, written, (last.1, forwarder), wrote, fun rest => ?_, ?_⟩
    · exact (dispatchConnection_handled (readRequest_of_written wrote rest)).mpr ⟨looked, takes⟩
    · exact (serves_iff (mem_sharing.mp (List.mem_of_getLast? ends)).2.1 made rfl).mpr (leads last ends)

end Starting

/-! ### Two hosts behind one port name -/

/-- A host that is not managed, where only two addresses are found. -/
def localSurroundings : Surroundings where
  lowercase := Text.toAsciiLowercase
  managed := false
  localTasks := .ok 0
  provider _ := .error (.failed "not managed")
  listener _ _ := .ok ()
  httpForwarder _ := .ok ()
  resolve _ host port :=
    if host = "10.0.0.1" then .ok (.v4 0x0a000001 port)
    else if host = "10.0.0.2" then .ok (.v4 0x0a000002 port)
    else .error (.failed ("DNS resolution failed for '" ++ host ++ "'"))
  bindAddress _ _ := .ok (.v4 0 0)
  ready _ := .ok ()
  visited := id
  visited_perm _ := .refl _

def portConfig (hosts : List String) : Config where
  azureRelayConnectionString := some "Endpoint=sb://ns.example/;SharedAccessKeyName=k;SharedAccessKey=s"
  remoteForward := [{ relayName := "r", bindings := hosts.map fun host => { host := some host, hostPort := 80 } }]

/-- Two hosts and a UDP port behind one relay, and the first host again behind another. -/
def sharedConfig : Config where
  azureRelayConnectionString := some "Endpoint=sb://ns.example/;SharedAccessKeyName=k;SharedAccessKey=s"
  remoteForward := [
    { relayName := "r", bindings :=
      [{ host := some "10.0.0.1", hostPort := 80 }, { host := some "10.0.0.2", hostPort := 80, portName := some "web" },
        { host := some "10.0.0.2", hostPort := -53 }] },
    { relayName := "q", bindings := [{ host := some "10.0.0.1", hostPort := 80 }] }]

theorem separate_of_last (own : ∀ position rf binding, Stands config position rf binding → world.eligible config (position, binding) = true →
    (∃ first, config.remoteForward.find? (·.relayName = rf.relayName) = some first ∧
      world.credentials config first = world.credentials config rf) ∧
    (effectivePortName binding).utf8ByteSize ≤ 255 ∧
    (world.sharing config rf.relayName (effectivePortName binding)).getLast? = some (position, binding)) : world.Separate config := by
  intro position rf binding stands eligible
  obtain ⟨creds, fits, last⟩ := own position rf binding stands eligible
  refine ⟨creds, fits, ?_⟩
  intro placed ends
  obtain rfl := Option.some.inj (last.symm.trans ends)
  unfold SameTarget
  cases binding.localSocket with
  | some path => rfl
  | none => exact ⟨Iff.rfl, position, rfl⟩

theorem sharedConfig_separate : localSurroundings.Separate sharedConfig := by
  apply separate_of_last
  rintro ⟨group, index⟩ rf binding ⟨forward, bound⟩ -
  rcases group with _ | _ | group
  · cases forward
    rcases index with _ | _ | _ | index
    · cases bound
      exact ⟨⟨_, rfl, rfl⟩, by decide +kernel, by decide +kernel⟩
    · cases bound
      exact ⟨⟨_, rfl, rfl⟩, by decide +kernel, by decide +kernel⟩
    · cases bound
      exact ⟨⟨_, rfl, rfl⟩, by decide +kernel, by decide +kernel⟩
    · cases bound
  · cases forward
    rcases index with _ | index
    · cases bound
      exact ⟨⟨_, rfl, rfl⟩, by decide +kernel, by decide +kernel⟩
    · cases bound
  · cases forward

theorem forwards_reachable_iff_relays : ∃ bridges, localSurroundings.start sharedConfig = .ok bridges ∧ bridges.length = 2 ∧
    localSurroundings.AllReachable sharedConfig bridges := by
  obtain ⟨bridges, started, two⟩ : ∃ bridges, localSurroundings.start sharedConfig = .ok bridges ∧ bridges.length = 2 := ⟨_, rfl, rfl⟩
  exact ⟨bridges, started, two, (forwards_reachable_iff rfl started).mpr sharedConfig_separate⟩

/-- The second host takes the name of the first. -/
theorem first_host_lost : ¬ ∀ (world : Surroundings) (config : Config) (bridges : List Bridge),
    exitOnForwardFailure config = true → world.start config = .ok bridges → world.AllReachable config bridges := by
  intro reachable
  obtain ⟨bridges, started⟩ : ∃ bridges, localSurroundings.start (portConfig ["10.0.0.1", "10.0.0.2"]) = .ok bridges :=
    ⟨_, rfl⟩
  have stands : Stands (portConfig ["10.0.0.1", "10.0.0.2"]) (0, 0)
      { relayName := "r", bindings := [{ host := some "10.0.0.1", hostPort := 80 }, { host := some "10.0.0.2", hostPort := 80 }] }
      { host := some "10.0.0.1", hostPort := 80 } := ⟨rfl, rfl⟩
  obtain ⟨bridge, among, named, -, mode, written, forwarder, wrote, handled, serves⟩ :=
    reachable _ _ bridges rfl started _ _ _ stands (by decide +kernel)
  have opened := opened_of_bridge rfl started among
  rw [named] at opened
  have ends : (localSurroundings.sharing (portConfig ["10.0.0.1", "10.0.0.2"]) "r" "80").getLast? =
      some ((0, 1), { host := some "10.0.0.2", hostPort := 80 }) := by decide +kernel
  obtain ⟨kept, made, leads⟩ := opened.lookup ends
  obtain ⟨looked, -⟩ := (dispatchConnection_handled (readRequest_of_written wrote [])).mp (handled [])
  have name : effectivePortName { host := some "10.0.0.1", hostPort := 80 } = "80" := by decide +kernel
  rw [name, leads] at looked
  cases looked
  obtain ⟨-, position, same⟩ := (serves_iff (by decide +kernel) made name.symm).mp serves
  have other : localSurroundings.resolve (0, 0) "10.0.0.1" 80 ≠ localSurroundings.resolve (0, 1) "10.0.0.2" 80 := by
    decide +kernel
  exact other same

end Surroundings
end Azbridge.Runtime
