import Azbridge.Broker.Scripts
import Azbridge.Relays.Pairing

/-!
# Startup

The listeners and destinations that a host sets up when it starts, where names are found and
addresses free, against the endpoints that the relay map shows for its configuration.
-/

namespace Azbridge.Relays
open Azbridge.Runtime Broker.Profiles

/-- Where a listener is bound or a destination reached. -/
inductive Site
  | port (port : UInt16)
  | socket (path : String)
  deriving DecidableEq, Repr

/-- A listener or destination. `host` is the name that its address is looked up under. -/
structure Service where
  relayName : String
  direction : Direction
  protocol : Protocol
  portName : String
  host : Option String
  site : Site
  deriving DecidableEq, Repr

def RelayMapEndpoint.service (endpoint : RelayMapEndpoint) : Service where
  relayName := endpoint.relayName
  direction := endpoint.direction
  protocol := endpoint.protocol
  portName := endpoint.portName
  host := endpoint.host
  site := (endpoint.socket.map .socket).getD (.port endpoint.port)

/-- The addresses that are found for what listens here and for what is reached. -/
structure Machine extends Gateway where
  bind : Position → String → UInt16 → SocketAddr

variable (machine : Machine)

def Machine.localService (family : Option String) (gatewayPorts : Bool) (relayName : String)
    (entry : Position × LocalForwardBinding) : Option Service :=
  let (position, binding) := entry
  match binding.bindLocalSocket with
  | some path => some ⟨relayName, .listener, .socket, binding.portName.getD "sock", none, .socket path⟩
  | none =>
    let port := binding.bindPort
    if port = 0 then none
    else
      let portName := binding.portName.getD (defaultPortName port)
      let bindHost := if gatewayPorts then binding.bindAddress.getD "0.0.0.0" else binding.bindAddress.getD "127.0.0.1"
      let absPort : UInt16 := .ofNat port.natAbs
      if !isAddressFamilyAllowed machine.lowercase (machine.bind position bindHost absPort) family then none
      else some ⟨relayName, .listener, if port < 0 then .udp else .tcp, portName, some bindHost, .port absPort⟩

def Machine.localServices (config : Config) : List Service :=
  config.localForward.zipIdx.flatMap fun (lf, group) =>
    ((localBindings lf).zipIdx.map fun (binding, index) => ((group, index), binding)).filterMap
      (machine.localService config.addressFamily (config.gatewayPorts.getD false) lf.relayName)

/-- HTTP forwarders are kept in a list of their own. -/
def httpService (relayName : String) (entry : Position × RemoteForwardBinding) : Option Service :=
  let binding := entry.2
  if binding.http then
    some ⟨relayName, .destination, .http, binding.portName.getD (defaultPortName binding.hostPort),
      some (binding.host.getD "localhost"), .port (.ofNat binding.hostPort.natAbs)⟩
  else none

def forwarderService (relayName : String) (binding : RemoteForwardBinding) : RemoteForwarder → Service
  | .socket path portName => ⟨relayName, .destination, .socket, portName, none, .socket path⟩
  | .udp _ portName => ⟨relayName, .destination, .udp, portName, some (binding.host.getD "localhost"),
      .port (.ofNat binding.hostPort.natAbs)⟩
  | .tcp _ portName => ⟨relayName, .destination, .tcp, portName, some (binding.host.getD "localhost"),
      .port (.ofNat binding.hostPort.natAbs)⟩
  | .http portName => ⟨relayName, .destination, .http, portName, some (binding.host.getD "localhost"),
      .port (.ofNat binding.hostPort.natAbs)⟩

/-- The other forwarders are kept by name, of which a later one replaces an earlier one. -/
def Machine.remoteService (family : Option String) (relayName : String) (entry : Position × RemoteForwardBinding) :
    Option (String × Service) :=
  (remoteForwarder machine.lowercase family machine.resolve entry).map fun (portName, _, forwarder) =>
    (portName, forwarderService relayName entry.2 forwarder)

def Machine.relayServices (family : Option String) (relayName : String) (bindings : List (Position × RemoteForwardBinding)) :
    List Service :=
  bindings.filterMap (httpService relayName) ++ (Table.ofEntries (bindings.filterMap (machine.remoteService family relayName))).values

def Machine.services (config : Config) : List Service :=
  machine.localServices config ++
    (remoteGroups config).entries.flatMap fun (relayName, bindings) =>
      machine.relayServices config.addressFamily relayName bindings

/-- No address is left out for its family. -/
def Machine.Unfiltered (config : Config) : Prop :=
  ∀ addr, isAddressFamilyAllowed machine.lowercase addr config.addressFamily = true

def remoteNames (config : Config) (relayName : String) : List String :=
  (config.remoteForward.filter (·.relayName = relayName)).flatMap fun forward => forward.bindings.map portNameOf

variable {machine} {config : Config} {lowercase : String → String}

theorem localService_eq {relayName : String} {l : Listener} (unfiltered : machine.Unfiltered config)
    (bound : l.2.bindLocalSocket.isSome = true ∨ l.2.bindPort ≠ 0) :
    machine.localService config.addressFamily (config.gatewayPorts.getD false) relayName l =
      some (listenerEndpoint config.gatewayPorts relayName l).service := by
  obtain ⟨position, binding⟩ := l
  unfold Machine.localService listenerEndpoint RelayMapEndpoint.service
  cases socket : binding.bindLocalSocket with
  | some path => simp [socket, effectiveName]
  | none =>
    have port : binding.bindPort ≠ 0 := by simpa [socket] using bound
    have host : (if config.gatewayPorts.getD false = true then binding.bindAddress.getD "0.0.0.0"
        else binding.bindAddress.getD "127.0.0.1") =
          binding.bindAddress.getD (if config.gatewayPorts = some true then "0.0.0.0" else "127.0.0.1") := by
      generalize config.gatewayPorts = ports
      cases ports with
      | none => rfl
      | some open_ => cases open_ <;> rfl
    dsimp only
    rw [if_neg port, unfiltered, host]
    simp [socket, effectiveName, defaultPortName]

theorem localServices_eq (managed : Managed lowercase config) (unfiltered : machine.Unfiltered config) :
    machine.localServices config = (listenerEndpoints config).map RelayMapEndpoint.service := by
  unfold Machine.localServices listenerEndpoints
  rw [List.map_flatMap]
  apply List.flatMap_congr
  rintro ⟨forward, group⟩ member
  have there := List.fst_mem_of_mem_zipIdx member
  have present := (managed.localForward forward there).1
  have bindings : localBindings forward = forward.bindings := by
    unfold localBindings
    rw [if_neg (by simpa using present)]
  dsimp only
  rw [bindings, List.map_map]
  show (entryListeners group forward).filterMap _ = _
  rw [← List.filterMap_eq_map]
  apply List.filterMap_congr
  intro l inside
  obtain ⟨⟨binding, index⟩, bound, rfl⟩ := List.mem_map.mp inside
  exact localService_eq unfiltered (managed.local_port there (List.fst_mem_of_mem_zipIdx bound))

/-- What becomes of a destination, apart from a binding that has both a socket and HTTP. -/
theorem remote_eq {relayName : String} {d : Destination} (unfiltered : machine.Unfiltered config)
    (bound : d.2.localSocket.isSome = true ∨ d.2.hostPort ≠ 0) (plain : d.2.http = true → d.2.localSocket = none) :
    (d.2.http = true → httpService relayName d = some (destinationEndpoint relayName d).service) ∧
      (d.2.http = false → machine.remoteService config.addressFamily relayName d =
        some (portNameOf d.2, (destinationEndpoint relayName d).service)) := by
  constructor
  · intro http
    simp [httpService, destinationEndpoint, RelayMapEndpoint.service, http, plain http, portNameOf, effectiveName_eq]
  · intro served
    have made : remoteForwarder machine.lowercase config.addressFamily machine.resolve d = _ :=
      remoteForwarder_eq (unfiltered (machine.target d)) bound
    rw [served, if_neg (by decide)] at made
    unfold Machine.remoteService
    rw [made, Option.map_some]
    unfold forwarderOf destinationEndpoint RelayMapEndpoint.service forwarderService
    cases socket : d.2.localSocket with
    | some path => simp [served]
    | none => by_cases udp : d.2.hostPort < 0 <;> simp [served, udp]

/-- Where names are distinct, no forwarder replaces another. -/
theorem relayServices_perm {relayName : String} {ds : List Destination} (unfiltered : machine.Unfiltered config)
    (bound : ∀ d ∈ ds, d.2.localSocket.isSome = true ∨ d.2.hostPort ≠ 0)
    (plain : ∀ d ∈ ds, d.2.http = true → d.2.localSocket = none) (distinct : (ds.map fun d => portNameOf d.2).Nodup) :
    (machine.relayServices config.addressFamily relayName ds).Perm
      (ds.map fun d => (destinationEndpoint relayName d).service) := by
  have https : ds.filterMap (httpService relayName) =
      (ds.filter fun d => d.2.http).map fun d => (destinationEndpoint relayName d).service := by
    rw [← List.filterMap_eq_map, List.filterMap_filter]
    apply List.filterMap_congr
    intro d member
    cases http : d.2.http with
    | true => simpa using (remote_eq unfiltered (bound d member) (plain d member)).1 http
    | false => simp [httpService, http]
  have others : ds.filterMap (machine.remoteService config.addressFamily relayName) =
      (ds.filter fun d => !d.2.http).map fun d => (portNameOf d.2, (destinationEndpoint relayName d).service) := by
    rw [← List.filterMap_eq_map, List.filterMap_filter]
    apply List.filterMap_congr
    intro d member
    cases http : d.2.http with
    | true => simp [Machine.remoteService, remoteForwarder, http]
    | false => simpa using (remote_eq unfiltered (bound d member) (plain d member)).2 http
  have keyed : (((ds.filter fun d => !d.2.http).map fun d => (portNameOf d.2, (destinationEndpoint relayName d).service)).map
      (·.1)).Nodup := by
    rw [List.map_map]
    exact distinct.sublist (List.filter_sublist.map _)
  unfold Machine.relayServices
  rw [https, others, Table.values, Table.ofEntries_of_nodup keyed, List.map_map]
  show (List.map _ _ ++ List.map (fun d => (destinationEndpoint relayName d).service) _).Perm _
  rw [← List.map_append]
  exact (List.filter_append_perm (fun d : Destination => d.2.http) ds).map _

theorem remoteNames_eq (config : Config) (relayName : String) :
    remoteNames config relayName = (destinations config relayName).flatten.map fun d => portNameOf d.2 := by
  have named : ∀ (forwards : List RemoteForward) (k : Nat),
      (forwards.filter (·.relayName = relayName)).flatMap (fun forward => forward.bindings.map portNameOf) =
        (((forwards.zipIdx k).filter (·.1.relayName = relayName)).map fun entry =>
          entryDestinations entry.2 entry.1).flatten.map fun d => portNameOf d.2 := by
    intro forwards
    induction forwards with
    | nil => exact fun _ => rfl
    | cons forward rest ih =>
      intro k
      have own : (entryDestinations k forward).map (fun d => portNameOf d.2) = forward.bindings.map portNameOf := by
        unfold entryDestinations
        rw [List.map_map]
        show forward.bindings.zipIdx.map (portNameOf ∘ Prod.fst) = _
        rw [← List.map_map, List.zipIdx_map_fst]
      rw [List.zipIdx_cons]
      by_cases same : forward.relayName = relayName
      · rw [List.filter_cons_of_pos (by simpa using same), List.filter_cons_of_pos (by simpa using same), List.flatMap_cons,
          List.map_cons, List.flatten_cons, List.map_append, own, ih]
      · rw [List.filter_cons_of_neg (by simpa using same), List.filter_cons_of_neg (by simpa using same), ih]
  exact named config.remoteForward 0

/-- The host sets up what the relay map shows, in another order. -/
theorem services_perm (managed : Managed lowercase config) (unfiltered : machine.Unfiltered config)
    (distinct : ∀ relayName, (remoteNames config relayName).Nodup)
    (plain : ∀ forward ∈ config.remoteForward, ∀ binding ∈ forward.bindings,
      binding.http = true → binding.localSocket = none) :
    ((listenerEndpoints config ++ destinationEndpoints config).map RelayMapEndpoint.service).Perm
      (machine.services config) := by
  have each : ∀ entry ∈ (remoteGroups config).entries,
      (machine.relayServices config.addressFamily entry.1 entry.2).Perm
        (entry.2.map fun d => (destinationEndpoint entry.1 d).service) := by
    rintro ⟨relayName, bindings⟩ member
    have all : bindings = (destinations config relayName).flatten := by
      rw [← remoteGroups_destinations managed, Table.get_eq_some.mpr member, Option.getD_some]
    have bound : ∀ d ∈ bindings, ∃ forward ∈ config.remoteForward, d.2 ∈ forward.bindings := by
      intro d there
      obtain ⟨forward, present, -, inside⟩ := mem_destinations (all ▸ there)
      exact ⟨forward, present, inside⟩
    apply relayServices_perm unfiltered
    · intro d there
      obtain ⟨forward, present, inside⟩ := bound d there
      exact managed.remote_port present inside
    · intro d there
      obtain ⟨forward, present, inside⟩ := bound d there
      exact plain forward present d.2 inside
    · rw [all, ← remoteNames_eq]
      exact distinct relayName
  have gathered := Table.spread_gather (fun relayName d => (destinationEndpoint relayName d).service) (remoteEntries config)
  have listed : (remoteEntries config).flatMap (fun entry => entry.2.map fun d => (destinationEndpoint entry.1 d).service) =
      (destinationEndpoints config).map RelayMapEndpoint.service := by
    unfold remoteEntries destinationEndpoints
    rw [List.map_flatMap, List.flatMap_map]
    apply List.flatMap_congr
    rintro ⟨forward, group⟩ member
    have present := (managed.remoteForward forward (List.fst_mem_of_mem_zipIdx member)).1
    dsimp only
    unfold entryDestinations
    rw [remoteBindings_eq present, List.map_map, List.map_map, List.map_map]
    rfl
  rw [List.map_append, ← localServices_eq managed unfiltered, ← listed]
  exact (((List.Perm.flatMap_left _ each).trans gathered).symm).append_left _

theorem host_of_http {service : Service} (member : service ∈ machine.services config) (http : service.protocol = .http) :
    service.host ≠ none := by
  unfold Machine.services at member
  rw [List.mem_append, List.mem_flatMap] at member
  rcases member with listener | ⟨⟨relayName, bindings⟩, -, destination⟩
  · obtain ⟨⟨forward, group⟩, -, inside⟩ := List.mem_flatMap.mp listener
    obtain ⟨⟨position, binding⟩, -, made⟩ := List.mem_filterMap.mp inside
    unfold Machine.localService at made
    dsimp only at made
    split at made
    · cases made
      cases http
    · rw [Option.ite_none_left_eq_some, Option.ite_none_left_eq_some] at made
      obtain ⟨-, -, made⟩ := made
      obtain rfl := Option.some.inj made
      nofun
  · rcases List.mem_append.mp destination with direct | named
    · obtain ⟨entry, -, made⟩ := List.mem_filterMap.mp direct
      unfold httpService at made
      dsimp only at made
      split at made
      · cases made
        nofun
      · cases made
    · obtain ⟨⟨name, found⟩, there, rfl⟩ := List.mem_map.mp named
      have kept := Table.get_eq_some.mpr there
      rw [Table.get_ofEntries, Option.map_eq_some_iff] at kept
      obtain ⟨⟨name', found'⟩, last, rfl⟩ := kept
      obtain ⟨entry, -, made⟩ := List.mem_filterMap.mp (List.mem_filter.mp (List.mem_of_getLast? last)).1
      obtain ⟨⟨portName, position, forwarder⟩, -, same⟩ := Option.map_eq_some_iff.mp made
      cases same
      cases forwarder with
      | socket => cases http
      | _ => nofun

variable {app : Broker.App} {yaml : String} {endpoints : List RelayMapEndpoint}

/-- An accepted configuration has a map unless it has too many endpoints, or a text to show is too long or has a control
character. -/
theorem listed_iff (parsed : parseManagedConfig app yaml = .ok config) :
    (∃ endpoints, fromConfig config false = some endpoints) ↔
      (listenerEndpoints config ++ destinationEndpoints config).length ≤ maxEndpoints ∧
        ∀ endpoint ∈ listenerEndpoints config ++ destinationEndpoints config, ∀ field ∈ endpoint.fields,
          field.utf8ByteSize ≤ maxField ∧ ∀ c ∈ field.toList, Text.isControl c = false := by
  have managed := managed_of_parse parsed
  have present : ∀ o ∈ allEndpoints config false, ∃ e, o = some e := by
    intro o member
    rcases List.mem_append.mp member with listener | destination
    · obtain ⟨⟨forward, group⟩, there, inside⟩ := List.mem_flatMap.mp listener
      obtain ⟨⟨binding, index⟩, bound, rfl⟩ := List.mem_map.mp inside
      exact ⟨_, localEndpoint_of_port (managed.local_range (List.fst_mem_of_mem_zipIdx there) (List.fst_mem_of_mem_zipIdx bound))⟩
    · obtain ⟨⟨forward, group⟩, there, inside⟩ := List.mem_flatMap.mp destination
      obtain ⟨⟨binding, index⟩, bound, rfl⟩ := List.mem_map.mp inside
      exact ⟨_, remoteEndpoint_of_port (managed.remote_range (List.fst_mem_of_mem_zipIdx there) (List.fst_mem_of_mem_zipIdx bound))⟩
  have shown : (listenerEndpoints config ++ destinationEndpoints config).all displayable = true ↔
      ∀ endpoint ∈ listenerEndpoints config ++ destinationEndpoints config, ∀ field ∈ endpoint.fields,
        field.utf8ByteSize ≤ maxField ∧ ∀ c ∈ field.toList, Text.isControl c = false := by
    simp only [List.all_eq_true, displayable, Bool.and_eq_true, decide_eq_true_eq, Bool.not_eq_true', List.any_eq_false,
      Bool.not_eq_true]
  rw [fromConfig_of_present present, ← shown]
  split
  · next refused =>
    constructor
    · rintro ⟨endpoints, ⟨⟩⟩
    · rintro ⟨few, all⟩
      rcases refused with many | ill
      · omega
      · exact absurd all ill
  · next accepted =>
    rw [not_or, not_not] at accepted
    exact ⟨fun _ => ⟨Nat.le_of_not_gt accepted.1, accepted.2⟩, fun _ => ⟨_, rfl⟩⟩

/-- The relay map shows what a host sets up exactly if no binding has both HTTP and a socket. -/
theorem map_shows_what_runs (parsed : parseManagedConfig app yaml = .ok config) (unfiltered : machine.Unfiltered config)
    (listed : fromConfig config false = some endpoints) (distinct : ∀ relayName, (remoteNames config relayName).Nodup) :
    (endpoints.map RelayMapEndpoint.service).Perm (machine.services config) ↔
      ∀ forward ∈ config.remoteForward, ∀ binding ∈ forward.bindings, binding.http = true → binding.localSocket = none := by
  have managed := managed_of_parse parsed
  obtain rfl := fromConfig_some listed
  constructor
  · intro same forward member binding bound http
    by_contra socket
    obtain ⟨group, place⟩ := List.mem_iff_getElem?.mp member
    obtain ⟨index, inside⟩ := List.mem_iff_getElem?.mp bound
    have entry : ((group, index), binding) ∈ entryDestinations group forward :=
      List.mem_map.mpr ⟨(binding, index), List.mk_mem_zipIdx_iff_getElem?.mpr inside, rfl⟩
    have endpoint : destinationEndpoint forward.relayName ((group, index), binding) ∈ destinationEndpoints config :=
      List.mem_flatMap.mpr ⟨(forward, group), List.mk_mem_zipIdx_iff_getElem?.mpr place, List.mem_map_of_mem entry⟩
    have shown := same.subset (List.mem_map_of_mem (List.mem_append_right _ endpoint))
    have host : (destinationEndpoint forward.relayName ((group, index), binding)).host = none :=
      if_pos (Option.isSome_iff_ne_none.mpr socket)
    have direct : (destinationEndpoint forward.relayName ((group, index), binding)).protocol = .http :=
      protocol_http.mpr http
    exact host_of_http shown direct host
  · exact services_perm managed unfiltered distinct

/-- The host that finds every name at one address. -/
def localMachine : Machine where
  lowercase := Text.toAsciiLowercase
  resolve _ _ port := .v4 0 port
  bind _ _ port := .v4 0 port

theorem localMachine_unfiltered {config : Config} (family : config.addressFamily = none) : localMachine.Unfiltered config := by
  intro addr
  simp [isAddressFamilyAllowed, family]

theorem remoteNames_only {config : Config} {forward : RemoteForward} (only : config.remoteForward = [forward])
    (apart : (forward.bindings.map portNameOf).Nodup) (relayName : String) : (remoteNames config relayName).Nodup := by
  unfold remoteNames
  rw [only]
  by_cases same : forward.relayName = relayName
  · simpa [same] using apart
  · simp [same]

/-- A listener and three destinations of one relay. -/
def sharedYaml : String :=
  "LocalForward:\n- RelayName: r\n  BindPort: 80\nRemoteForward:\n- RelayName: r\n  Bindings:\n" ++
    "  - HostPort: 80\n  - HostPort: -53\n  - HostPort: 443\n    Http: true\n"

def sharedConfig : Config where
  localForward := [{ relayName := "r", bindings := [{ bindPort := 80 }] }]
  remoteForward := [{ relayName := "r", bindings := [{ hostPort := 80 }, { hostPort := -53 }, { hostPort := 443, http := true }] }]

def sharedApp : Broker.App :=
  { Broker.localApp with
    yaml := {
      config := fun text => if text = sharedYaml then
        some ({ sharedConfig with localForward := [{ relayName := "r", bindPort := some 80 }] }, []) else none
      value := fun text => if text = sharedYaml then
        some (.mapping [
          ("LocalForward", .sequence [.mapping [("RelayName", .scalar "r"), ("BindPort", .scalar "80")]]),
          ("RemoteForward", .sequence [.mapping [("RelayName", .scalar "r"), ("Bindings", .sequence
            [.mapping [("HostPort", .scalar "80")], .mapping [("HostPort", .scalar "-53")],
              .mapping [("HostPort", .scalar "443"), ("Http", .scalar "true")]])]])]) else none } }

/-- All four run as they are shown. -/
theorem map_shows_what_runs_local : ∃ endpoints, fromConfig sharedConfig false = some endpoints ∧ endpoints.length = 4 ∧
    (endpoints.map RelayMapEndpoint.service).Perm (localMachine.services sharedConfig) := by
  have parsed : parseManagedConfig sharedApp sharedYaml = .ok sharedConfig := by decide +kernel
  obtain ⟨endpoints, listed, size⟩ : ∃ endpoints, fromConfig sharedConfig false = some endpoints ∧ endpoints.length = 4 :=
    Option.map_eq_some_iff.mp (by decide +kernel)
  refine ⟨endpoints, listed, size, ?_⟩
  exact (map_shows_what_runs parsed (localMachine_unfiltered rfl) listed (remoteNames_only rfl (by decide +kernel))).mpr (by decide)

def socketYaml : String := "RemoteForward:\n- RelayName: r\n  Bindings:\n  - HostPort: 80\n    Http: true\n    LocalSocket: /s\n"

def socketConfig : Config :=
  { remoteForward := [{ relayName := "r", bindings := [{ hostPort := 80, http := true, localSocket := some "/s" }] }] }

def socketApp : Broker.App :=
  { Broker.localApp with
    yaml := {
      config := fun text => if text = socketYaml then some (socketConfig, []) else none
      value := fun text => if text = socketYaml then
        some (.mapping [("RemoteForward", .sequence [.mapping [("RelayName", .scalar "r"), ("Bindings", .sequence
          [.mapping [("HostPort", .scalar "80"), ("Http", .scalar "true"), ("LocalSocket", .scalar "/s")]])]])]) else none } }

/-- The map shows the socket and no host, the host forwards to port 80 of localhost. -/
theorem socket_shown_for_http : ¬ ∀ (machine : Machine) (app : Broker.App) (yaml : String) (config : Config)
    (endpoints : List RelayMapEndpoint), parseManagedConfig app yaml = .ok config → machine.Unfiltered config →
      fromConfig config false = some endpoints → (∀ relayName, (remoteNames config relayName).Nodup) →
        (endpoints.map RelayMapEndpoint.service).Perm (machine.services config) := by
  intro claim
  have parsed : parseManagedConfig socketApp socketYaml = .ok socketConfig := by decide +kernel
  obtain ⟨endpoints, listed⟩ : ∃ endpoints, fromConfig socketConfig false = some endpoints :=
    Option.isSome_iff_exists.mp (by decide)
  have same := claim localMachine socketApp socketYaml socketConfig endpoints parsed (localMachine_unfiltered rfl) listed
    (remoteNames_only rfl (List.nodup_singleton _))
  have shown := fromConfig_some listed
  subst shown
  exact absurd same (by decide)

end Azbridge.Relays
