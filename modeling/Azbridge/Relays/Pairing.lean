import Azbridge.Relays.Destinations
import Azbridge.Relays.RelayMap

/-!
# Pairing

What the relay map records between the endpoints of saved profiles.
-/

namespace Azbridge.Relays
open Azbridge.Runtime Broker.Profiles

/-! ### Keys -/

theorem endpointKey_injective {a a' b b' : String} (clean : '/' ∉ b.toList) (clean' : '/' ∉ b'.toList)
    (same : endpointKey a b = endpointKey a' b') : a = a' ∧ b = b' := by
  have texts := congrArg String.toList same
  simp only [endpointKey, String.toList_append, List.append_assoc] at texts
  obtain ⟨left, right⟩ := Text.cut_injective clean clean' texts
  exact ⟨String.ext left, String.ext right⟩

theorem groupId_injective {kind kind' : String} {group group' : Nat}
    (same : groupId kind false group = groupId kind' false group') : kind = kind' ∧ group = group' := by
  have texts := congrArg String.toList same
  simp only [groupId, Bool.false_eq_true, if_false, String.empty_append, String.toList_append, List.append_assoc] at texts
  have clean : ∀ n : Nat, '-' ∉ (toString n).toList := fun n member => absurd (Text.digit_of_toString member) (by decide)
  obtain ⟨left, right⟩ := Text.cut_injective (clean group) (clean group') texts
  exact ⟨String.ext left, Text.toString_injective (String.ext right)⟩

theorem endpointId_injective {kind kind' : String} {group group' index index' : Nat}
    (same : endpointId kind false group index = endpointId kind' false group' index') :
    kind = kind' ∧ (group, index) = (group', index') := by
  have texts := congrArg String.toList same
  simp only [endpointId, String.toList_append, List.append_assoc] at texts
  have clean : ∀ n : Nat, '-' ∉ (toString n).toList := fun n member => absurd (Text.digit_of_toString member) (by decide)
  obtain ⟨left, right⟩ := Text.cut_injective (clean index) (clean index') texts
  obtain ⟨rfl, rfl⟩ := groupId_injective (String.ext left)
  exact ⟨rfl, by rw [Text.toString_injective (String.ext right)]⟩

theorem slash_not_mem_groupId {kind : String} (clean : '/' ∉ kind.toList) (group : Nat) :
    '/' ∉ (groupId kind false group).toList := by
  have digits : '/' ∉ (toString group).toList := fun member => absurd (Text.digit_of_toString member) (by decide)
  simp only [groupId, Bool.false_eq_true, if_false, String.empty_append, String.toList_append, List.mem_append, not_or]
  exact ⟨⟨clean, by decide⟩, digits⟩

theorem slash_not_mem_endpointId {kind : String} (clean : '/' ∉ kind.toList) (group index : Nat) :
    '/' ∉ (endpointId kind false group index).toList := by
  have digits : '/' ∉ (toString index).toList := fun member => absurd (Text.digit_of_toString member) (by decide)
  simp only [endpointId, String.toList_append, List.mem_append, not_or]
  exact ⟨⟨slash_not_mem_groupId clean group, by decide⟩, digits⟩

/-! ### Extracted endpoints -/

/-- A listener with its place in the configuration. -/
abbrev Listener := Position × LocalForwardBinding

def entryListeners (group : Nat) (forward : LocalForward) : List Listener :=
  forward.bindings.zipIdx.map fun (binding, index) => ((group, index), binding)

def listeners (config : Config) (relayName : String) : List Listener :=
  (config.localForward.zipIdx.filter (·.1.relayName = relayName)).flatMap fun (forward, group) => entryListeners group forward

/-- `localEndpoint` of a binding whose port is in range. -/
def listenerEndpoint (gatewayPorts : Option Bool) (relayName : String) (l : Listener) : RelayMapEndpoint :=
  { id := endpointId "local" false l.1.1 l.1.2
    forwardGroup := groupId "local" false l.1.1
    relayName
    direction := .listener
    protocol := if l.2.bindLocalSocket.isSome then .socket else if l.2.bindPort < 0 then .udp else .tcp
    host :=
      if l.2.bindLocalSocket.isSome then none
      else some (l.2.bindAddress.getD (if gatewayPorts = some true then "0.0.0.0" else "127.0.0.1"))
    port := .ofNat l.2.bindPort.natAbs
    socket := l.2.bindLocalSocket
    portName := effectiveName l.2.portName l.2.bindPort l.2.bindLocalSocket.isSome
    explicitPortName := l.2.portName.isSome
    disabled := false
    path := none }

/-- `remoteEndpoint` of a binding whose port is in range. -/
def destinationEndpoint (relayName : String) (d : Destination) : RelayMapEndpoint :=
  { id := endpointId "remote" false d.1.1 d.1.2
    forwardGroup := groupId "remote" false d.1.1
    relayName
    direction := .destination
    protocol :=
      if d.2.http then .http
      else if d.2.localSocket.isSome then .socket
      else if d.2.hostPort < 0 then .udp
      else .tcp
    host := if d.2.localSocket.isSome then none else some (d.2.host.getD "localhost")
    port := .ofNat d.2.hostPort.natAbs
    socket := d.2.localSocket
    portName := portNameOf d.2
    explicitPortName := d.2.portName.isSome
    disabled := false
    path := d.2.path }

theorem protocol_http {relayName : String} {d : Destination} :
    (destinationEndpoint relayName d).protocol = .http ↔ d.2.http = true := by
  unfold destinationEndpoint
  dsimp only
  by_cases http : d.2.http = true
  · simp [http]
  · by_cases socket : d.2.localSocket.isSome = true <;> by_cases udp : d.2.hostPort < 0 <;> simp [http, socket, udp]

/-- Only UDP is not a stream. -/
theorem protocol_udp {relayName : String} {d : Destination} (served : d.2.http = false) :
    (destinationEndpoint relayName d).protocol = .udp ↔ modeOf d.2 = .datagram := by
  unfold destinationEndpoint modeOf
  dsimp only
  by_cases socket : d.2.localSocket.isSome = true <;> by_cases udp : d.2.hostPort < 0 <;> simp [served, socket, udp]

theorem portOf_some {port : Int} {p : UInt16} (h : portOf port = some p) : p = .ofNat port.natAbs := by
  unfold portOf at h
  split at h
  · exact (Option.some.inj h).symm
  · cases h

theorem localEndpoint_some {gatewayPorts : Option Bool} {group index : Nat} {relayName : String} {binding : LocalForwardBinding}
    {e : RelayMapEndpoint} (h : localEndpoint gatewayPorts false group relayName index binding = some e) :
    e = listenerEndpoint gatewayPorts relayName ((group, index), binding) := by
  unfold localEndpoint at h
  cases port : portOf binding.bindPort with
  | none =>
    rw [port] at h
    cases h
  | some p =>
    rw [port] at h
    cases h
    rw [portOf_some port]
    rfl

theorem localEndpoint_of_port {gatewayPorts : Option Bool} {group index : Nat} {relayName : String} {binding : LocalForwardBinding}
    (inRange : binding.bindPort.natAbs < 65536) :
    localEndpoint gatewayPorts false group relayName index binding =
      some (listenerEndpoint gatewayPorts relayName ((group, index), binding)) := by
  have port : portOf binding.bindPort = some (.ofNat binding.bindPort.natAbs) := if_pos inRange
  unfold localEndpoint
  rw [port]
  rfl

theorem remoteEndpoint_of_port {group index : Nat} {relayName : String} {binding : RemoteForwardBinding}
    (inRange : binding.hostPort.natAbs < 65536) :
    remoteEndpoint false group relayName index binding = some (destinationEndpoint relayName ((group, index), binding)) := by
  have port : portOf binding.hostPort = some (.ofNat binding.hostPort.natAbs) := if_pos inRange
  unfold remoteEndpoint
  rw [port]
  rfl

theorem remoteEndpoint_some {group index : Nat} {relayName : String} {binding : RemoteForwardBinding} {e : RelayMapEndpoint}
    (h : remoteEndpoint false group relayName index binding = some e) :
    e = destinationEndpoint relayName ((group, index), binding) := by
  unfold remoteEndpoint at h
  cases port : portOf binding.hostPort with
  | none =>
    rw [port] at h
    cases h
  | some p =>
    rw [port] at h
    cases h
    rw [portOf_some port]
    rfl

theorem mapM_id {α : Type} {os : List (Option α)} {xs : List α} (h : os.mapM id = some xs) : os = xs.map some := by
  induction os generalizing xs with
  | nil => cases h; rfl
  | cons o rest ih =>
    rw [List.mapM_cons] at h
    cases o with
    | none => cases h
    | some x =>
      cases tail : rest.mapM id with
      | none => simp [tail] at h
      | some ys =>
        simp [tail] at h
        rw [← h, ih tail, List.map_cons]

def listenerEndpoints (config : Config) : List RelayMapEndpoint :=
  config.localForward.zipIdx.flatMap fun (forward, group) =>
    (entryListeners group forward).map (listenerEndpoint config.gatewayPorts forward.relayName)

def destinationEndpoints (config : Config) : List RelayMapEndpoint :=
  config.remoteForward.zipIdx.flatMap fun (forward, group) =>
    (entryDestinations group forward).map (destinationEndpoint forward.relayName)

theorem flatMap_extracted {α β ε : Type} {entries : List α} {parts : α → List β} {extract : α → β → Option ε} {build : α → β → ε}
    (agrees : ∀ a b e, extract a b = some e → e = build a b)
    (present : ∀ a ∈ entries, ∀ b ∈ parts a, ∃ e, extract a b = some e) :
    entries.flatMap (fun a => (parts a).map (extract a)) = (entries.flatMap fun a => (parts a).map (build a)).map some := by
  rw [List.map_flatMap]
  refine List.flatMap_congr fun a member => ?_
  rw [List.map_map]
  refine List.map_congr_left fun b part => ?_
  obtain ⟨e, extracted⟩ := present a member b part
  rw [extracted, agrees a b e extracted, Function.comp_apply]

theorem allEndpoints_eq {config : Config} (present : ∀ o ∈ allEndpoints config false, ∃ e, o = some e) :
    allEndpoints config false = (listenerEndpoints config ++ destinationEndpoints config).map some := by
  unfold listenerEndpoints destinationEndpoints entryListeners entryDestinations
  simp only [List.map_map]
  rw [List.map_append]
  refine congrArg₂ (· ++ ·) ?_ ?_
  · refine flatMap_extracted (fun _ _ _ => localEndpoint_some) fun entry member b part => ?_
    exact present _ (List.mem_append_left _ (List.mem_flatMap.mpr ⟨entry, member, List.mem_map.mpr ⟨b, part, rfl⟩⟩))
  · refine flatMap_extracted (fun _ _ _ => remoteEndpoint_some) fun entry member b part => ?_
    exact present _ (List.mem_append_right _ (List.mem_flatMap.mpr ⟨entry, member, List.mem_map.mpr ⟨b, part, rfl⟩⟩))

/-- Nothing but its limits keeps a configuration from the map once every port is in range. -/
theorem fromConfig_of_present {config : Config} (present : ∀ o ∈ allEndpoints config false, ∃ e, o = some e) :
    fromConfig config false =
      if (listenerEndpoints config ++ destinationEndpoints config).length > maxEndpoints ∨
          ¬ (listenerEndpoints config ++ destinationEndpoints config).all displayable = true then none
      else some (listenerEndpoints config ++ destinationEndpoints config) := by
  unfold fromConfig
  rw [allEndpoints_eq present, List.mapM_map]
  show (List.mapM pure _ >>= _) = _
  rw [List.mapM_pure, List.map_id']
  rfl

theorem fromConfig_some {config : Config} {endpoints : List RelayMapEndpoint} (h : fromConfig config false = some endpoints) :
    endpoints = listenerEndpoints config ++ destinationEndpoints config := by
  unfold fromConfig at h
  cases all : (allEndpoints config false).mapM id with
  | none =>
    rw [all] at h
    cases h
  | some found =>
    have found_eq : found = endpoints := by
      rw [all] at h
      simp only [Option.bind_eq_bind, Option.bind_some] at h
      split at h
      · cases h
      · exact Option.some.inj h
    subst found_eq
    have every := mapM_id all
    have present : ∀ o ∈ allEndpoints config false, ∃ e, o = some e := by
      intro o member
      rw [every] at member
      obtain ⟨e, -, rfl⟩ := List.mem_map.mp member
      exact ⟨e, rfl⟩
    exact (List.map_injective_iff.mpr (Option.some_injective _)) (every.symm.trans (allEndpoints_eq present))

/-! ### What is recorded -/

def Recorded (map : List MappedRelay) (relayName clientKey serverKey : String) : Prop :=
  ∃ relay ∈ map, relay.name = relayName ∧
    ∃ e ∈ relay.endpoints, e.direction = .listener ∧ e.key = clientKey ∧ serverKey ∈ e.matched

section Map
variable {localeCompare : String → String → Int} {profiles : List RelayMapProfile} {connections : List String}
  {relayName clientKey serverKey : String}

def endpointsOf (profiles : List RelayMapProfile) (relayName : String) : List MappedEndpoint :=
  (mappedEndpoints profiles).filter (·.relayName = relayName)

def relayEntries (profiles : List RelayMapProfile) (connections : List String) : List (String × Option MappedEndpoint) :=
  connections.map (fun name => (name, none)) ++
    (mappedEndpoints profiles).map fun endpoint => (endpoint.relayName, some endpoint)

theorem own_relayEntries :
    ((((relayEntries profiles connections).filter (·.1 = relayName)).map (·.2)).map Option.toList).flatten =
      endpointsOf profiles relayName := by
  unfold relayEntries endpointsOf
  have bare : (((connections.map fun name => (name, (none : Option MappedEndpoint))).filter (·.1 = relayName)).map
      (·.2)).map Option.toList = List.replicate (connections.filter (· = relayName)).length [] := by
    rw [List.filter_map, List.map_map, List.map_map, List.eq_replicate_iff]
    refine ⟨by simp [Function.comp_def], ?_⟩
    intro found member
    obtain ⟨name, -, rfl⟩ := List.mem_map.mp member
    rfl
  have kept : ∀ endpoints : List MappedEndpoint,
      ((((endpoints.map fun endpoint => (endpoint.relayName, some endpoint)).filter (·.1 = relayName)).map (·.2)).map
        Option.toList).flatten = endpoints.filter (·.relayName = relayName) := by
    intro endpoints
    rw [List.filter_map, List.map_map, List.map_map, ← List.flatMap_def]
    exact List.flatMap_singleton' _
  rw [List.filter_append, List.map_append, List.map_append, List.flatten_append, bare, kept]
  simp

theorem get_relayEndpoints {found : List MappedEndpoint} (h : (relayEndpoints profiles connections).get relayName = some found) :
    found = endpointsOf profiles relayName := by
  have same : relayEndpoints profiles connections =
      .gather [] (fun endpoints endpoint => endpoints ++ endpoint.toList) (relayEntries profiles connections) := rfl
  rw [same] at h
  have present : relayName ∈ (relayEntries profiles connections).map (·.1) := by
    by_contra absent
    rw [Table.get_eq_none.mpr fun member => absent (Table.mem_keys_gather.mp member)] at h
    cases h
  rw [Table.get_gather present, Option.some.injEq, List.foldl_append_eq_append, own_relayEntries] at h
  exact h.symm

theorem mem_buildRelayMap {relay : MappedRelay} (member : relay ∈ buildRelayMap localeCompare profiles connections) :
    relay = pairRelay relay.name (endpointsOf profiles relay.name) := by
  unfold buildRelayMap at member
  rw [List.mem_insertionSort, List.mem_map] at member
  obtain ⟨⟨name, endpoints⟩, entry, rfl⟩ := member
  rw [get_relayEndpoints (Table.get_eq_some.mpr entry)]
  rfl

theorem pairRelay_mem_buildRelayMap {e : MappedEndpoint} (member : e ∈ endpointsOf profiles relayName) :
    pairRelay relayName (endpointsOf profiles relayName) ∈ buildRelayMap localeCompare profiles connections := by
  obtain ⟨there, named⟩ := List.mem_filter.mp member
  have present : relayName ∈ (relayEntries profiles connections).map (·.1) := by
    have same : e.relayName = relayName := by simpa using named
    unfold relayEntries
    rw [List.map_append, List.mem_append]
    exact .inr (List.mem_map.mpr ⟨_, List.mem_map.mpr ⟨e, there, rfl⟩, same⟩)
  cases found : (relayEndpoints profiles connections).get relayName with
  | none => exact absurd (Table.mem_keys_gather.mpr present) (Table.get_eq_none.mp found)
  | some endpoints =>
    have entry := Table.get_eq_some.mp found
    rw [get_relayEndpoints found] at entry
    unfold buildRelayMap
    rw [List.mem_insertionSort]
    exact List.mem_map.mpr ⟨_, entry, rfl⟩

/-! ### One relay -/

theorem outcome_server {client : MappedEndpoint} {group : Table String Placed} {server : Placed} :
    (outcome client group).server? = some server ↔
      Offers.answer (numericName client.portName) group client.portName = some server ∧
        streamCompatible client.toRelayMapEndpoint server.1.toRelayMapEndpoint = true := by
  unfold outcome Offers.answer
  cases group.get client.portName with
  | some s =>
    dsimp only
    split
    · next fits =>
      simp only [Outcome.server?, Option.some.injEq]
      exact ⟨fun same => ⟨same, same ▸ fits⟩, And.left⟩
    · next unfit =>
      simp only [Outcome.server?, reduceCtorEq, false_iff, Option.some.injEq]
      rintro ⟨rfl, fits⟩
      exact unfit fits
  | none =>
    dsimp only
    split
    · cases group.values.head? with
      | none => simp [Outcome.server?]
      | some s =>
        dsimp only
        split
        · next fits =>
          simp only [Outcome.server?, Option.some.injEq]
          exact ⟨fun same => ⟨same, same ▸ fits⟩, And.left⟩
        · next unfit =>
          simp only [Outcome.server?, reduceCtorEq, false_iff, Option.some.injEq]
          rintro ⟨rfl, fits⟩
          exact unfit fits
    · simp [Outcome.server?]

def groupOffers (servers : List Placed) (key : String) : List (String × Placed) :=
  (servers.filter fun server => groupKey server.1 = key).map fun server => (server.1.portName, server)

theorem mem_serverGroups {servers : List Placed} {group : Table String Placed} :
    group ∈ (serverGroups servers).values ↔
      ∃ key, groupOffers servers key ≠ [] ∧ group = .ofEntries (groupOffers servers key) := by
  have keyed : ∀ key, ((servers.map fun server => (groupKey server.1, server)).filter (·.1 = key)).map (·.2) =
      servers.filter fun server => groupKey server.1 = key := by
    intro key
    rw [List.filter_map, List.map_map]
    exact List.map_id _
  have built : ∀ key, key ∈ (servers.map fun server => (groupKey server.1, server)).map (·.1) →
      (serverGroups servers).get key = some (.ofEntries (groupOffers servers key)) := by
    intro key present
    unfold serverGroups
    rw [Table.get_gather present, keyed, Table.ofEntries, groupOffers, List.foldl_map]
  constructor
  · intro member
    obtain ⟨⟨key, value⟩, entry, rfl⟩ := List.mem_map.mp member
    have found := Table.get_eq_some.mpr entry
    have present : key ∈ (servers.map fun server => (groupKey server.1, server)).map (·.1) := by
      have grouped : key ∈ (serverGroups servers).keys := List.mem_map.mpr ⟨_, entry, rfl⟩
      exact Table.mem_keys_gather.mp grouped
    rw [built key present] at found
    refine ⟨key, ?_, (Option.some.inj found).symm⟩
    obtain ⟨_, inside, same⟩ := List.mem_map.mp present
    obtain ⟨server, there, rfl⟩ := List.mem_map.mp inside
    intro nothing
    have kept : server ∈ servers.filter fun server => groupKey server.1 = key :=
      List.mem_filter.mpr ⟨there, by simpa using same⟩
    rw [List.map_eq_nil_iff.mp nothing] at kept
    cases kept
  · rintro ⟨key, some_, rfl⟩
    obtain ⟨offer, member⟩ := List.exists_mem_of_ne_nil _ some_
    obtain ⟨server, kept, rfl⟩ := List.mem_map.mp member
    obtain ⟨there, same⟩ := List.mem_filter.mp kept
    have present : key ∈ (servers.map fun server => (groupKey server.1, server)).map (·.1) :=
      List.mem_map.mpr ⟨_, List.mem_map.mpr ⟨server, there, rfl⟩, by simpa using same⟩
    exact List.mem_map.mpr ⟨_, Table.get_eq_some.mp (built key present), rfl⟩

/-- The servers of a group, each under its name. -/
def offersOf (endpoints : List MappedEndpoint) (key : String) : List (String × MappedEndpoint) :=
  (endpoints.filter fun e => isServer e && groupKey e == key).map fun e => (e.portName, e)

theorem groupOffers_forget (endpoints : List MappedEndpoint) (key : String) :
    (groupOffers (endpoints.zipIdx.filter fun p => isServer p.1) key).map (fun o => (o.1, o.2.1)) = offersOf endpoints key := by
  have forget : ∀ p : MappedEndpoint → Bool, (endpoints.zipIdx.filter fun placed => p placed.1).map (·.1) = endpoints.filter p := by
    intro p
    have filtered := List.filter_map (f := Prod.fst) (p := p) (l := endpoints.zipIdx)
    rw [List.zipIdx_map_fst] at filtered
    exact filtered.symm
  unfold groupOffers offersOf
  rw [List.filter_filter, List.map_map, ← forget, List.map_map]
  have same : (fun p : Placed => decide (groupKey p.1 = key) && isServer p.1) = fun p => isServer p.1 && groupKey p.1 == key := by
    funext p
    exact Bool.and_comm _ _
  rw [same]
  rfl

theorem mem_matched {endpoints : List MappedEndpoint} {client : MappedEndpoint} :
    serverKey ∈ (pairClient (serverGroups (endpoints.zipIdx.filter fun p => isServer p.1)) client).matched ↔
      ∃ key server, Offers.Taken (numericName client.portName = true) (offersOf endpoints key) client.portName server ∧
        streamCompatible client.toRelayMapEndpoint server.toRelayMapEndpoint = true ∧ server.key = serverKey := by
  have matched : serverKey ∈ (pairClient (serverGroups (endpoints.zipIdx.filter fun p => isServer p.1)) client).matched ↔
      ∃ group ∈ (serverGroups (endpoints.zipIdx.filter fun p => isServer p.1)).values, ∃ server,
        (outcome client group).server? = some server ∧ server.1.key = serverKey := by
    simp [pairClient]
  rw [matched]
  constructor
  · rintro ⟨group, member, server, taken, rfl⟩
    obtain ⟨key, -, rfl⟩ := mem_serverGroups.mp member
    obtain ⟨answered, fits⟩ := outcome_server.mp taken
    refine ⟨key, server.1, ?_, fits, rfl⟩
    rw [← groupOffers_forget]
    exact Offers.taken_map.mpr ⟨server, rfl, Offers.answer_iff.mp answered⟩
  · rintro ⟨key, server, taken, fits, rfl⟩
    rw [← groupOffers_forget] at taken
    obtain ⟨placed, rfl, own⟩ := (Offers.taken_map (f := fun p : Placed => p.1)).mp taken
    have some_ : groupOffers (endpoints.zipIdx.filter fun p => isServer p.1) key ≠ [] := by
      obtain ⟨k, member⟩ := own.mem
      exact List.ne_nil_of_mem member
    exact ⟨_, mem_serverGroups.mpr ⟨key, some_, rfl⟩, placed, outcome_server.mpr ⟨Offers.answer_iff.mpr own, fits⟩, rfl⟩

theorem recorded_iff : Recorded (buildRelayMap localeCompare profiles connections) relayName clientKey serverKey ↔
    ∃ client ∈ endpointsOf profiles relayName, isClient client = true ∧ client.key = clientKey ∧
      ∃ key server, Offers.Taken (numericName client.portName = true) (offersOf (endpointsOf profiles relayName) key)
          client.portName server ∧
        streamCompatible client.toRelayMapEndpoint server.toRelayMapEndpoint = true ∧ server.key = serverKey := by
  constructor
  · rintro ⟨relay, member, rfl, e, inside, listening, rfl, matched⟩
    rw [mem_buildRelayMap member] at inside
    obtain ⟨⟨client, place⟩, placed, rfl⟩ := List.mem_map.mp inside
    have there := List.fst_mem_of_mem_zipIdx placed
    by_cases active : isClient client = true
    · rw [if_pos active] at matched ⊢
      exact ⟨client, there, active, rfl, mem_matched.mp matched⟩
    · rw [if_neg active] at matched listening
      split at listening
      · next server =>
        have directed : client.direction = .destination := by
          simp only [isServer, Bool.and_eq_true, beq_iff_eq] at server
          exact server.1.2
        exact absurd (directed.symm.trans listening) (by decide)
      · next server =>
        rw [if_neg server] at matched
        have nothing : client.matched = [] := by
          obtain ⟨_, -, inner⟩ := List.mem_flatMap.mp (List.mem_filter.mp there).1
          obtain ⟨_, -, rfl⟩ := List.mem_map.mp inner
          rfl
        rw [nothing] at matched
        cases matched
  · rintro ⟨client, member, active, rfl, matched⟩
    obtain ⟨place, bound, same⟩ := List.getElem_of_mem member
    have placed : (client, place) ∈ (endpointsOf profiles relayName).zipIdx :=
      List.mk_mem_zipIdx_iff_getElem?.mpr (by rw [List.getElem?_eq_getElem bound, same])
    refine ⟨_, pairRelay_mem_buildRelayMap member, rfl, _, List.mem_map.mpr ⟨_, placed, if_pos active⟩, ?_, rfl, ?_⟩
    · simp only [isClient, Bool.and_eq_true, beq_iff_eq] at active
      exact active.2
    · exact mem_matched.mpr matched

end Map

/-! ### Profiles -/

/-- A profile with the latest saved revision of its configuration, and the endpoints that were extracted from it. -/
structure SavedProfile (app : Broker.App) where
  ref : ProfileRef
  yaml : String
  config : Config
  endpoints : List RelayMapEndpoint
  managed : parseManagedConfig app yaml = .ok config
  extracted : fromConfig config false = some endpoints

namespace SavedProfile

def toMap {app : Broker.App} (p : SavedProfile app) : RelayMapProfile := ⟨p.ref, p.endpoints⟩

end SavedProfile

/-- The preamble of a listener's connections. -/
def requestOf (binding : LocalForwardBinding) : PreambleRequest :=
  ⟨if binding.bindLocalSocket.isSome then .stream else if binding.bindPort < 0 then .datagram else .stream,
    effectiveName binding.portName binding.bindPort binding.bindLocalSocket.isSome⟩

theorem localRequest_eq {binding : LocalForwardBinding}
    (bound : binding.bindLocalSocket.isSome = true ∨ binding.bindPort ≠ 0) : localRequest binding = some (requestOf binding) := by
  unfold localRequest requestOf effectiveName
  cases socket : binding.bindLocalSocket with
  | some path => simp
  | none =>
    have port : binding.bindPort ≠ 0 := by simpa [socket] using bound
    simp [port, defaultPortName]

theorem numericName_eq (name : String) : numericName name = (Text.parseI32 name).isSome := by
  unfold numericName Text.parseI32
  dsimp only
  by_cases numeric : Text.unsigned name.toList ≠ [] ∧ (Text.unsigned name.toList).all Char.isDigit = true ∧
      -2 ^ 31 ≤ Text.signed name.toList ∧ Text.signed name.toList < 2 ^ 31
  · rw [if_pos numeric]
    obtain ⟨some_, digits, low, high⟩ := numeric
    have low' : -2147483648 ≤ Text.signed name.toList := by omega
    have high' : Text.signed name.toList ≤ 2147483647 := by omega
    simp [some_, digits, low', high']
  · rw [if_neg numeric, Option.isSome_none, Bool.eq_false_iff]
    simp only [ne_eq, Bool.and_eq_true, Bool.not_eq_true', decide_eq_true_eq, List.isEmpty_eq_false_iff]
    rintro ⟨⟨⟨some_, digits⟩, low⟩, high⟩
    exact numeric ⟨some_, digits, by omega, by omega⟩

theorem flatMap_single {α β κ : Type} {l : List α} {f : α → List β} (key : α → κ) (once : (l.map key).Nodup) {a : α}
    (member : a ∈ l) (others : ∀ b ∈ l, key b ≠ key a → f b = []) : l.flatMap f = f a := by
  obtain ⟨before, after, rfl⟩ := List.append_of_mem member
  rw [List.map_append, List.map_cons, List.nodup_middle, List.nodup_cons] at once
  have nothing : ∀ b ∈ before ++ after, f b = [] := by
    intro b there
    apply others b
    · rcases List.mem_append.mp there with early | late
      · exact List.mem_append_left _ early
      · exact List.mem_append_right _ (List.mem_cons_of_mem _ late)
    · intro same
      rw [← same, ← List.map_append] at once
      exact once.1 (List.mem_map_of_mem there)
  have left : before.flatMap f = [] := List.flatMap_eq_nil_iff.mpr fun b there => nothing b (List.mem_append_left _ there)
  have right : after.flatMap f = [] := List.flatMap_eq_nil_iff.mpr fun b there => nothing b (List.mem_append_right _ there)
  rw [List.flatMap_append, List.flatMap_cons, left, right, List.append_nil, List.nil_append]

section Saved
variable {app : Broker.App} {profiles : List (SavedProfile app)} {localeCompare : String → String → Int} {connections : List String}
  {relayName : String}

def listenerKey (p : SavedProfile app) (position : Position) : String :=
  endpointKey p.ref.id (endpointId "local" false position.1 position.2)

def destinationKey (p : SavedProfile app) (position : Position) : String :=
  endpointKey p.ref.id (endpointId "remote" false position.1 position.2)

theorem mem_endpointsOf {e : MappedEndpoint} : e ∈ endpointsOf (profiles.map (·.toMap)) relayName ↔ ∃ p ∈ profiles,
    (∃ l ∈ listeners p.config relayName, mapped p.ref (listenerEndpoint p.config.gatewayPorts relayName l) = e) ∨
    ∃ d ∈ (destinations p.config relayName).flatten, mapped p.ref (destinationEndpoint relayName d) = e := by
  unfold endpointsOf mappedEndpoints
  rw [List.mem_filter, List.flatMap_map, List.mem_flatMap]
  constructor
  · rintro ⟨⟨p, there, inside⟩, named⟩
    obtain ⟨endpoint, member, rfl⟩ := List.mem_map.mp inside
    replace named : endpoint.relayName = relayName := of_decide_eq_true named
    have extracted := fromConfig_some p.extracted
    rw [SavedProfile.toMap, extracted, List.mem_append] at member
    refine ⟨p, there, member.imp ?_ ?_⟩
    · intro listening
      obtain ⟨⟨forward, group⟩, placed, inner⟩ := List.mem_flatMap.mp listening
      obtain ⟨l, bound, rfl⟩ := List.mem_map.mp inner
      replace named : forward.relayName = relayName := named
      subst named
      exact ⟨l, List.mem_flatMap.mpr ⟨_, List.mem_filter.mpr ⟨placed, by simp⟩, bound⟩, rfl⟩
    · intro serving
      obtain ⟨⟨forward, group⟩, placed, inner⟩ := List.mem_flatMap.mp serving
      obtain ⟨d, bound, rfl⟩ := List.mem_map.mp inner
      replace named : forward.relayName = relayName := named
      subst named
      exact ⟨d, List.mem_flatten.mpr ⟨_, List.mem_map.mpr ⟨_, List.mem_filter.mpr ⟨placed, by simp⟩, rfl⟩, bound⟩, rfl⟩
  · rintro ⟨p, there, ⟨l, member, rfl⟩ | ⟨d, member, rfl⟩⟩
    · obtain ⟨⟨forward, group⟩, kept, bound⟩ := List.mem_flatMap.mp member
      obtain ⟨placed, named⟩ := List.mem_filter.mp kept
      replace named : forward.relayName = relayName := of_decide_eq_true named
      subst named
      refine ⟨⟨p, there, List.mem_map.mpr ⟨_, ?_, rfl⟩⟩, decide_eq_true rfl⟩
      rw [SavedProfile.toMap, fromConfig_some p.extracted]
      exact List.mem_append_left _ (List.mem_flatMap.mpr ⟨_, placed, List.mem_map.mpr ⟨l, bound, rfl⟩⟩)
    · obtain ⟨entry, inside, bound⟩ := List.mem_flatten.mp member
      obtain ⟨⟨forward, group⟩, kept, rfl⟩ := List.mem_map.mp inside
      obtain ⟨placed, named⟩ := List.mem_filter.mp kept
      replace named : forward.relayName = relayName := of_decide_eq_true named
      subst named
      refine ⟨⟨p, there, List.mem_map.mpr ⟨_, ?_, rfl⟩⟩, decide_eq_true rfl⟩
      rw [SavedProfile.toMap, fromConfig_some p.extracted]
      exact List.mem_append_right _ (List.mem_flatMap.mpr ⟨_, placed, List.mem_map.mpr ⟨d, bound, rfl⟩⟩)

variable (distinct : (profiles.map (·.ref.id)).Nodup)
include distinct

theorem profile_of_id {p q : SavedProfile app} (there : p ∈ profiles) (there' : q ∈ profiles) (same : p.ref.id = q.ref.id) : p = q :=
  List.inj_on_of_nodup_map distinct there there' same

omit distinct in
theorem slash_not_mem_forwardGroup {p : SavedProfile app} {endpoint : RelayMapEndpoint} (member : endpoint ∈ p.endpoints) :
    '/' ∉ endpoint.forwardGroup.toList := by
  rw [fromConfig_some p.extracted, List.mem_append] at member
  rcases member with listening | serving
  · obtain ⟨_, -, inner⟩ := List.mem_flatMap.mp listening
    obtain ⟨l, -, rfl⟩ := List.mem_map.mp inner
    exact slash_not_mem_groupId (by decide) _
  · obtain ⟨_, -, inner⟩ := List.mem_flatMap.mp serving
    obtain ⟨d, -, rfl⟩ := List.mem_map.mp inner
    exact slash_not_mem_groupId (by decide) _

omit distinct in
theorem servers_of_forward {q : SavedProfile app} {forward : RemoteForward} {group : Nat}
    (placed : (forward, group) ∈ q.config.remoteForward.zipIdx) {P : MappedEndpoint → Bool}
    (kept : ∀ e, P e = (isServer e && groupKey e == endpointKey q.ref.id (groupId "remote" false group) &&
      decide (e.relayName = forward.relayName))) :
    (q.endpoints.map (mapped q.ref)).filter P =
      ((entryDestinations group forward).filter fun d => !d.2.http).map fun d =>
        mapped q.ref (destinationEndpoint forward.relayName d) := by
  have listening : ((listenerEndpoints q.config).map (mapped q.ref)).filter P = [] := by
    rw [List.filter_eq_nil_iff]
    intro e member
    obtain ⟨endpoint, inside, rfl⟩ := List.mem_map.mp member
    obtain ⟨_, -, inner⟩ := List.mem_flatMap.mp inside
    obtain ⟨l, -, rfl⟩ := List.mem_map.mp inner
    rw [kept]
    simp [isServer, mapped, listenerEndpoint]
  rw [fromConfig_some q.extracted, List.map_append, List.filter_append, listening, List.nil_append]
  unfold destinationEndpoints
  rw [List.map_flatMap, List.filter_flatMap, flatMap_single Prod.snd (List.nodup_zipIdx_map_snd _) placed]
  · rw [List.map_map, List.filter_map]
    congr 1
    apply List.filter_congr
    intro d member
    obtain ⟨⟨binding, index⟩, -, rfl⟩ := List.mem_map.mp member
    show P (mapped q.ref (destinationEndpoint forward.relayName ((group, index), binding))) = !binding.http
    rw [kept]
    cases http : binding.http with
    | true => simp [isServer, mapped, destinationEndpoint, http]
    | false =>
      have served : (mapped q.ref (destinationEndpoint forward.relayName ((group, index), binding))).protocol ≠ .http :=
        fun reached => by simpa [http] using protocol_http.mp reached
      have server : isServer (mapped q.ref (destinationEndpoint forward.relayName ((group, index), binding))) = true := by
        simp only [isServer, Bool.and_eq_true, bne_iff_ne]
        exact ⟨⟨rfl, rfl⟩, served⟩
      rw [server]
      simp [groupKey, mapped, destinationEndpoint]
  · rintro ⟨forward', group'⟩ - different
    rw [List.filter_eq_nil_iff]
    intro e member
    obtain ⟨endpoint, inside, rfl⟩ := List.mem_map.mp member
    obtain ⟨d, inner, rfl⟩ := List.mem_map.mp inside
    obtain ⟨⟨binding, index⟩, -, rfl⟩ := List.mem_map.mp inner
    rw [kept]
    have apart : groupKey (mapped q.ref (destinationEndpoint forward'.relayName ((group', index), binding))) ≠
        endpointKey q.ref.id (groupId "remote" false group) := by
      intro same
      have groups := (endpointKey_injective (slash_not_mem_groupId (by decide) _) (slash_not_mem_groupId (by decide) _) same).2
      exact different (groupId_injective groups).2
    simp [apart]

theorem offersOf_entry {q : SavedProfile app} (there : q ∈ profiles) {forward : RemoteForward} {group : Nat}
    (placed : (forward, group) ∈ q.config.remoteForward.zipIdx) (named : forward.relayName = relayName) :
    offersOf (endpointsOf (profiles.map (·.toMap)) relayName) (endpointKey q.ref.id (groupId "remote" false group)) =
      (offers (entryDestinations group forward)).map fun o => (o.1, mapped q.ref (destinationEndpoint relayName o.2)) := by
  subst named
  unfold offersOf endpointsOf mappedEndpoints
  rw [List.filter_filter, List.flatMap_map, List.filter_flatMap, flatMap_single (·.ref.id) distinct there]
  · have own := servers_of_forward placed (P := fun e => isServer e && groupKey e == endpointKey q.ref.id
      (groupId "remote" false group) && decide (e.relayName = forward.relayName)) fun _ => rfl
    unfold SavedProfile.toMap
    rw [own]
    unfold offers
    rw [List.map_map, List.map_map]
    rfl
  · intro p there' different
    rw [List.filter_eq_nil_iff]
    intro e member
    obtain ⟨endpoint, inside, rfl⟩ := List.mem_map.mp member
    have apart : groupKey (mapped p.toMap.profile endpoint) ≠ endpointKey q.ref.id (groupId "remote" false group) := by
      intro same
      exact different (endpointKey_injective (slash_not_mem_forwardGroup inside) (slash_not_mem_groupId (by decide) _) same).1
    simp [apart]

omit distinct in
theorem mem_listeners {config : Config} {l : Listener} (member : l ∈ listeners config relayName) :
    ∃ forward ∈ config.localForward, config.localForward[l.1.1]? = some forward ∧ forward.bindings[l.1.2]? = some l.2 := by
  obtain ⟨⟨forward, group⟩, kept, inside⟩ := List.mem_flatMap.mp member
  obtain ⟨⟨binding, index⟩, bound, rfl⟩ := List.mem_map.mp inside
  have placed := (List.mem_filter.mp kept).1
  exact ⟨forward, List.fst_mem_of_mem_zipIdx placed, List.mk_mem_zipIdx_iff_getElem?.mp placed,
    List.mk_mem_zipIdx_iff_getElem?.mp bound⟩

omit distinct in
theorem listener_of_position {config : Config} {l l' : Listener} (member : l ∈ listeners config relayName)
    (member' : l' ∈ listeners config relayName) (same : l.1 = l'.1) : l = l' := by
  obtain ⟨forward, -, at_, bound⟩ := mem_listeners member
  obtain ⟨forward', -, at_', bound'⟩ := mem_listeners member'
  rw [same] at at_ bound
  obtain rfl := Option.some.inj (at_.symm.trans at_')
  exact Prod.ext same (Option.some.inj (bound.symm.trans bound'))

omit distinct in
theorem served_of_offers {ds : List Destination} {name : String} {d : Destination} (member : (name, d) ∈ offers ds) :
    d.2.http = false := by
  obtain ⟨d', kept, same⟩ := List.mem_map.mp member
  obtain ⟨-, rfl⟩ := Prod.mk.inj same
  simpa using (List.mem_filter.mp kept).2

omit distinct in
/-- The browser compares protocols, the preamble names a mode. -/
theorem streamCompatible_iff {p q : SavedProfile app} {l : Listener} {d : Destination} (served : d.2.http = false) :
    streamCompatible (mapped p.ref (listenerEndpoint p.config.gatewayPorts relayName l)).toRelayMapEndpoint
        (mapped q.ref (destinationEndpoint relayName d)).toRelayMapEndpoint = true ↔ modeOf d.2 = (requestOf l.2).mode := by
  have client : (listenerEndpoint p.config.gatewayPorts relayName l).protocol = .udp ↔ (requestOf l.2).mode = .datagram := by
    unfold listenerEndpoint requestOf
    dsimp only
    by_cases socket : l.2.bindLocalSocket.isSome = true <;> by_cases udp : l.2.bindPort < 0 <;> simp [socket, udp]
  have server : (destinationEndpoint relayName d).protocol = .udp ↔ modeOf d.2 = .datagram := protocol_udp served
  show ((listenerEndpoint p.config.gatewayPorts relayName l).protocol == .udp) ==
    ((destinationEndpoint relayName d).protocol == .udp) ↔ _
  rw [beq_iff_eq, Bool.eq_iff_iff, beq_iff_eq, beq_iff_eq, client, server]
  cases (requestOf l.2).mode <;> cases modeOf d.2 <;> simp

theorem recorded_saved {p q : SavedProfile app} (there : p ∈ profiles) (there' : q ∈ profiles) {l : Listener}
    (member : l ∈ listeners p.config relayName) {position : Position} :
    Recorded (buildRelayMap localeCompare (profiles.map (·.toMap)) connections) relayName (listenerKey p l.1)
        (destinationKey q position) ↔
      ∃ entry ∈ destinations q.config relayName, ∃ d : Destination, d.1 = position ∧ modeOf d.2 = (requestOf l.2).mode ∧
        Offers.Taken ((Text.parseI32 (requestOf l.2).portName).isSome = true) (offers entry) (requestOf l.2).portName d := by
  rw [recorded_iff, ← numericName_eq]
  have unslashed : ∀ group index : Nat, '/' ∉ (endpointId "remote" false group index).toList :=
    slash_not_mem_endpointId (by decide)
  have unslashed' : ∀ group index : Nat, '/' ∉ (endpointId "local" false group index).toList :=
    slash_not_mem_endpointId (by decide)
  constructor
  · rintro ⟨client, inside, active, key, group, server, taken, fits, key'⟩
    obtain ⟨p', here, ⟨l', listening, rfl⟩ | ⟨d, -, rfl⟩⟩ := mem_endpointsOf.mp inside
    · obtain ⟨ids, places⟩ := endpointKey_injective (unslashed' _ _) (unslashed' _ _) key
      obtain rfl := profile_of_id distinct here there ids
      obtain rfl := listener_of_position listening member (endpointId_injective places).2
      obtain ⟨name, offered⟩ := taken.mem
      obtain ⟨e, found, same⟩ := List.mem_map.mp offered
      obtain ⟨rfl, rfl⟩ := Prod.mk.inj same
      obtain ⟨held, servesGroup⟩ := List.mem_filter.mp found
      simp only [Bool.and_eq_true, beq_iff_eq] at servesGroup
      obtain ⟨serves, rfl⟩ := servesGroup
      obtain ⟨q', here', ⟨l', -, rfl⟩ | ⟨d, inside', rfl⟩⟩ := mem_endpointsOf.mp held
      · simp [isServer, mapped, listenerEndpoint] at serves
      · obtain ⟨ids', places'⟩ := endpointKey_injective (unslashed _ _) (unslashed _ _) key'
        obtain rfl := profile_of_id distinct here' there' ids'
        obtain ⟨entry, entered, bound⟩ := List.mem_flatten.mp inside'
        obtain ⟨⟨forward, group⟩, kept, rfl⟩ := List.mem_map.mp entered
        obtain ⟨placed, named⟩ := List.mem_filter.mp kept
        obtain ⟨⟨binding, index⟩, -, rfl⟩ := List.mem_map.mp bound
        have grouped : groupKey (mapped q'.ref (destinationEndpoint relayName ((group, index), binding))) =
            endpointKey q'.ref.id (groupId "remote" false group) := rfl
        rw [grouped, offersOf_entry distinct there' placed (of_decide_eq_true named)] at taken
        obtain ⟨d', same', own⟩ :=
          (Offers.taken_map (f := fun d : Destination => mapped q'.ref (destinationEndpoint relayName d))).mp taken
        have positions : destinationKey q' d'.1 = destinationKey q' position := by
          rw [← key', ← same']
          rfl
        obtain ⟨k, offered'⟩ := own.mem
        have served := served_of_offers offered'
        rw [← same', streamCompatible_iff served] at fits
        exact ⟨_, entered, d', (endpointId_injective (endpointKey_injective (unslashed _ _) (unslashed _ _) positions).2).2, fits,
          own⟩
    · simp [isClient, mapped, destinationEndpoint] at active
  · rintro ⟨entry, entered, d, rfl, mode, taken⟩
    obtain ⟨⟨forward, group⟩, kept, rfl⟩ := List.mem_map.mp entered
    obtain ⟨placed, named⟩ := List.mem_filter.mp kept
    obtain ⟨k, offered⟩ := taken.mem
    refine ⟨mapped p.ref (listenerEndpoint p.config.gatewayPorts relayName l),
      mem_endpointsOf.mpr ⟨p, there, .inl ⟨l, member, rfl⟩⟩, rfl, rfl, endpointKey q.ref.id (groupId "remote" false group),
      mapped q.ref (destinationEndpoint relayName d), ?_, (streamCompatible_iff (served_of_offers offered)).mpr mode, rfl⟩
    rw [offersOf_entry distinct there' placed (of_decide_eq_true named)]
    exact (Offers.taken_map (f := fun d : Destination => mapped q.ref (destinationEndpoint relayName d))).mpr ⟨d, rfl, taken⟩

end Saved

end Azbridge.Relays
