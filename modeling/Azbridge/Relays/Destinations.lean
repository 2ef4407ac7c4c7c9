import Azbridge.Broker.Managed
import Azbridge.Lib.Offers
import Azbridge.Relays.Endpoints
import Azbridge.Runtime.Host

/-!
# Destinations

The destinations of a relay in a configuration, and which of them a host hands a connection to.
-/

namespace Azbridge.Relays
open Azbridge.Runtime Broker.Profiles

/-- A binding with its place in the configuration. -/
abbrev Destination := Position × RemoteForwardBinding

def entryDestinations (group : Nat) (forward : RemoteForward) : List Destination :=
  forward.bindings.zipIdx.map fun (binding, index) => ((group, index), binding)

def destinations (config : Config) (relayName : String) : List (List Destination) :=
  (config.remoteForward.zipIdx.filter (·.1.relayName = relayName)).map fun (forward, group) => entryDestinations group forward

def portNameOf (binding : RemoteForwardBinding) : String := effectiveName binding.portName binding.hostPort false

/-- What the destinations offer to connections. HTTP destinations are reached in another way. -/
def offers (destinations : List Destination) : List (String × Destination) :=
  (destinations.filter fun d => !d.2.http).map fun d => (portNameOf d.2, d)

def modeOf (binding : RemoteForwardBinding) : ConnectionMode :=
  if binding.localSocket.isSome then .stream else if binding.hostPort < 0 then .datagram else .stream

theorem offers_flatten (groups : List (List Destination)) : (groups.map offers).flatten = offers groups.flatten := by
  unfold offers
  rw [List.filter_flatten, List.map_flatten, List.map_map]
  rfl

theorem effectiveName_eq (name : Option String) (port : Int) : effectiveName name port false = name.getD (defaultPortName port) := by
  simp [effectiveName, defaultPortName]

theorem remoteBindings_eq {forward : RemoteForward} (some_ : forward.bindings ≠ []) : remoteBindings forward = forward.bindings := by
  unfold remoteBindings
  rw [if_neg (by simpa using some_)]

section Distinct

theorem nodup_entryDestinations (group : Nat) (forward : RemoteForward) : (entryDestinations group forward).Nodup := by
  have indexed := List.nodup_zipIdx_map_snd forward.bindings
  have same : (entryDestinations group forward).map (fun d => d.1.2) = forward.bindings.zipIdx.map Prod.snd := by
    unfold entryDestinations
    rw [List.map_map]
    rfl
  exact List.Nodup.of_map _ (same ▸ indexed)

theorem nodup_destinations (config : Config) (relayName : String) : (destinations config relayName).flatten.Nodup := by
  rw [destinations, ← List.flatMap_def, List.nodup_flatMap]
  constructor
  · rintro ⟨forward, group⟩ -
    exact nodup_entryDestinations group forward
  · have indexed : (config.remoteForward.zipIdx.map Prod.snd).Nodup := List.nodup_zipIdx_map_snd _
    have apart := (List.pairwise_map.mp indexed).sublist (List.filter_sublist (p := (·.1.relayName = relayName)))
    apply apart.imp
    rintro ⟨forward, group⟩ ⟨forward', group'⟩ different d member member'
    obtain ⟨b, -, rfl⟩ := List.mem_map.mp member
    obtain ⟨b', -, same⟩ := List.mem_map.mp member'
    exact different (congrArg (·.1.1) same).symm

theorem distinct_offers {destinations : List Destination} (once : destinations.Nodup) : ((offers destinations).map (·.2)).Nodup := by
  have same : (offers destinations).map (·.2) = destinations.filter fun d => !d.2.http := by
    unfold offers
    rw [List.map_map]
    exact List.map_id _
  rw [same]
  exact once.filter _

end Distinct

/-- A gateway: how it writes in lower case, and the address it found for each destination. -/
structure Gateway where
  lowercase : String → String
  resolve : Position → String → UInt16 → SocketAddr

def Gateway.target (gateway : Gateway) (d : Destination) : SocketAddr :=
  gateway.resolve d.1 (d.2.host.getD "localhost") (.ofNat d.2.hostPort.natAbs)

/-- No destination is left out for the family of the address that was found for it. -/
def Gateway.Reaches (gateway : Gateway) (config : Config) : Prop :=
  ∀ relayName, ∀ d ∈ (destinations config relayName).flatten,
    isAddressFamilyAllowed gateway.lowercase (gateway.target d) config.addressFamily = true

/-- The gateway hands a client's connection to the forwarder of the destination there. -/
def Gateway.Accepts (gateway : Gateway) (config : Config) (relayName : String) (request : PreambleRequest) (position : Position) :
    Prop :=
  ∃ written forwarder, writeRequest request = .ok written ∧
    dispatchConnection (forwarders gateway.lowercase gateway.resolve config relayName) written = .handled (position, forwarder) []

def forwarderOf (gateway : Gateway) (d : Destination) : RemoteForwarder :=
  let name := portNameOf d.2
  match d.2.localSocket with
  | some path => .socket path name
  | none => if d.2.hostPort < 0 then .udp (gateway.target d) name else .tcp (gateway.target d) name

theorem mode_forwarderOf (gateway : Gateway) (d : Destination) : (forwarderOf gateway d).mode = some (modeOf d.2) := by
  unfold forwarderOf modeOf
  cases d.2.localSocket with
  | some path => rfl
  | none =>
    dsimp only
    split <;> rfl

section Host
variable {lowercase : String → String} {config : Config} {relayName : String} {gateway : Gateway}

theorem remoteForwarder_eq {d : Destination}
    (reaches : isAddressFamilyAllowed gateway.lowercase (gateway.target d) config.addressFamily = true)
    (bound : d.2.localSocket.isSome = true ∨ d.2.hostPort ≠ 0) :
    remoteForwarder gateway.lowercase config.addressFamily gateway.resolve d =
      if d.2.http = true then none else some (portNameOf d.2, d.1, forwarderOf gateway d) := by
  obtain ⟨position, binding⟩ := d
  unfold Gateway.target at reaches
  unfold remoteForwarder forwarderOf portNameOf Gateway.target
  simp only [effectiveName_eq]
  split
  · rfl
  · cases socket : binding.localSocket with
    | some path => rfl
    | none =>
      have port : binding.hostPort ≠ 0 := by simpa [socket] using bound
      dsimp only
      rw [if_neg port, reaches]
      simp

theorem mem_destinations {d : Destination} (member : d ∈ (destinations config relayName).flatten) :
    ∃ forward ∈ config.remoteForward, forward.relayName = relayName ∧ d.2 ∈ forward.bindings := by
  obtain ⟨entry, there, inside⟩ := List.mem_flatten.mp member
  obtain ⟨⟨forward, group⟩, kept, rfl⟩ := List.mem_map.mp there
  obtain ⟨present, named⟩ := List.mem_filter.mp kept
  obtain ⟨⟨binding, index⟩, bound, rfl⟩ := List.mem_map.mp inside
  exact ⟨forward, List.fst_mem_of_mem_zipIdx present, by simpa using named, List.fst_mem_of_mem_zipIdx bound⟩

theorem remoteGroups_destinations (managed : Managed lowercase config) :
    ((remoteGroups config).get relayName).getD [] = (destinations config relayName).flatten := by
  rw [remoteGroups_eq, destinations, ← List.flatMap_def]
  apply List.flatMap_congr
  rintro ⟨forward, group⟩ member
  have present := (managed.remoteForward forward (List.fst_mem_of_mem_zipIdx (List.mem_of_mem_filter member))).1
  simp only [remoteBindings_eq present, entryDestinations]

theorem forwarders_eq (managed : Managed lowercase config) (reaches : gateway.Reaches config) :
    forwarders gateway.lowercase gateway.resolve config relayName =
      .ofEntries ((offers (destinations config relayName).flatten).map fun o => (o.1, (o.2.1, forwarderOf gateway o.2))) := by
  have made : ∀ ds : List Destination, (∀ d ∈ ds,
      isAddressFamilyAllowed gateway.lowercase (gateway.target d) config.addressFamily = true ∧
        (d.2.localSocket.isSome = true ∨ d.2.hostPort ≠ 0)) →
      ds.filterMap (remoteForwarder gateway.lowercase config.addressFamily gateway.resolve) =
        (offers ds).map fun o => (o.1, (o.2.1, forwarderOf gateway o.2)) := by
    intro ds bound
    induction ds with
    | nil => rfl
    | cons d rest ih =>
      obtain ⟨allowed, port⟩ := bound d List.mem_cons_self
      have own := remoteForwarder_eq allowed port
      have others := ih fun d member => bound d (List.mem_cons_of_mem _ member)
      cases http : d.2.http with
      | true =>
        rw [http, if_pos rfl] at own
        rw [List.filterMap_cons_none own, others]
        simp [offers, http]
      | false =>
        rw [http, if_neg (by decide)] at own
        rw [List.filterMap_cons_some own, others]
        simp [offers, http]
  unfold forwarders
  dsimp only
  rw [remoteGroups_destinations managed, made]
  intro d member
  obtain ⟨forward, there, -, bound⟩ := mem_destinations member
  exact ⟨reaches relayName d member, managed.remote_port there bound⟩

/-- A connection that names its port in 255 bytes goes to the destination that it takes among all those
of the relay, if that is of its mode. -/
theorem accepts_iff (managed : Managed lowercase config) (reaches : gateway.Reaches config) {request : PreambleRequest}
    {position : Position} :
    gateway.Accepts config relayName request position ↔ request.portName.utf8ByteSize ≤ 255 ∧
      ∃ d : Destination, d.1 = position ∧ modeOf d.2 = request.mode ∧
        Offers.Taken ((Text.parseI32 request.portName).isSome = true) (offers (destinations config relayName).flatten)
          request.portName d := by
  have looked : ∀ f, lookupForwarder (forwarders gateway.lowercase gateway.resolve config relayName) request.portName = some f ↔
      ∃ d : Destination, (d.1, forwarderOf gateway d) = f ∧ Offers.Taken ((Text.parseI32 request.portName).isSome = true)
        (offers (destinations config relayName).flatten) request.portName d := by
    intro f
    rw [forwarders_eq managed reaches]
    have answers : ∀ t : Table String (Position × RemoteForwarder), lookupForwarder t request.portName =
        Offers.answer (Text.parseI32 request.portName).isSome t request.portName := by
      intro t
      unfold lookupForwarder Offers.answer
      cases t.get request.portName <;> rfl
    rw [answers, Offers.answer_iff]
    exact Offers.taken_map (f := fun d : Destination => (d.1, forwarderOf gateway d))
  unfold Gateway.Accepts
  constructor
  · rintro ⟨written, forwarder, wrote, handled⟩
    have read := readRequest_of_written wrote []
    rw [List.append_nil] at read
    obtain ⟨chosen, mode⟩ := (dispatchConnection_handled read).mp handled
    obtain ⟨d, same, taken⟩ := (looked _).mp chosen
    obtain ⟨rfl, rfl⟩ := Prod.mk.inj same
    rw [mode_forwarderOf] at mode
    exact ⟨(writeRequest_ok.mp wrote).1, d, rfl, Option.some.inj mode, taken⟩
  · rintro ⟨fits, d, rfl, mode, taken⟩
    have wrote := writeRequest_ok.mpr ⟨fits, rfl⟩
    have read := readRequest_of_written wrote []
    rw [List.append_nil] at read
    refine ⟨_, forwarderOf gateway d, wrote, (dispatchConnection_handled read).mpr ⟨?_, ?_⟩⟩
    · exact (looked _).mpr ⟨d, rfl, taken⟩
    · rw [mode_forwarderOf, mode]

end Host
end Azbridge.Relays
