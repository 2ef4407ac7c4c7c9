import Azbridge.Broker.Scripts
import Azbridge.Relays.Pairing

/-!
# Agreement

When the relay map matches a listener with exactly the destinations that gateways hand its
connections to. The browser answers a client by each forward of a relay, a host by all of them
together, and no preamble names a port in more than 255 bytes.
-/

namespace Azbridge.Relays
open Azbridge.Runtime Broker.Profiles

variable {app : Broker.App} {localeCompare : String → String → Int} {connections : List String}
  {profiles : List (SavedProfile app)} {gateway : SavedProfile app → Gateway}

/-- For every relay, listener and destination, a match is recorded exactly if the gateway of the destination's
profile hands the listener's connections to it. -/
def Agrees (localeCompare : String → String → Int) (connections : List String) (gateway : SavedProfile app → Gateway)
    (profiles : List (SavedProfile app)) : Prop :=
  ∀ relayName, ∀ p ∈ profiles, ∀ l ∈ listeners p.config relayName, ∀ q ∈ profiles,
    ∀ d ∈ (destinations q.config relayName).flatten,
      Recorded (buildRelayMap localeCompare (profiles.map (·.toMap)) connections) relayName (listenerKey p l.1)
          (destinationKey q d.1) ↔
        ∃ request, localRequest l.2 = some request ∧ (gateway q).Accepts q.config relayName request d.1

/-- The name may fall back to a single forwarder. -/
def Numeric (name : String) : Prop := (Text.parseI32 name).isSome = true

def SameMode (l : Listener) (d : Destination) : Prop := modeOf d.2 = (requestOf l.2).mode

/-- For every listener and profile: what a forward of the relay offers the listener stands among the other
forwards of the profile for that relay, and a name of more than 255 bytes is offered nothing. -/
def Undisturbed (profiles : List (SavedProfile app)) : Prop :=
  ∀ relayName, ∀ p ∈ profiles, ∀ l ∈ listeners p.config relayName, ∀ q ∈ profiles,
    (∀ before forward after, (destinations q.config relayName).map offers = before ++ forward :: after →
      Offers.Stands (Numeric (requestOf l.2).portName) (requestOf l.2).portName (SameMode l) before forward after) ∧
    (255 < (requestOf l.2).portName.utf8ByteSize → ∀ forward ∈ (destinations q.config relayName).map offers, ∀ d,
      SameMode l d → ¬ Offers.Taken (Numeric (requestOf l.2).portName) forward (requestOf l.2).portName d)

theorem destination_of_position {config : Config} {relayName : String} {d d' : Destination}
    (member : d ∈ (destinations config relayName).flatten) (member' : d' ∈ (destinations config relayName).flatten)
    (same : d.1 = d'.1) : d = d' := by
  have placed : ∀ {d : Destination}, d ∈ (destinations config relayName).flatten →
      ∃ forward, config.remoteForward[d.1.1]? = some forward ∧ forward.bindings[d.1.2]? = some d.2 := by
    intro d member
    obtain ⟨entry, there, inside⟩ := List.mem_flatten.mp member
    obtain ⟨⟨forward, group⟩, kept, rfl⟩ := List.mem_map.mp there
    obtain ⟨⟨binding, index⟩, bound, rfl⟩ := List.mem_map.mp inside
    exact ⟨forward, List.mk_mem_zipIdx_iff_getElem?.mp (List.mem_filter.mp kept).1, List.mk_mem_zipIdx_iff_getElem?.mp bound⟩
  obtain ⟨forward, at_, bound⟩ := placed member
  obtain ⟨forward', at_', bound'⟩ := placed member'
  rw [same] at at_ bound
  obtain rfl := Option.some.inj (at_.symm.trans at_')
  exact Prod.ext same (Option.some.inj (bound.symm.trans bound'))

theorem mem_of_offers {ds : List Destination} {name : String} {d : Destination} (member : (name, d) ∈ offers ds) : d ∈ ds := by
  obtain ⟨d', kept, same⟩ := List.mem_map.mp member
  obtain ⟨-, rfl⟩ := Prod.mk.inj same
  exact (List.mem_filter.mp kept).1

theorem agrees_for {config : Config} {relayName : String} {l : Listener} :
    (∀ d ∈ (destinations config relayName).flatten,
      ((∃ entry ∈ destinations config relayName, ∃ d' : Destination, d'.1 = d.1 ∧ SameMode l d' ∧
          Offers.Taken (Numeric (requestOf l.2).portName) (offers entry) (requestOf l.2).portName d') ↔
        (requestOf l.2).portName.utf8ByteSize ≤ 255 ∧ ∃ d' : Destination, d'.1 = d.1 ∧ SameMode l d' ∧
          Offers.Taken (Numeric (requestOf l.2).portName) (offers (destinations config relayName).flatten)
            (requestOf l.2).portName d')) ↔
    (∀ before forward after, (destinations config relayName).map offers = before ++ forward :: after →
      Offers.Stands (Numeric (requestOf l.2).portName) (requestOf l.2).portName (SameMode l) before forward after) ∧
    (255 < (requestOf l.2).portName.utf8ByteSize → ∀ forward ∈ (destinations config relayName).map offers, ∀ d,
      SameMode l d → ¬ Offers.Taken (Numeric (requestOf l.2).portName) forward (requestOf l.2).portName d) := by
  generalize (requestOf l.2).portName = name
  have one : ∀ d ∈ (destinations config relayName).flatten,
      ((∃ entry ∈ destinations config relayName, ∃ d' : Destination, d'.1 = d.1 ∧ SameMode l d' ∧
          Offers.Taken (Numeric name) (offers entry) name d') ↔
        SameMode l d ∧ ∃ forward ∈ (destinations config relayName).map offers, Offers.Taken (Numeric name) forward name d) := by
    intro d member
    constructor
    · rintro ⟨entry, there, d', same, mode, taken⟩
      obtain ⟨k, offered⟩ := taken.mem
      obtain rfl := destination_of_position (List.mem_flatten.mpr ⟨entry, there, mem_of_offers offered⟩) member same
      exact ⟨mode, _, List.mem_map_of_mem there, taken⟩
    · rintro ⟨mode, forward, there, taken⟩
      obtain ⟨entry, inside, rfl⟩ := List.mem_map.mp there
      exact ⟨entry, inside, d, rfl, mode, taken⟩
  have all : ∀ d ∈ (destinations config relayName).flatten,
      ((∃ d' : Destination, d'.1 = d.1 ∧ SameMode l d' ∧
          Offers.Taken (Numeric name) (offers (destinations config relayName).flatten) name d') ↔
        SameMode l d ∧ Offers.Taken (Numeric name) ((destinations config relayName).map offers).flatten name d) := by
    intro d member
    rw [offers_flatten]
    constructor
    · rintro ⟨d', same, mode, taken⟩
      obtain ⟨k, offered⟩ := taken.mem
      obtain rfl := destination_of_position (mem_of_offers offered) member same
      exact ⟨mode, taken⟩
    · rintro ⟨mode, taken⟩
      exact ⟨d, rfl, mode, taken⟩
  have held : ∀ forward ∈ (destinations config relayName).map offers, ∀ d, Offers.Taken (Numeric name) forward name d →
      d ∈ (destinations config relayName).flatten := by
    intro forward there d taken
    obtain ⟨k, offered⟩ := taken.mem
    obtain ⟨entry, inside, rfl⟩ := List.mem_map.mp there
    exact List.mem_flatten.mpr ⟨entry, inside, mem_of_offers offered⟩
  have once : (((destinations config relayName).map offers).flatten.map (·.2)).Nodup := by
    rw [offers_flatten]
    exact distinct_offers (nodup_destinations config relayName)
  constructor
  · intro agree
    by_cases fits : name.utf8ByteSize ≤ 255
    · refine ⟨(Offers.taken_together once).mp fun d mode => ⟨?_, Offers.Taken.of_group⟩, fun long => absurd fits (by omega)⟩
      rintro ⟨forward, there, taken⟩
      have member := held forward there d taken
      have together := (agree d member).mp ((one d member).mpr ⟨mode, forward, there, taken⟩)
      exact ((all d member).mp together.2).2
    · have unoffered : ∀ forward ∈ (destinations config relayName).map offers, ∀ d, SameMode l d →
          ¬ Offers.Taken (Numeric name) forward name d := by
        intro forward there d mode taken
        have member := held forward there d taken
        exact fits ((agree d member).mp ((one d member).mpr ⟨mode, forward, there, taken⟩)).1
      refine ⟨?_, fun _ => unoffered⟩
      intro before forward after split
      have there : forward ∈ (destinations config relayName).map offers := by simp [split]
      constructor
      · intro d named mode
        exact absurd (.inl named) (unoffered forward there d mode)
      · intro k d may other sole mode
        exact absurd (.inr ⟨may, k, other, sole⟩) (unoffered forward there d mode)
  · rintro ⟨stands, unoffered⟩ d member
    rw [one d member, all d member]
    by_cases fits : name.utf8ByteSize ≤ 255
    · constructor
      · rintro ⟨mode, taken⟩
        exact ⟨fits, mode, ((Offers.taken_together once).mpr stands d mode).mp taken⟩
      · rintro ⟨-, mode, taken⟩
        exact ⟨mode, ((Offers.taken_together once).mpr stands d mode).mpr taken⟩
    · constructor
      · rintro ⟨mode, forward, there, taken⟩
        exact absurd taken (unoffered (by omega) forward there d mode)
      · rintro ⟨short, -⟩
        exact absurd short fits

/-- The map agrees with the gateways exactly if no forward of a relay disturbs what another one offers. -/
theorem agrees_iff_undisturbed (distinct : (profiles.map (·.ref.id)).Nodup)
    (reaches : ∀ q ∈ profiles, (gateway q).Reaches q.config) :
    Agrees localeCompare connections gateway profiles ↔ Undisturbed profiles := by
  apply forall_congr'
  intro relayName
  apply forall₂_congr
  intro p there
  apply forall₂_congr
  intro l member
  apply forall₂_congr
  intro q there'
  have managed := managed_of_parse q.managed
  have request : localRequest l.2 = some (requestOf l.2) := by
    obtain ⟨forward, inside, -, bound⟩ := mem_listeners member
    exact localRequest_eq ((managed_of_parse p.managed).local_port inside (List.mem_of_getElem? bound))
  rw [← agrees_for]
  apply forall₂_congr
  intro d held
  rw [recorded_saved distinct there there' member, request]
  simp only [Option.some.injEq, exists_eq_left']
  rw [accepts_iff managed (reaches q there')]
  rfl

def clientYaml : String := "LocalForward:\n- RelayName: r\n  BindPort: 80\n  PortName: web\n"

def serverYaml : String :=
  "RemoteForward:\n- RelayName: r\n  HostPort: 8080\n  PortName: web\n- RelayName: r\n  HostPort: 8081\n  PortName: web\n"

def clientConfig : Config :=
  { localForward := [{ relayName := "r", bindPort := some 80, portName := some "web" }] }

/-- Both forwards name their port alike. -/
def serverConfig : Config :=
  { remoteForward := [{ relayName := "r", hostPort := some 8080, portName := some "web" },
      { relayName := "r", hostPort := some 8081, portName := some "web" }] }

def pairApp : Broker.App :=
  { Broker.localApp with
    yaml := {
      config := fun text => if text = clientYaml then some (clientConfig, []) else some (serverConfig, [])
      value := fun _ => some (.mapping []) } }

def clientProfile : SavedProfile pairApp where
  ref := ⟨"a", "client"⟩
  yaml := clientYaml
  config := normalized clientConfig
  endpoints := (fromConfig (normalized clientConfig) false).getD []
  managed := by decide +kernel
  extracted := by decide +kernel

def serverProfile : SavedProfile pairApp where
  ref := ⟨"b", "server"⟩
  yaml := serverYaml
  config := normalized serverConfig
  endpoints := (fromConfig (normalized serverConfig) false).getD []
  managed := by decide +kernel
  extracted := by decide +kernel

def loopbackGateway : Gateway where
  lowercase := Text.toAsciiLowercase
  resolve _ _ port := .v4 0x7f000001 port

theorem loopbackGateway_reaches (config : Config) (unfiltered : config.addressFamily = none) : loopbackGateway.Reaches config := by
  intro relayName d _
  simp [isAddressFamilyAllowed, unfiltered]

theorem agrees_iff_undisturbed_local :
    Agrees (fun _ _ => 0) ["r"] (fun _ => loopbackGateway) [clientProfile, serverProfile] ↔
      Undisturbed [clientProfile, serverProfile] := by
  apply agrees_iff_undisturbed
  · decide
  · intro q there
    apply loopbackGateway_reaches
    rcases List.mem_pair.mp there with rfl | rfl <;> rfl

/-- The map matches the client with both destinations, the gateway hands it to the second. -/
theorem later_forward_takes_over : ¬ Agrees (fun _ _ => 0) ["r"] (fun _ => loopbackGateway) [clientProfile, serverProfile] := by
  intro agree
  let l : Listener := ((0, 0), { bindPort := 80, portName := some "web" })
  let first : Destination := ((0, 0), { hostPort := 8080, portName := some "web" })
  let second : Destination := ((1, 0), { hostPort := 8081, portName := some "web" })
  have listening : l ∈ listeners clientProfile.config "r" := by decide
  have serving : first ∈ (destinations serverProfile.config "r").flatten := by decide
  have client : clientProfile ∈ [clientProfile, serverProfile] := by simp
  have server : serverProfile ∈ [clientProfile, serverProfile] := by simp
  have recorded : Recorded (buildRelayMap (fun _ _ => 0) ([clientProfile, serverProfile].map (·.toMap)) ["r"]) "r"
      (listenerKey clientProfile l.1) (destinationKey serverProfile first.1) :=
    (recorded_saved (by decide) client server listening).mpr
      ⟨[first], by decide, first, rfl, rfl, .inl (by decide)⟩
  obtain ⟨request, sent, accepted⟩ := (agree "r" clientProfile client l listening serverProfile server first serving).mp recorded
  have sent' : localRequest l.2 = some (requestOf l.2) := by decide
  obtain rfl := Option.some.inj (sent'.symm.trans sent)
  obtain ⟨-, d, place, -, taken⟩ :=
    (accepts_iff (managed_of_parse serverProfile.managed) (loopbackGateway_reaches _ rfl)).mp accepted
  have answered : Offers.answer (Text.parseI32 (requestOf l.2).portName).isSome
      (.ofEntries (offers (destinations serverProfile.config "r").flatten)) (requestOf l.2).portName = some second := by decide
  rw [← Offers.answer_iff, answered] at taken
  obtain rfl := Option.some.inj taken
  exact absurd place (by decide)

end Azbridge.Relays
