import Mathlib.Logic.Relation
import Mathlib.Logic.Function.Basic
import Azbridge.Lib.Table

/-!
# UDP routes

The local forward keeps one route for each peer: an uplink task that empties a channel into the
relay and a downlink task that sends replies to the peer. The forward takes a route for alive while
its channel is open, which only the uplink decides.
-/

namespace Azbridge.Udp

abbrev Datagram := List UInt8

/-- `mpsc::channel` of a route. -/
def channelCapacity : Nat := 256

inductive Uplink where
  | receiving
  | sending (data : Datagram)
  | ended
  deriving DecidableEq, Repr

structure UdpRoute (Peer : Type) where
  peer : Peer
  uplink : Uplink := .receiving
  downlinkEnded : Bool := false
  queue : List Datagram := []
  deriving DecidableEq, Repr

/-- The channel's receiver is gone. -/
def UdpRoute.isClosed {Peer : Type} (r : UdpRoute Peer) : Bool := r.uplink = .ended

/-- Both tasks run. -/
def UdpRoute.Running {Peer : Type} (r : UdpRoute Peer) : Prop := r.isClosed = false ∧ r.downlinkEnded = false

/-- Where the forward's loop is. -/
inductive Phase (Peer : Type) where
  | receiving
  | creating (peer : Peer) (data : Datagram)
  | sending (peer : Peer) (id : Nat) (existing : Bool) (data : Datagram)
  | stopped
  deriving DecidableEq, Repr

/-- A datagram was queued on a route, which was this at the time. -/
structure Queued (Peer : Type) where
  peer : Peer
  existing : Bool
  route : UdpRoute Peer
  deriving DecidableEq, Repr

variable {Peer : Type}

structure Forward (Peer : Type) where
  /-- The tasks of every route that was ever created. -/
  tasks : Nat → Option (UdpRoute Peer)
  routes : Table Peer Nat
  phase : Phase Peer
  queued : List (Queued Peer)

def Forward.start : Forward Peer := ⟨fun _ => none, .empty, .receiving, []⟩

def Forward.setTask (s : Forward Peer) (id : Nat) (r : UdpRoute Peer) : Forward Peer :=
  { s with tasks := Function.update s.tasks id (some r) }

variable [DecidableEq Peer]

/-- `route_active`. -/
def Forward.active (s : Forward Peer) (peer : Peer) : Option Nat :=
  (s.routes.get peer).filter fun id => (s.tasks id).any fun r => !r.isClosed

/-- `routes_lock.remove`. -/
def Forward.remove (s : Forward Peer) (peer : Peer) : Forward Peer :=
  { s with routes := s.routes.retain fun key _ => key ≠ peer }

/-- The forward's loop and the tasks take turns at their awaits. In orderly runs no downlink ends
before its uplink. -/
inductive Step (orderly : Prop) : Forward Peer → Forward Peer → Prop
  /-- `recv_from` gives a datagram of a peer with an active route. -/
  | arrive {s : Forward Peer} (peer : Peer) (data : Datagram) {id : Nat} (idle : s.phase = .receiving)
      (active : s.active peer = some id) : Step orderly s { s with phase := .sending peer id true data }
  /-- Or of one without. -/
  | arriveNew {s : Forward Peer} (peer : Peer) (data : Datagram) (idle : s.phase = .receiving)
      (inactive : s.active peer = none) : Step orderly s { s.remove peer with phase := .creating peer data }
  | create {s : Forward Peer} {peer : Peer} {data : Datagram} (id : Nat) (creating : s.phase = .creating peer data)
      (fresh : s.tasks id = none) :
      Step orderly s { s.setTask id ⟨peer, .receiving, false, []⟩ with
        routes := s.routes.set peer id, phase := .sending peer id false data }
  | createFails {s : Forward Peer} {peer : Peer} {data : Datagram} (creating : s.phase = .creating peer data) :
      Step orderly s { s with phase := .receiving }
  /-- `relay_tx.send` waits for room. -/
  | send {s : Forward Peer} {peer : Peer} {id : Nat} {existing : Bool} {data : Datagram} {r : UdpRoute Peer}
      (sending : s.phase = .sending peer id existing data) (task : s.tasks id = some r) (opened : r.isClosed = false)
      (room : r.queue.length < channelCapacity) :
      Step orderly s { s.setTask id { r with queue := r.queue ++ [data] } with
        phase := .receiving, queued := s.queued ++ [⟨peer, existing, r⟩] }
  | sendFails {s : Forward Peer} {peer : Peer} {id : Nat} {existing : Bool} {data : Datagram} {r : UdpRoute Peer}
      (sending : s.phase = .sending peer id existing data) (task : s.tasks id = some r) (closed : r.isClosed = true) :
      Step orderly s { s.remove peer with phase := .receiving }
  | shutdown {s : Forward Peer} (idle : s.phase = .receiving) :
      Step orderly s { s with phase := .stopped, routes := .empty }
  | take {s : Forward Peer} {id : Nat} {r : UdpRoute Peer} {data : Datagram} {rest : List Datagram} (task : s.tasks id = some r)
      (waiting : r.uplink = .receiving) (next : r.queue = data :: rest) :
      Step orderly s (s.setTask id { r with uplink := .sending data, queue := rest })
  | written {s : Forward Peer} {id : Nat} {r : UdpRoute Peer} {data : Datagram} (task : s.tasks id = some r)
      (sending : r.uplink = .sending data) : Step orderly s (s.setTask id { r with uplink := .receiving })
  /-- The write fails or takes more than a second. -/
  | uplinkFails {s : Forward Peer} {id : Nat} {r : UdpRoute Peer} {data : Datagram} (task : s.tasks id = some r)
      (sending : r.uplink = .sending data) : Step orderly s (s.setTask id { r with uplink := .ended, queue := [] })
  /-- The route was dropped and its channel is drained. -/
  | uplinkDrained {s : Forward Peer} {id : Nat} {r : UdpRoute Peer} (task : s.tasks id = some r)
      (waiting : r.uplink = .receiving) (empty : r.queue = []) (dropped : ∀ peer, s.routes.get peer ≠ some id) :
      Step orderly s (s.setTask id { r with uplink := .ended })
  /-- The relay ends or fails, nothing came for four minutes, or the reply could not be sent. -/
  | downlinkEnds {s : Forward Peer} (id : Nat) {r : UdpRoute Peer} (task : s.tasks id = some r)
      (order : orderly → r.isClosed = true) : Step orderly s (s.setTask id { r with downlinkEnded := true })

def Reaches (orderly : Prop) : Forward Peer → Forward Peer → Prop := Relation.ReflTransGen (Step orderly)

/-- At most one route for each peer; every route in use was created for its peer, and in orderly
runs its downlink outlives its uplink. -/
structure Holds (orderly : Prop) (s : Forward Peer) : Prop where
  known : ∀ peer id, s.routes.get peer = some id → ∃ r, s.tasks id = some r ∧ r.peer = peer
  sends : ∀ peer id existing data, s.phase = .sending peer id existing data → ∃ r, s.tasks id = some r ∧ r.peer = peer
  outlived : orderly → ∀ id r, s.tasks id = some r → r.isClosed = false → r.downlinkEnded = false
  alive : ∀ q ∈ s.queued, q.route.peer = q.peer ∧ q.route.isClosed = false ∧ (orderly → q.route.Running)

theorem Holds.task {orderly : Prop} {s : Forward Peer} (holds : Holds orderly s) {id : Nat} {r r' : UdpRoute Peer}
    (task : s.tasks id = some r) (peer : r'.peer = r.peer)
    (outlived : orderly → r'.isClosed = false → r'.downlinkEnded = false) : Holds orderly (s.setTask id r') := by
  have kept : ∀ id' peer', (∃ x, s.tasks id' = some x ∧ x.peer = peer') →
      ∃ x, (s.setTask id r').tasks id' = some x ∧ x.peer = peer' := by
    rintro id' peer' ⟨x, found, same⟩
    by_cases own : id' = id
    · subst own
      rw [task, Option.some.injEq] at found
      subst found
      exact ⟨r', Function.update_self .., peer.trans same⟩
    · exact ⟨x, (Function.update_of_ne own ..).trans found, same⟩
  refine ⟨fun peer' id' found => kept _ _ (holds.known peer' id' found),
    fun peer' id' existing data sending => kept _ _ (holds.sends peer' id' existing data sending), ?_, holds.alive⟩
  intro strict id' x found
  by_cases own : id' = id
  · subst own
    have same : r' = x := by simpa [Forward.setTask] using found
    subst same
    exact outlived strict
  · have found' : s.tasks id' = some x := by simpa [Forward.setTask, Function.update_of_ne own] using found
    exact holds.outlived strict id' x found'

theorem holds_start (orderly : Prop) : Holds orderly (Forward.start : Forward Peer) :=
  ⟨nofun, nofun, nofun, nofun⟩

theorem Holds.step {orderly : Prop} {s s' : Forward Peer} (holds : Holds orderly s) (step : Step orderly s s') :
    Holds orderly s' := by
  have removed : ∀ peer peer' id, (s.routes.retain fun key _ => decide (key ≠ peer)).get peer' = some id →
      s.routes.get peer' = some id := fun peer peer' id found => (Table.get_retain.mp found).1
  cases step with
  | @arrive peer data id idle active =>
    have entry := (Option.filter_eq_some_iff.mp active).1
    refine ⟨holds.known, ?_, holds.outlived, holds.alive⟩
    intro peer' id' existing data' sending
    cases sending
    exact holds.known peer id entry
  | arriveNew peer data idle inactive =>
    exact ⟨fun peer' id found => holds.known peer' id (removed peer peer' id found), nofun, holds.outlived, holds.alive⟩
  | @create peer data id creating fresh =>
    have other : ∀ id' r, s.tasks id' = some r → (s.setTask id ⟨peer, .receiving, false, []⟩).tasks id' = some r := by
      intro id' r found
      have different : id' ≠ id := by
        rintro rfl
        rw [fresh] at found
        cases found
      exact (Function.update_of_ne different ..).trans found
    have new : (s.setTask id ⟨peer, .receiving, false, []⟩).tasks id = some ⟨peer, .receiving, false, []⟩ := Function.update_self ..
    refine ⟨?_, ?_, ?_, holds.alive⟩
    · intro peer' id' found
      by_cases own : peer' = peer
      · subst own
        rw [Table.get_set_self, Option.some.injEq] at found
        subst found
        exact ⟨_, new, rfl⟩
      · rw [Table.get_set_other own] at found
        obtain ⟨r, task, same⟩ := holds.known peer' id' found
        exact ⟨r, other id' r task, same⟩
    · intro peer' id' existing data' sending
      cases sending
      exact ⟨_, new, rfl⟩
    · intro strict id' r found opened
      by_cases own : id' = id
      · subst own
        rw [new, Option.some.injEq] at found
        subst found
        rfl
      · have found' : s.tasks id' = some r := by simpa [Forward.setTask, Function.update_of_ne own] using found
        exact holds.outlived strict id' r found' opened
  | createFails creating => exact ⟨holds.known, nofun, holds.outlived, holds.alive⟩
  | @send peer id existing data r sending task opened room =>
    have kept : Holds orderly (s.setTask id { r with queue := r.queue ++ [data] }) :=
      holds.task task rfl fun strict opened => holds.outlived strict id r task opened
    obtain ⟨x, found, same⟩ := holds.sends peer id existing data sending
    rw [task, Option.some.injEq] at found
    subst found
    refine ⟨kept.known, nofun, kept.outlived, ?_⟩
    intro q member
    rcases List.mem_append.mp member with earlier | last
    · exact holds.alive q earlier
    · obtain rfl := List.mem_singleton.mp last
      exact ⟨same, opened, fun strict => ⟨opened, holds.outlived strict id r task opened⟩⟩
  | @sendFails peer id existing data r sending task closed =>
    exact ⟨fun peer' id found => holds.known peer' id (removed peer peer' id found), nofun, holds.outlived, holds.alive⟩
  | shutdown idle => exact ⟨nofun, nofun, holds.outlived, holds.alive⟩
  | @take id r data rest task waiting next =>
    refine holds.task task rfl fun strict _ => ?_
    exact holds.outlived strict id r task (by simp [UdpRoute.isClosed, waiting])
  | @written id r data task sending =>
    refine holds.task task rfl fun strict _ => ?_
    exact holds.outlived strict id r task (by simp [UdpRoute.isClosed, sending])
  | uplinkFails task sending => exact holds.task task rfl fun _ opened => by simp [UdpRoute.isClosed] at opened
  | uplinkDrained task waiting empty dropped => exact holds.task task rfl fun _ opened => by simp [UdpRoute.isClosed] at opened
  | @downlinkEnds id r task order =>
    refine holds.task task rfl fun strict opened => ?_
    have closed := order strict
    rw [UdpRoute.isClosed] at closed opened
    rw [closed] at opened
    cases opened

theorem holds_reaches {orderly : Prop} {s : Forward Peer} (run : Reaches orderly Forward.start s) : Holds orderly s := by
  induction run with
  | refl => exact holds_start orderly
  | tail _ step ih => exact ih.step step

/-- A peer has one route at most, and a datagram is queued on its own peer's route while the uplink
runs; where no downlink ends before its uplink, both tasks run. -/
theorem queued_routes_run {orderly : Prop} {s : Forward Peer} (run : Reaches orderly Forward.start s) :
    (∀ peer id id', (peer, id) ∈ s.routes.entries → (peer, id') ∈ s.routes.entries → id = id') ∧
      (∀ q ∈ s.queued, q.existing = true → q.route.peer = q.peer ∧ q.route.isClosed = false) ∧
      (orderly → ∀ q ∈ s.queued, q.existing = true → q.route.Running) := by
  have holds := holds_reaches run
  refine ⟨?_, fun q member _ => ?_, fun strict q member _ => ?_⟩
  · intro peer id id' first second
    have one := Table.get_eq_some.mpr first
    have two := Table.get_eq_some.mpr second
    rw [one, Option.some.injEq] at two
    exact two
  · obtain ⟨peer, opened, -⟩ := holds.alive q member
    exact ⟨peer, opened⟩
  · exact (holds.alive q member).2.2 strict

/-- A route is used for a second datagram in an orderly run. -/
theorem queued_routes_run_once : ∃ s : Forward Nat, s.queued.length = 2 ∧
    ∀ q ∈ s.queued, q.existing = true → q.route.Running := by
  have first : Reaches True (Forward.start : Forward Nat) _ := .single (.arriveNew 0 [1] rfl rfl)
  have created := first.tail (.create 0 rfl rfl)
  have sent := created.tail (.send rfl rfl rfl (by decide))
  have second := sent.tail (.arrive 0 [2] rfl rfl)
  have queued := second.tail (.send rfl rfl rfl (by decide))
  exact ⟨_, rfl, (queued_routes_run queued).2.2 trivial⟩

/-- The relay ends a route's stream, and the next datagram is queued on the route all the same. -/
theorem queued_on_half_a_route : ∃ s : Forward Nat, Reaches False Forward.start s ∧
    ∃ q ∈ s.queued, q.existing = true ∧ ¬ q.route.Running := by
  have first : Reaches False (Forward.start : Forward Nat) _ := .single (.arriveNew 0 [1] rfl rfl)
  have created := first.tail (.create 0 rfl rfl)
  have sent := created.tail (.send rfl rfl rfl (by decide))
  have ended := sent.tail (.downlinkEnds 0 rfl False.elim)
  have second := ended.tail (.arrive 0 [2] rfl rfl)
  have queued := second.tail (.send rfl rfl rfl (by decide))
  exact ⟨_, queued, _, .tail _ (.head _), rfl, fun running => by cases running.2⟩

end Azbridge.Udp
