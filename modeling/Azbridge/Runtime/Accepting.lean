import Azbridge.Runtime.Lifecycle

/-!
# Accepting connections

The channel of accepted connections ends once no sender of it is left. The listener itself owns one,
and a call of `accept_connection` borrows a handle on the listener.
-/

namespace Azbridge.Accepting

open Azbridge.Control (react Reaction)

structure HybridConnectionStream where
  trackingId : String
  deriving DecidableEq, Repr

/-- A `handle_accept` that was spawned. -/
inductive Handler where
  | connecting (id : String)
  /-- It may wait for room in the channel. -/
  | sending (stream : HybridConnectionStream)
  | finished
  deriving DecidableEq, Repr

/-- A call of `accept_connection` through a handle. -/
inductive Call where
  /-- It waits for the lock of the receiver. -/
  | locking (handle : Nat)
  /-- It holds the lock and waits in `recv`. -/
  | receiving (handle : Nat)
  | returned (result : Option HybridConnectionStream)
  /-- The caller dropped it, as a select does with its other branches. -/
  | cancelled
  deriving DecidableEq, Repr

def Call.borrows : Call → Option Nat
  | .locking handle | .receiving handle => some handle
  | .returned _ | .cancelled => none

def Call.isReceiving : Call → Bool
  | .receiving _ => true
  | _ => false

def acceptChannelCapacity : Nat := 100

structure State where
  life : Lifecycle.State := {}
  /-- The clones of the listener, and whether each is still there. -/
  handles : List Bool := [true]
  handlers : List Handler := []
  queue : List HybridConnectionStream := []
  calls : List Call := []

inductive Event where
  | life (event : Lifecycle.Event)
  | cloned (handle : Nat)
  | dropped (handle : Nat)
  | connected (handler : Nat) (result : Except String Unit)
  | sent (handler : Nat)
  | called (handle : Nat)
  | locked (call : Nat)
  | received (call : Nat)
  | ended (call : Nat)
  | cancelled (call : Nat)

def spawned : Lifecycle.Event → List Handler
  | .loop _ (.receive next) =>
    match react next with
    | .accept command => [.connecting command.id]
    | _ => []
  | _ => []

/-- Someone owns the listener and with it a sender. Tasks that answer HTTP requests and renew tokens
own it too; they could only keep the channel open for longer. -/
def State.owned (s : State) : Bool :=
  s.handles.any id || s.life.loops.any (fun l => !(l.point matches .ended)) || s.handlers.any fun h => h ≠ .finished

def step (s : State) : Event → Option State
  | .life event =>
    (Lifecycle.step s.life event).map fun life => { s with life, handlers := s.handlers ++ spawned event }
  | .cloned handle => if s.handles[handle]? = some true then some { s with handles := s.handles ++ [true] } else none
  | .dropped handle =>
    if s.calls.all fun c => c.borrows ≠ some handle then some { s with handles := s.handles.set handle false } else none
  | .connected handler result =>
    match s.handlers[handler]? with
    | some (.connecting id) =>
      some { s with handlers := s.handlers.set handler (match result with
        | .ok () => .sending ⟨id⟩
        | .error _ => .finished) }
    | _ => none
  | .sent handler =>
    match s.handlers[handler]? with
    | some (.sending stream) =>
      if s.queue.length < acceptChannelCapacity then
        some { s with handlers := s.handlers.set handler .finished, queue := s.queue ++ [stream] }
      else none
    | _ => none
  | .called handle => if s.handles[handle]? = some true then some { s with calls := s.calls ++ [.locking handle] } else none
  | .locked call =>
    match s.calls[call]? with
    | some (.locking handle) =>
      if s.calls.any Call.isReceiving then none else some { s with calls := s.calls.set call (.receiving handle) }
    | _ => none
  | .received call =>
    match s.calls[call]?, s.queue with
    | some (.receiving _), stream :: queue => some { s with queue, calls := s.calls.set call (.returned (some stream)) }
    | _, _ => none
  | .ended call =>
    match s.calls[call]?, s.queue with
    | some (.receiving _), [] => if s.owned then none else some { s with calls := s.calls.set call (.returned none) }
    | _, _ => none
  | .cancelled call =>
    match s.calls[call]? with
    | some (.locking _) | some (.receiving _) => some { s with calls := s.calls.set call .cancelled }
    | _ => none

abbrev run := Traces.run step

/-- `close` has returned and no `open` came later; no handler is in flight and no connection queued. -/
structure Drained (events : List Event) (s : State) : Prop where
  closed : ∃ before after, events = before ++ .life .closeReturned :: after ∧ .life .openCalled ∉ after
  handled : ∀ h ∈ s.handlers, h = .finished
  taken : s.queue = []

def State.Awaits (s : State) (call : Nat) : Prop :=
  ∃ c handle, s.calls[call]? = some c ∧ c.borrows = some handle

/-- The documented end of a call in progress: the run may go on so that it returns none. -/
def Ends (s : State) (call : Nat) : Prop :=
  ∃ future t, run s future = some t ∧ t.calls[call]? = some (.returned none)

/-- A handle on which a call is in progress is there, and no call has seen the end of the channel. -/
structure Holds (s : State) : Prop where
  borrowed : ∀ c ∈ s.calls, ∀ handle, c.borrows = some handle → s.handles[handle]? = some true
  unended : Call.returned none ∉ s.calls

variable {s t : State} {e : Event} {call : Nat}

theorem Holds.owned (holds : Holds s) {c : Call} (there : s.calls[call]? = some c) {handle : Nat}
    (borrows : c.borrows = some handle) : s.owned = true := by
  have alive := holds.borrowed c (List.mem_of_getElem? there) handle borrows
  have some_handle : s.handles.any id = true := List.any_eq_true.mpr ⟨true, List.mem_of_getElem? alive, rfl⟩
  simp [State.owned, some_handle]

/-- A call takes its next step without another handle. -/
theorem Holds.goes (holds : Holds s) {c : Call} (there : s.calls[call]? = some c) {c' : Call}
    (borrows : ∀ handle, c'.borrows = some handle → c.borrows = some handle) (unended : c' ≠ .returned none)
    (same : t.handles = s.handles) (goes : t.calls = s.calls.set call c') : Holds t := by
  constructor
  · intro x inside handle of
    rw [goes] at inside
    rw [same]
    cases List.mem_or_eq_of_mem_set inside with
    | inl old => exact holds.borrowed x old handle of
    | inr new =>
      subst new
      exact holds.borrowed c (List.mem_of_getElem? there) handle (borrows handle of)
  · intro inside
    rw [goes] at inside
    cases List.mem_or_eq_of_mem_set inside with
    | inl old => exact holds.unended old
    | inr new => exact unended new.symm

theorem Holds.step (holds : Holds s) (came : step s e = some t) : Holds t := by
  cases e with
  | life event =>
    obtain ⟨life, _, rfl⟩ := Option.map_eq_some_iff.mp came
    exact ⟨holds.borrowed, holds.unended⟩
  | cloned handle =>
    simp only [Accepting.step] at came
    split at came <;> cases came
    refine ⟨?_, holds.unended⟩
    intro c inside other borrows
    have alive := holds.borrowed c inside other borrows
    have bound := (List.getElem?_eq_some_iff.mp alive).1
    show (s.handles ++ [true])[other]? = some true
    rw [List.getElem?_append_left bound]
    exact alive
  | dropped handle =>
    simp only [Accepting.step] at came
    split at came <;> cases came
    rename_i free
    refine ⟨?_, holds.unended⟩
    intro c inside other borrows
    have different : handle ≠ other := by
      intro same
      have apart := List.all_eq_true.mp free c inside
      simp [same, borrows] at apart
    show (s.handles.set handle false)[other]? = some true
    rw [List.getElem?_set_ne different]
    exact holds.borrowed c inside other borrows
  | connected handler result =>
    simp only [Accepting.step] at came
    split at came <;> cases came
    exact ⟨holds.borrowed, holds.unended⟩
  | sent handler =>
    simp only [Accepting.step] at came
    split at came <;> try cases came
    split at came <;> cases came
    exact ⟨holds.borrowed, holds.unended⟩
  | called handle =>
    simp only [Accepting.step] at came
    split at came <;> cases came
    rename_i alive
    constructor
    · intro c inside other borrows
      cases List.mem_append.mp inside with
      | inl old => exact holds.borrowed c old other borrows
      | inr new =>
        obtain rfl := List.mem_singleton.mp new
        obtain rfl := Option.some.inj borrows
        exact alive
    · intro inside
      cases List.mem_append.mp inside with
      | inl old => exact holds.unended old
      | inr new => cases List.mem_singleton.mp new
  | locked call =>
    simp only [Accepting.step] at came
    split at came <;> try cases came
    rename_i there
    split at came <;> cases came
    exact holds.goes there (by simp [Call.borrows]) (by simp) rfl rfl
  | received call =>
    simp only [Accepting.step] at came
    split at came <;> cases came
    rename_i there _
    exact holds.goes there (by simp [Call.borrows]) (by simp) rfl rfl
  | ended call =>
    -- the handle that the call borrows still owns a sender
    simp only [Accepting.step] at came
    split at came <;> try cases came
    rename_i there _
    rw [if_pos (holds.owned there rfl)] at came
    cases came
  | cancelled call =>
    simp only [Accepting.step] at came
    split at came <;> cases came <;> rename_i there <;>
      exact holds.goes there (by simp [Call.borrows]) (by simp) rfl rfl

theorem holds_run {events : List Event} (ran : run s events = some t) (holds : Holds s) : Holds t :=
  Traces.keeps (fun _ _ _ holds _ came => Holds.step holds came) Traces.admitted_true ran holds

/-- A control loop that has not heard the `close` accepts another connection, or the call is dropped. -/
def disturbs (call : Nat) : Event → Bool
  | .life event => !(spawned event).isEmpty
  | .cancelled c => c = call
  | _ => false

/-- Nothing is left that could give the call a connection. -/
structure Waits (call : Nat) (s : State) : Prop where
  holds : Holds s
  handled : ∀ h ∈ s.handlers, h = .finished
  taken : s.queue = []
  awaits : s.Awaits call

theorem Waits.step (waits : Waits call s) (calm : disturbs call e = false) (came : step s e = some t) : Waits call t := by
  obtain ⟨holds, handled, taken, c, handle, there, borrows⟩ := waits
  have bound := (List.getElem?_eq_some_iff.mp there).1
  have kept := holds.step came
  cases e with
  | life event =>
    obtain ⟨life, _, rfl⟩ := Option.map_eq_some_iff.mp came
    have none_spawned : spawned event = [] := by simpa [disturbs] using calm
    refine ⟨kept, ?_, taken, c, handle, there, borrows⟩
    intro h inside
    rw [none_spawned, List.append_nil] at inside
    exact handled h inside
  | cloned handle =>
    simp only [Accepting.step] at came
    split at came <;> cases came
    exact ⟨kept, handled, taken, c, _, there, borrows⟩
  | dropped handle =>
    simp only [Accepting.step] at came
    split at came <;> cases came
    exact ⟨kept, handled, taken, c, _, there, borrows⟩
  | connected handler result =>
    simp only [Accepting.step] at came
    split at came <;> cases came
    rename_i found
    cases handled _ (List.mem_of_getElem? found)
  | sent handler =>
    simp only [Accepting.step] at came
    split at came <;> try cases came
    rename_i found
    cases handled _ (List.mem_of_getElem? found)
  | called handle =>
    simp only [Accepting.step] at came
    split at came <;> cases came
    refine ⟨kept, handled, taken, c, _, ?_, borrows⟩
    show (s.calls ++ [Call.locking _])[call]? = some c
    rw [List.getElem?_append_left bound]
    exact there
  | locked other =>
    simp only [Accepting.step] at came
    split at came <;> try cases came
    rename_i found
    split at came <;> cases came
    by_cases same : other = call
    · subst same
      exact ⟨kept, handled, taken, .receiving _, _, List.getElem?_set_self bound, rfl⟩
    · exact ⟨kept, handled, taken, c, handle, (List.getElem?_set_ne same).trans there, borrows⟩
  | received other =>
    simp [Accepting.step, taken] at came
  | ended other =>
    simp only [Accepting.step] at came
    split at came <;> try cases came
    rename_i found _
    rw [if_pos (holds.owned found rfl)] at came
    cases came
  | cancelled other =>
    have different : other ≠ call := by simpa [disturbs] using calm
    simp only [Accepting.step] at came
    split at came <;> cases came <;>
      exact ⟨kept, handled, taken, c, handle, (List.getElem?_set_ne different).trans there, borrows⟩

/-- However a run came to be drained, a call in progress never sees the end of the channel. It waits
for as long as it is not dropped and no loop goes on accepting. -/
theorem accept_connection_waits {events : List Event} (ran : run {} events = some s) (drained : Drained events s)
    (awaits : s.Awaits call) : ¬ Ends s call ∧
      ∀ future t, run s future = some t → (∀ e ∈ future, disturbs call e = false) → t.Awaits call := by
  have holds : Holds s := holds_run ran ⟨by simp, by simp⟩
  constructor
  · rintro ⟨future, t, went, ended⟩
    exact (holds_run went holds).unended (List.mem_of_getElem? ended)
  · intro future t went calm
    have admitted : Traces.Admitted step (fun _ e => disturbs call e = false) s future := by
      apply Traces.Admitted.imp Traces.admitted_true
      exact fun _ e member _ => calm e member
    have waits : Waits call t :=
      Traces.keeps (fun _ _ _ waits calm came => Waits.step waits calm came) admitted went
        ⟨holds, drained.handled, drained.taken, awaits⟩
    exact waits.awaits

/-- One connection is served and taken, the listener is closed, and the next connection is awaited. -/
def serving : List Lifecycle.Event :=
  Lifecycle.opened 0 ++ [.loop 0 (.connect (.ok ())), .loop 0 .online,
    .loop 0 (.receive (some (.ok (.text (.ok (.accept { address := "wss://host/$hc/a", id := "1" })))))), .loop 0 (.sent true)]

def closing : List Lifecycle.Event :=
  Lifecycle.closed ++ [.loop 0 .shutdown, .loop 0 (.sent true), .loop 0 .offline, .loop 0 .recheck]

def servedAndClosed : List Event :=
  serving.map .life ++ [.connected 0 (.ok ()), .sent 0, .called 0, .locked 0, .received 0] ++
    closing.map .life ++ [.called 0, .locked 1]

theorem servedAndClosed_drained : ∃ s, run {} servedAndClosed = some s ∧ Drained servedAndClosed s ∧ s.Awaits 1 :=
  ⟨_, rfl, ⟨⟨serving.map .life ++ [.connected 0 (.ok ()), .sent 0, .called 0, .locked 0, .received 0] ++
    [.life .closeCalled, .life .closeNotified], _, rfl, by simp⟩, by decide, rfl⟩, _, _, rfl, rfl⟩

theorem accept_connection_waits_served :
    ∃ s, run {} servedAndClosed = some s ∧ ¬ Ends s 1 := by
  obtain ⟨s, ran, drained, awaits⟩ := servedAndClosed_drained
  exact ⟨s, ran, (accept_connection_waits ran drained awaits).1⟩

/-- With its one loop ended and its one connection taken, the listener leaves the next call waiting. -/
theorem accept_connection_hangs_after_close :
    ¬ ∀ events s call, run {} events = some s → Drained events s → s.Awaits call → Ends s call := by
  intro ends
  obtain ⟨s, ran, drained, awaits⟩ := servedAndClosed_drained
  obtain ⟨future, t, went, ended⟩ := ends _ s 1 ran drained awaits
  have holds : Holds s := holds_run ran ⟨by simp, by simp⟩
  exact (holds_run went holds).unended (List.mem_of_getElem? ended)

end Azbridge.Accepting
