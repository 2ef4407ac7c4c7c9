import Azbridge.Lib.Traces
import Azbridge.Runtime.Control

/-!
# Opening and closing a listener

`close` clears a flag and wakes the loops that wait. A control loop reads the flag at two places
only, so a `close` that finds it elsewhere goes unheard, and an `open` that finds it running adds
a second one.
-/

namespace Azbridge.Lifecycle

open Azbridge.Control

inductive ConnectionStatus where
  | connecting | online | offline
  deriving DecidableEq, Repr

/-- `RECONNECT_DELAYS` in seconds. -/
def reconnectDelays : List Nat := [0, 1, 2, 5, 10, 30]

def reconnectDelay (index : Nat) : Nat := reconnectDelays.getD (min index (reconnectDelays.length - 1)) 0

/-- Where a `control_loop` is between two of its steps. -/
inductive Point where
  /-- Before the check of the flag that starts a round. -/
  | entering
  | announcing
  | connecting
  | established
  /-- In the select of `read_control_messages`, perhaps woken. -/
  | listening (woken : Bool)
  /-- A branch was taken and may wait to send. -/
  | handling (reply : Option Sent)
  | failed (error : String)
  | leaving
  /-- Before the check of the flag after a round. -/
  | rechecking
  /-- In the select of the backoff, perhaps woken. -/
  | waiting (delay : Nat) (woken : Bool)
  | ended

structure Loop where
  point : Point := .entering
  reconnectIndex : Nat := 0

def Loop.goto (l : Loop) (point : Point) : Loop := { l with point }

/-- `ListenerInner`, as far as `open`, `close` and the loops share it. -/
structure Inner where
  isOpen : Bool := false
  status : ConnectionStatus := .offline
  lastError : Option String := none

inductive Move where
  | check
  | announce
  | connect (result : Except String Unit)
  | online
  | receive (next : Option (Except String Received))
  | tick
  | sent (delivered : Bool)
  | record
  | offline
  | recheck
  | sleep
  | shutdown

/-- One step of `control_loop`. -/
def move (inner : Inner) (l : Loop) (m : Move) : Option (Inner × Loop) :=
  match l.point, m with
  | .entering, .check => some (inner, l.goto (if inner.isOpen then .announcing else .ended))
  | .announcing, .announce => some ({ inner with status := .connecting }, l.goto .connecting)
  | .connecting, .connect (.ok ()) => some (inner, ⟨.established, 0⟩)
  | .connecting, .connect (.error e) => some (inner, l.goto (.failed e))
  | .established, .online => some ({ inner with status := .online }, l.goto (.listening false))
  | .listening _, .receive next =>
    some (inner, l.goto (match react next with
      | .accept _ | .request _ | .ignored => .handling none
      | .pong data => .handling (some (.pong data))
      | .returned (.ok ()) => .leaving
      | .returned (.error e) => .failed e))
  | .listening _, .tick => some (inner, l.goto (.handling (some (.ping []))))
  | .listening true, .shutdown => some (inner, l.goto (.handling (some .close)))
  | .handling (some (.ping _)), .sent false => some (inner, l.goto (.failed "ping send failed"))
  | .handling (some .close), .sent _ => some (inner, l.goto .leaving)
  | .handling _, .sent _ => some (inner, l.goto (.listening false))
  | .failed e, .record => some ({ inner with lastError := some e }, l.goto .leaving)
  | .leaving, .offline => some ({ inner with status := .offline }, l.goto .rechecking)
  | .rechecking, .recheck =>
    some (inner, if inner.isOpen then ⟨.waiting (reconnectDelay l.reconnectIndex) false, l.reconnectIndex + 1⟩
      else l.goto .ended)
  | .waiting _ _, .sleep => some (inner, l.goto .entering)
  | .waiting _ true, .shutdown => some (inner, l.goto .ended)
  | _, _ => none

/-- `notify_waiters` reaches the loops that wait in a select. -/
def Loop.wake (l : Loop) : Loop :=
  match l.point with
  | .listening _ => l.goto (.listening true)
  | .waiting delay _ => l.goto (.waiting delay true)
  | _ => l

/-- Where the call to `open` or `close` in progress is. -/
inductive Caller where
  | idle
  | opening
  | spawning
  | closing
  | resting
  deriving DecidableEq, Repr

structure State where
  inner : Inner := {}
  caller : Caller := .idle
  /-- The control loops in the order in which they were spawned. -/
  loops : List Loop := []

inductive Event where
  | openCalled
  | openAnnounced
  | openReturned
  | closeCalled
  | closeNotified
  | closeReturned
  | loop (i : Nat) (m : Move)

def step (s : State) : Event → Option State
  | .openCalled =>
    if s.caller = .idle then some { s with inner := { s.inner with isOpen := true }, caller := .opening } else none
  | .openAnnounced =>
    if s.caller = .opening then some { s with inner := { s.inner with status := .connecting }, caller := .spawning } else none
  | .openReturned => if s.caller = .spawning then some { s with caller := .idle, loops := s.loops ++ [{}] } else none
  | .closeCalled =>
    if s.caller = .idle then some { s with inner := { s.inner with isOpen := false }, caller := .closing } else none
  | .closeNotified => if s.caller = .closing then some { s with caller := .resting, loops := s.loops.map Loop.wake } else none
  | .closeReturned =>
    if s.caller = .resting then some { s with inner := { s.inner with status := .offline }, caller := .idle } else none
  | .loop i m =>
    s.loops[i]?.bind fun l =>
      (move s.inner l m).map fun moved => { s with inner := moved.1, loops := s.loops.set i moved.2 }

abbrev run := Traces.run step

namespace Point

def busy : Point → Bool
  | .connecting | .established | .listening _ | .handling _ => true
  | _ => false

def isOver : Point → Bool
  | .ended | .waiting _ true => true
  | _ => false

/-- It waits in a select or comes to a check of the flag before it does anything else. -/
def hears : Point → Bool
  | .handling (some .close) => true
  | .announcing | .connecting | .established | .handling _ => false
  | _ => true

/-- With the flag clear, nothing is announced or served from here. -/
def quiet : Point → Bool
  | .listening woken => woken
  | point => point.hears

/-- With this flag, no round is begun from here. -/
def dormant (isOpen : Bool) : Point → Bool
  | .entering => !isOpen
  | point => point.isOver

end Point

/-- The step announces a loop as connecting or online, or serves its channel. -/
def Event.serves : Event → Bool
  | .loop _ .announce | .loop _ .online | .loop _ .tick => true
  | .loop _ (.receive next) => !ends next
  | _ => false

/-- A woken select takes its shutdown branch or a message that ends the channel; a woken backoff
may run out once the flag is clear. -/
def heeds (isOpen : Bool) (l : Loop) (m : Move) : Bool :=
  match l.point, m with
  | .listening true, .tick => false
  | .listening true, .receive next => ends next
  | .waiting _ true, .sleep => !isOpen
  | _, _ => true

/-- No `close` goes unheard and no `open` finds a loop that goes on. -/
def careful (s : State) : Event → Bool
  | .openCalled => s.loops.all fun l => l.point.isOver
  | .closeNotified => s.loops.all fun l => l.point.hears
  | .loop i m => s.loops[i]?.all fun l => heeds s.inner.isOpen l m
  | _ => true

/-- At most one loop connects or serves. -/
def State.Alone (s : State) : Prop :=
  ∀ (i j : Nat) (l l' : Loop), s.loops[i]? = some l → s.loops[j]? = some l' → l.point.busy = true → l'.point.busy = true → i = j

/-- Once a `close` has returned, nothing is served until the next `open`. -/
def Settled (events : List Event) : Prop :=
  ∀ before after, events = before ++ .closeReturned :: after → .openCalled ∉ after → ∀ e ∈ after, e.serves = false

/-! ### One step of a loop -/

section Loops

variable {isOpen : Bool} {inner inner' : Inner} {l l' : Loop} {m : Move}

theorem isOver_dormant (isOver : l.point.isOver = true) : l.point.dormant isOpen = true := by
  obtain ⟨point, index⟩ := l
  cases point <;> simp_all [Point.dormant, Point.isOver]

theorem dormant_clear (dormant : l.point.dormant isOpen = true) : l.point.dormant false = true := by
  obtain ⟨point, index⟩ := l
  cases point <;> simp_all [Point.dormant]

theorem dormant_busy (dormant : l.point.dormant isOpen = true) : l.point.busy = false := by
  obtain ⟨point, index⟩ := l
  cases point <;> simp_all [Point.dormant, Point.busy, Point.isOver]

theorem wake_dormant (dormant : l.point.dormant isOpen = true) : l.wake.point.dormant isOpen = true := by
  obtain ⟨point, index⟩ := l
  cases point <;> simp_all [Point.dormant, Loop.wake, Loop.goto, Point.isOver]

theorem wake_quiet (hears : l.point.hears = true) : l.wake.point.quiet = true := by
  obtain ⟨point, index⟩ := l
  cases point <;> simp_all [Point.quiet, Loop.wake, Loop.goto, Point.hears]

theorem move_isOpen (moved : move inner l m = some (inner', l')) : inner'.isOpen = inner.isOpen := by
  unfold move at moved
  split at moved <;> cases moved <;> rfl

theorem move_dormant (moved : move inner l m = some (inner', l')) (heeded : heeds inner.isOpen l m = true)
    (dormant : l.point.dormant inner.isOpen = true) : l'.point.dormant inner.isOpen = true := by
  unfold move at moved
  split at moved <;> rename_i here _ <;> cases moved <;> simp_all [Point.dormant, Point.isOver, Loop.goto]
  -- a woken backoff runs out only when the next check will end the loop
  cases here <;> simp_all [heeds]

theorem move_quiet (moved : move inner l m = some (inner', l')) (heeded : heeds inner.isOpen l m = true)
    (clear : inner.isOpen = false) (quiet : l.point.quiet = true) : l'.point.quiet = true := by
  unfold move at moved
  split at moved <;> cases moved <;> simp_all [heeds, Point.quiet, Point.hears, Loop.goto]
  obtain ⟨result, reaction⟩ := ends_iff.mp heeded
  cases result <;> simp [reaction]

theorem move_serves {i : Nat} (moved : move inner l m = some (inner', l')) (heeded : heeds inner.isOpen l m = true)
    (quiet : l.point.quiet = true) : (Event.loop i m).serves = false := by
  unfold move at moved
  split at moved <;> simp_all [heeds, Point.quiet, Point.hears, Event.serves]

end Loops

/-! ### What every careful run keeps -/

/-- Only the loop spawned last may go on, none does while `open` is under way, and all have heard a
`close` that has told them. -/
structure Holds (s : State) : Prop where
  apart : ∀ i l, s.loops[i]? = some l → i + 1 < s.loops.length → l.point.dormant s.inner.isOpen = true
  opens : s.caller = .opening ∨ s.caller = .spawning →
    s.inner.isOpen = true ∧ ∀ l ∈ s.loops, l.point.dormant s.inner.isOpen = true
  closes : s.caller = .closing ∨ s.caller = .resting → s.inner.isOpen = false
  heard : s.caller = .resting → ∀ l ∈ s.loops, l.point.quiet = true

variable {s t : State} {e : Event}

theorem guarded {p : Prop} [Decidable p] (came : (if p then some s else none) = some t) : p ∧ s = t := by
  simpa using came

theorem loop_step {i : Nat} {m : Move} (came : step s (.loop i m) = some t) : ∃ l inner l', s.loops[i]? = some l ∧
    move s.inner l m = some (inner, l') ∧ t = { s with inner, loops := s.loops.set i l' } := by
  obtain ⟨l, there, moved⟩ := Option.bind_eq_some_iff.mp came
  obtain ⟨⟨inner, l'⟩, moved, same⟩ := Option.map_eq_some_iff.mp moved
  exact ⟨l, inner, l', there, moved, same.symm⟩

theorem Holds.alone (holds : Holds s) : s.Alone := by
  intro i j l l' first second busy busy'
  have idle : ∀ (i : Nat) l, s.loops[i]? = some l → l.point.busy = true → s.loops.length ≤ i + 1 := by
    intro i l there busy
    by_contra earlier
    have dormant := holds.apart i l there (by omega)
    rw [dormant_busy dormant] at busy
    cases busy
  have left := idle i l first busy
  have right := idle j l' second busy'
  have bound := (List.getElem?_eq_some_iff.mp first).1
  have bound' := (List.getElem?_eq_some_iff.mp second).1
  omega

theorem Holds.loop (holds : Holds s) {i : Nat} {m : Move} (heeded : careful s (.loop i m) = true)
    (came : step s (.loop i m) = some t) : Holds t := by
  obtain ⟨l, inner, l', there, moved, rfl⟩ := loop_step came
  have heeds' : heeds s.inner.isOpen l m = true := by simpa [careful, there] using heeded
  have flag := move_isOpen moved
  have member := List.mem_of_getElem? there
  refine ⟨?_, ?_, ?_, ?_⟩
  · intro j x found bound
    rw [List.length_set] at bound
    show x.point.dormant inner.isOpen = true
    rw [flag]
    rw [List.getElem?_set] at found
    split at found
    · rename_i same
      subst same
      split at found
      · obtain rfl := Option.some.inj found
        exact move_dormant moved heeds' (holds.apart i l there bound)
      · cases found
    · exact holds.apart j x found bound
  · intro opening
    obtain ⟨opened, dormant⟩ := holds.opens opening
    refine ⟨flag.trans opened, ?_⟩
    intro x inside
    show x.point.dormant inner.isOpen = true
    rw [flag]
    cases List.mem_or_eq_of_mem_set inside with
    | inl old => exact dormant x old
    | inr new =>
      subst new
      exact move_dormant moved heeds' (dormant l member)
  · intro closing
    exact flag.trans (holds.closes closing)
  · intro resting x inside
    cases List.mem_or_eq_of_mem_set inside with
    | inl old => exact holds.heard resting x old
    | inr new =>
      subst new
      exact move_quiet moved heeds' (holds.closes (.inr resting)) (holds.heard resting l member)

theorem Holds.step (holds : Holds s) (heeded : careful s e = true) (came : step s e = some t) : Holds t := by
  cases e with
  | openCalled =>
    obtain ⟨idle, rfl⟩ := guarded came
    have isOver : ∀ l ∈ s.loops, l.point.isOver = true := List.all_eq_true.mp heeded
    exact ⟨fun i l there _ => isOver_dormant (isOver l (List.mem_of_getElem? there)),
      fun _ => ⟨rfl, fun l member => isOver_dormant (isOver l member)⟩, by simp, by simp⟩
  | openAnnounced =>
    obtain ⟨opening, rfl⟩ := guarded came
    exact ⟨holds.apart, fun _ => holds.opens (.inl opening), by simp, by simp⟩
  | openReturned =>
    obtain ⟨spawning, rfl⟩ := guarded came
    refine ⟨?_, by simp, by simp, by simp⟩
    intro i l there bound
    rw [List.length_append, List.length_singleton] at bound
    rw [List.getElem?_append_left (by omega)] at there
    exact (holds.opens (.inr spawning)).2 l (List.mem_of_getElem? there)
  | closeCalled =>
    obtain ⟨idle, rfl⟩ := guarded came
    exact ⟨fun i l there bound => dormant_clear (holds.apart i l there bound), by simp, fun _ => rfl, by simp⟩
  | closeNotified =>
    obtain ⟨closing, rfl⟩ := guarded came
    have hears : ∀ l ∈ s.loops, l.point.hears = true := List.all_eq_true.mp heeded
    refine ⟨?_, by simp, fun _ => holds.closes (.inl closing), ?_⟩
    · intro i x there bound
      rw [List.getElem?_map] at there
      obtain ⟨l, found, rfl⟩ := Option.map_eq_some_iff.mp there
      exact wake_dormant (holds.apart i l found (by simpa using bound))
    · intro _ x inside
      obtain ⟨l, member, rfl⟩ := List.mem_map.mp inside
      exact wake_quiet (hears l member)
  | closeReturned =>
    obtain ⟨resting, rfl⟩ := guarded came
    exact ⟨holds.apart, by simp, by simp, by simp⟩
  | loop i m => exact holds.loop heeded came

/-- The flag is clear, no call is about to set it, and every loop is quiet. -/
structure Silent (s : State) : Prop where
  clear : s.inner.isOpen = false
  settled : s.caller ≠ .opening ∧ s.caller ≠ .spawning
  quiet : ∀ l ∈ s.loops, l.point.quiet = true

theorem Holds.silent (holds : Holds s) (came : Lifecycle.step s .closeReturned = some t) : Silent t := by
  obtain ⟨resting, rfl⟩ := guarded came
  exact ⟨holds.closes (.inr resting), by simp, holds.heard resting⟩

theorem Silent.step (silent : Silent s) (heeded : careful s e = true) (unopened : e ≠ .openCalled)
    (came : step s e = some t) : Silent t := by
  cases e with
  | openCalled => exact absurd rfl unopened
  | openAnnounced => exact absurd (guarded came).1 silent.settled.1
  | openReturned => exact absurd (guarded came).1 silent.settled.2
  | closeCalled =>
    obtain ⟨_, rfl⟩ := guarded came
    exact ⟨rfl, by simp, silent.quiet⟩
  | closeNotified =>
    obtain ⟨_, rfl⟩ := guarded came
    refine ⟨silent.clear, by simp, ?_⟩
    intro x inside
    obtain ⟨l, member, rfl⟩ := List.mem_map.mp inside
    exact wake_quiet (List.all_eq_true.mp heeded l member)
  | closeReturned =>
    obtain ⟨_, rfl⟩ := guarded came
    exact ⟨silent.clear, by simp, silent.quiet⟩
  | loop i m =>
    obtain ⟨l, inner, l', there, moved, rfl⟩ := loop_step came
    have heeds' : heeds s.inner.isOpen l m = true := by simpa [careful, there] using heeded
    refine ⟨(move_isOpen moved).trans silent.clear, silent.settled, ?_⟩
    intro x inside
    cases List.mem_or_eq_of_mem_set inside with
    | inl old => exact silent.quiet x old
    | inr new =>
      subst new
      exact move_quiet moved heeds' silent.clear (silent.quiet l (List.mem_of_getElem? there))

theorem Silent.serves (silent : Silent s) (heeded : careful s e = true) (came : Lifecycle.step s e = some t) :
    e.serves = false := by
  cases e with
  | loop i m =>
    obtain ⟨l, inner, l', there, moved, rfl⟩ := loop_step came
    have heeds' : heeds s.inner.isOpen l m = true := by simpa [careful, there] using heeded
    exact move_serves moved heeds' (silent.quiet l (List.mem_of_getElem? there))
  | _ => rfl

/-- A run in which every `close` is heard and no `open` comes too early. -/
abbrev Heard (events : List Event) : Prop := Traces.Admitted Lifecycle.step (fun s e => careful s e = true) {} events

theorem holds_run {events : List Event} (heard : Heard events) (ran : run {} events = some s) : Holds s :=
  Traces.keeps (fun _ _ _ holds heeded came => Holds.step holds heeded came) heard ran
    ⟨by simp, by simp, by simp, by simp⟩

/-- In such a run no two loops connect or serve at once, and `close` lasts until the next `open`. -/
theorem heard_runs_are_safe {events : List Event} (heard : Heard events) (ran : run {} events = some s) :
    s.Alone ∧ Settled events := by
  refine ⟨(holds_run heard ran).alone, ?_⟩
  rintro before after rfl unopened e member
  obtain ⟨t, ran, rest⟩ := Traces.run_split ran
  obtain ⟨heard, later⟩ := Traces.admitted_append heard
  have holds := holds_run heard ran
  obtain ⟨u, came, rest⟩ := Option.bind_eq_some_iff.mp rest
  have closed : Silent u := holds.silent came
  have calm : Traces.Admitted Lifecycle.step (fun s e => careful s e = true ∧ e ≠ .openCalled) u after := by
    apply Traces.Admitted.imp ((later t ran).2 u came)
    intro s e member heeded
    refine ⟨heeded, ?_⟩
    rintro rfl
    exact unopened member
  obtain ⟨v, w, silent, ⟨heeded, -⟩, came⟩ :=
    Traces.comes (fun _ _ _ silent admitted came => Silent.step silent admitted.1 admitted.2 came) calm rest closed e member
  exact silent.serves heeded came

/-- `open` and one round of its loop as far as the awaited connection. -/
def opened (i : Nat) : List Event :=
  [.openCalled, .openAnnounced, .openReturned, .loop i .check, .loop i .announce]

def closed : List Event := [.closeCalled, .closeNotified, .closeReturned]

/-- The channel is served, closed while the loop waits, and reopened once the loop has ended. -/
def reopened : List Event :=
  opened 0 ++ [.loop 0 (.connect (.ok ())), .loop 0 .online, .loop 0 (.receive (some (.ok (.ping [1])))), .loop 0 (.sent true)] ++
    closed ++ [.loop 0 .shutdown, .loop 0 (.sent true), .loop 0 .offline, .loop 0 .recheck] ++ opened 1

theorem heard_runs_are_safe_reopened : ∃ s, run {} reopened = some s ∧ s.Alone ∧ Settled reopened :=
  ⟨_, rfl, heard_runs_are_safe (by decide) rfl⟩

/-- Closed while the loop awaits its connection, the loop goes online; reopened before it does, a
second loop connects as well. -/
theorem close_during_connect_goes_unheard :
    ¬ (∀ events s, run {} events = some s → Settled events) ∧ ¬ ∀ events s, run {} events = some s → s.Alone := by
  constructor
  · intro settles
    have settled := settles (opened 0 ++ closed ++ [.loop 0 (.connect (.ok ())), .loop 0 .online]) _ rfl
    have silent := settled (opened 0 ++ [.closeCalled, .closeNotified]) _ rfl (by simp) (.loop 0 .online) (by simp)
    cases silent
  · intro isolates
    have alone := isolates (opened 0 ++ closed ++ opened 1) _ rfl
    exact absurd (alone 0 1 _ _ rfl rfl rfl rfl) (by decide)

end Azbridge.Lifecycle
