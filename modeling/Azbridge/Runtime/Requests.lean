import Azbridge.Lib.Traces
import Azbridge.Runtime.HttpForward

/-!
# HTTP over the control channel

The service announces a body in a command and sends it in the binary messages that follow. The read
loop passes over binary messages and the answers never send one, so only empty bodies arrive.
-/

namespace Azbridge.Requests

open Azbridge.Control Azbridge.Http

/-- A spawned `handle_request`. -/
structure Task where
  command : RequestCommand
  /-- How many messages had come up to and with the command. -/
  arrived : Nat
  given : Option RelayedHttpListenerContext := none
  response : Option RelayedHttpListenerResponse := none
  finished : Bool := false
  /-- Where its answer stands among the messages sent. -/
  position : Option Nat := none

/-- One control channel and the tasks spawned for it. -/
structure Channel where
  /-- `request_handler` is set. -/
  handled : Bool
  /-- `read_control_messages` has not returned. -/
  reading : Bool := true
  received : List Received := []
  tasks : List Task := []
  outgoing : List Sent := []

inductive Event where
  | receive (next : Option (Except String Received))
  /-- The pong or ping of the read loop goes out. -/
  | pong (data : Bytes)
  | ping
  | renew (token : String)
  | dispatch (i : Nat)
  | respond (i : Nat) (response : RelayedHttpListenerResponse)
  | send (i : Nat) (delivered : Bool)

def Task.context (t : Task) : RelayedHttpListenerContext where
  request := .fromCommand t.command none
  trackingId := t.command.id
  rendezvousAddress := some t.command.address

/-- `handle_request` up to the handler's call. -/
def Task.dispatch (handled : Bool) (t : Task) : Option Task :=
  if t.given.isNone ∧ t.finished = false then
    some (if handled then { t with given := some t.context } else { t with finished := true })
  else none

def Task.respond (t : Task) (response : RelayedHttpListenerResponse) : Option Task :=
  if t.given.isSome ∧ t.response.isNone then some { t with response := some response } else none

def step (s : Channel) : Event → Option Channel
  | .receive next =>
    if s.reading then
      let received := s.received ++ (next.bind Except.toOption).toList
      match react next with
      | .request command => some { s with received, tasks := s.tasks ++ [{ command, arrived := received.length }] }
      | .returned _ => some { s with received, reading := false }
      | _ => some { s with received }
    else none
  | .pong data => if s.reading then some { s with outgoing := s.outgoing ++ [.pong data] } else none
  | .ping => if s.reading then some { s with outgoing := s.outgoing ++ [.ping []] } else none
  | .renew token => some { s with outgoing := s.outgoing ++ [.text (.renewToken token)] }
  | .dispatch i =>
    s.tasks[i]?.bind fun t => (t.dispatch s.handled).map fun t' => { s with tasks := s.tasks.set i t' }
  | .respond i response =>
    s.tasks[i]?.bind fun t => (t.respond response).map fun t' => { s with tasks := s.tasks.set i t' }
  | .send i delivered =>
    s.tasks[i]?.bind fun t => t.response.bind fun response =>
      if t.finished then none
      else if delivered then some { s with
        tasks := s.tasks.set i { t with finished := true, position := some s.outgoing.length }
        outgoing := s.outgoing ++ [.text (.response (response.intoCommand t.command.id))] }
      else some { s with tasks := s.tasks.set i { t with finished := true } }

abbrev run := Traces.run step

def bodyBytes {Text : Type} : List (Message Text) → Bytes
  | .binary data :: rest => data ++ bodyBytes rest
  | .ping _ :: rest | .pong _ :: rest => bodyBytes rest
  | _ => []

def Channel.requestBody (s : Channel) (t : Task) : Bytes := bodyBytes (s.received.drop t.arrived)

/-- The handler is given the body that was announced and the service is sent the one announced to it. -/
structure Channel.Delivers (s : Channel) (t : Task) : Prop where
  request : ∀ context ∈ t.given, t.command.body = true → context.request.body.getD [] = s.requestBody t
  response : ∀ k ∈ t.position, ∀ command, s.outgoing[k]? = some (.text (.response command)) → command.body = true →
    ∀ response ∈ t.response, bodyBytes (s.outgoing.drop (k + 1)) = response.body.getD []

/-- No body that was handed over has a byte. -/
structure Channel.Bodiless (s : Channel) (t : Task) : Prop where
  request : t.given.isSome → t.command.body = true → s.requestBody t = []
  response : t.position.isSome → ∀ response ∈ t.response, response.body.getD [] = []

def isBinary {Text : Type} : Message Text → Bool
  | .binary _ => true
  | _ => false

theorem bodyBytes_eq_nil {Text : Type} {messages : List (Message Text)} (none : ∀ m ∈ messages, isBinary m = false) :
    bodyBytes messages = [] := by
  induction messages with
  | nil => rfl
  | cons m rest ih =>
    have below := ih fun m member => none m (List.mem_cons_of_mem _ member)
    have first := none m List.mem_cons_self
    cases m <;> simp_all [bodyBytes, isBinary]

/-- The handler is given no body, the answer stands where the task put it. -/
structure Task.Holds (outgoing : List Sent) (t : Task) : Prop where
  given : ∀ context ∈ t.given, context.request.body = none
  answered : ∀ k ∈ t.position, ∃ response, t.response = some response ∧
    outgoing[k]? = some (.text (.response (response.intoCommand t.command.id)))

structure Holds (s : Channel) : Prop where
  sent : ∀ m ∈ s.outgoing, isBinary m = false
  tasks : ∀ t ∈ s.tasks, t.Holds s.outgoing

theorem Task.Holds.append {outgoing : List Sent} {t : Task} (holds : t.Holds outgoing) (more : List Sent) :
    t.Holds (outgoing ++ more) := by
  refine ⟨holds.given, ?_⟩
  intro k there
  obtain ⟨response, known, found⟩ := holds.answered k there
  have bound := (List.getElem?_eq_some_iff.mp found).1
  exact ⟨response, known, (List.getElem?_append_left bound).trans found⟩

/-- A message goes out that is not a binary one. -/
theorem Holds.post {s : Channel} (holds : Holds s) {m : Sent} (text : isBinary m = false) :
    Holds { s with outgoing := s.outgoing ++ [m] } := by
  constructor
  · intro m' member
    rcases List.mem_append.mp member with old | new
    · exact holds.sent m' old
    · obtain rfl := List.mem_singleton.mp new
      exact text
  · intro t member
    exact (holds.tasks t member).append [m]

theorem Holds.set {s : Channel} (holds : Holds s) {i : Nat} {t : Task} (kept : t.Holds s.outgoing) :
    Holds { s with tasks := s.tasks.set i t } := by
  refine ⟨holds.sent, ?_⟩
  intro t' member
  rcases List.mem_or_eq_of_mem_set member with old | rfl
  · exact holds.tasks t' old
  · exact kept

theorem Task.Holds.dispatch {outgoing : List Sent} {handled : Bool} {t t' : Task} (holds : t.Holds outgoing)
    (came : t.dispatch handled = some t') : t'.Holds outgoing := by
  unfold Task.dispatch at came
  split at came
  · cases handled with
    | true =>
      obtain rfl := Option.some.inj came
      refine ⟨?_, holds.answered⟩
      intro context given
      obtain rfl := Option.some.inj given
      rfl
    | false =>
      obtain rfl := Option.some.inj came
      exact ⟨holds.given, holds.answered⟩
  · cases came

theorem Task.Holds.respond {outgoing : List Sent} {response : RelayedHttpListenerResponse} {t t' : Task}
    (holds : t.Holds outgoing) (came : t.respond response = some t') : t'.Holds outgoing := by
  unfold Task.respond at came
  split at came
  · rename_i waiting
    obtain rfl := Option.some.inj came
    refine ⟨holds.given, ?_⟩
    intro k there
    -- a task with an answer under way has its response already
    obtain ⟨response, known, -⟩ := holds.answered k there
    simp [known] at waiting
  · cases came

theorem Holds.step {s s' : Channel} {e : Event} (holds : Holds s) (came : step s e = some s') : Holds s' := by
  cases e with
  | receive next =>
    unfold Requests.step at came
    dsimp only at came
    split at came
    · split at came <;> obtain rfl := Option.some.inj came
      · refine ⟨holds.sent, ?_⟩
        intro t member
        rcases List.mem_append.mp member with old | new
        · exact holds.tasks t old
        · obtain rfl := List.mem_singleton.mp new
          exact ⟨nofun, nofun⟩
      · exact ⟨holds.sent, holds.tasks⟩
      · exact ⟨holds.sent, holds.tasks⟩
    · cases came
  | pong data =>
    obtain ⟨-, same⟩ := Option.ite_none_right_eq_some.mp came
    obtain rfl := Option.some.inj same
    exact holds.post rfl
  | ping =>
    obtain ⟨-, same⟩ := Option.ite_none_right_eq_some.mp came
    obtain rfl := Option.some.inj same
    exact holds.post rfl
  | renew token =>
    obtain rfl := Option.some.inj came
    exact holds.post rfl
  | dispatch i =>
    obtain ⟨t, there, came⟩ := Option.bind_eq_some_iff.mp came
    obtain ⟨t', moved, rfl⟩ := Option.map_eq_some_iff.mp came
    exact holds.set ((holds.tasks t (List.mem_of_getElem? there)).dispatch moved)
  | respond i response =>
    obtain ⟨t, there, came⟩ := Option.bind_eq_some_iff.mp came
    obtain ⟨t', moved, rfl⟩ := Option.map_eq_some_iff.mp came
    exact holds.set ((holds.tasks t (List.mem_of_getElem? there)).respond moved)
  | send i delivered =>
    obtain ⟨t, there, came⟩ := Option.bind_eq_some_iff.mp came
    obtain ⟨response, known, came⟩ := Option.bind_eq_some_iff.mp came
    have before := holds.tasks t (List.mem_of_getElem? there)
    split at came
    · cases came
    · split at came <;> obtain rfl := Option.some.inj came
      · have posted : Holds { s with outgoing := s.outgoing ++ [.text (.response (response.intoCommand t.command.id))] } :=
          holds.post rfl
        apply posted.set
        refine ⟨before.given, ?_⟩
        intro k there
        obtain rfl := Option.some.inj there
        exact ⟨response, known, by simp⟩
      · exact holds.set ⟨before.given, before.answered⟩

theorem holds_run {handled : Bool} {events : List Event} {s : Channel} (ran : run { handled } events = some s) : Holds s := by
  have all : Traces.Admitted step (fun _ _ => True) { handled } events := Traces.admitted_true
  exact Traces.keeps (fun _ _ _ holds _ came => holds.step came) all ran ⟨by simp, by simp⟩

theorem Holds.bodyBytes_drop {s : Channel} (holds : Holds s) (k : Nat) : bodyBytes (s.outgoing.drop k) = [] :=
  bodyBytes_eq_nil fun m member => holds.sent m (List.mem_of_mem_drop member)

theorem Holds.delivers_iff {s : Channel} (holds : Holds s) {t : Task} (member : t ∈ s.tasks) : s.Delivers t ↔ s.Bodiless t := by
  have own := holds.tasks t member
  constructor
  · intro delivers
    constructor
    · intro handed announced
      obtain ⟨context, given⟩ := Option.isSome_iff_exists.mp handed
      have same := delivers.request context given announced
      rw [own.given context given] at same
      exact same.symm
    · intro placed response known
      obtain ⟨k, there⟩ := Option.isSome_iff_exists.mp placed
      obtain ⟨response', known', found⟩ := own.answered k there
      obtain rfl : response' = response := Option.some.inj (known'.symm.trans known)
      cases body : response'.body with
      | none => rfl
      | some bytes =>
        have same := delivers.response k there _ found (by simp [RelayedHttpListenerResponse.intoCommand, body]) _ known
        rw [holds.bodyBytes_drop, body] at same
        exact same.symm
  · intro bodiless
    constructor
    · intro context given announced
      rw [own.given context given, bodiless.request (Option.isSome_of_mem given) announced]
      rfl
    · intro k there command found announced response known
      rw [holds.bodyBytes_drop, bodiless.response (Option.isSome_of_mem there) response known]

/-- In every run, bodies are delivered exactly if none has a byte. -/
theorem delivered_iff_bodiless {handled : Bool} {events : List Event} {s : Channel}
    (ran : run { handled } events = some s) : (∀ t ∈ s.tasks, s.Delivers t) ↔ ∀ t ∈ s.tasks, s.Bodiless t := by
  have holds := holds_run ran
  constructor
  · intro delivers t member
    exact (holds.delivers_iff member).mp (delivers t member)
  · intro bodiless t member
    exact (holds.delivers_iff member).mpr (bodiless t member)

def localCommand (body : Bool) : RequestCommand where
  address := "wss://rendezvous"
  id := "req-1"
  requestTarget := "/api/items"
  method := "POST"
  body := body

/-- A request is received, handled and answered. -/
def exchange (body : Bool) (frames : List Bytes) (response : RelayedHttpListenerResponse) : List Event :=
  .receive (some (.ok (.text (.ok (.request (localCommand body)))))) ::
    frames.map (fun data => .receive (some (.ok (.binary data)))) ++ [.dispatch 0, .respond 0 response, .send 0 true]

/-- Two requests at a time, one announced with a body that is empty; the later one is answered first. -/
def overlapping : List Event :=
  [.receive (some (.ok (.text (.ok (.request (localCommand true)))))), .receive (some (.ok (.binary []))), .dispatch 0,
    .receive (some (.ok (.ping [1]))), .pong [1],
    .receive (some (.ok (.text (.ok (.request { localCommand false with id := "req-2", method := "GET" }))))), .dispatch 1,
    .respond 1 { body := some [] }, .renew "token", .send 1 true, .respond 0 { statusCode := 204 }, .send 0 true]

theorem overlapping_run : (run { handled := true } overlapping).map (fun s =>
    (s.tasks.map fun t => (t.given.isSome, t.position),
      s.tasks.all fun t => s.requestBody t = [] && t.response.all fun response => response.body.getD [] = [])) =
        some ([(true, some 3), (true, some 2)], true) := by decide +kernel

theorem delivered_iff_bodiless_empty : ∃ s, run { handled := true } overlapping = some s ∧
    s.tasks.map (fun t => (t.given.isSome, t.position)) = [(true, some 3), (true, some 2)] ∧ ∀ t ∈ s.tasks, s.Delivers t := by
  obtain ⟨s, ran, shown⟩ := Option.map_eq_some_iff.mp overlapping_run
  obtain ⟨handled, empty⟩ := Prod.mk.inj shown
  refine ⟨s, ran, handled, (delivered_iff_bodiless ran).mpr ?_⟩
  intro t member
  have none_ := List.all_eq_true.mp empty t member
  simp only [Bool.and_eq_true, decide_eq_true_eq, Option.all_eq_true] at none_
  exact ⟨fun _ _ => none_.1, fun _ response known => none_.2 response known⟩

/-- A posted byte never reaches the handler, and a byte of the answer is announced and not sent. -/
theorem bodies_are_dropped :
    ¬ (∀ events s, run { handled := true } events = some s → ∀ t ∈ s.tasks, ∀ context ∈ t.given,
        t.command.body = true → context.request.body.getD [] = s.requestBody t) ∧
      ¬ ∀ events s, run { handled := true } events = some s → ∀ t ∈ s.tasks, ∀ k ∈ t.position, ∀ command,
        s.outgoing[k]? = some (.text (.response command)) → command.body = true →
          ∀ response ∈ t.response, bodyBytes (s.outgoing.drop (k + 1)) = response.body.getD [] := by
  constructor
  · intro arrives
    have same := arrives (exchange true [[7]] {}) _ rfl _ (List.mem_singleton.mpr rfl) _ rfl rfl
    cases same
  · intro follows
    have same := follows (exchange false [] { body := some [7] }) _ rfl _ (List.mem_singleton.mpr rfl) _ rfl _ rfl rfl _ rfl
    cases same

theorem target_gets_no_body {handled : Bool} {events : List Event} {s : Channel} (ran : run { handled } events = some s)
    {t : Task} (member : t ∈ s.tasks) {context : RelayedHttpListenerContext} (given : t.given = some context)
    (f : HttpRemoteForwarder) (isMethod : String → Bool) : (f.clientRequest isMethod context).body = none :=
  ((holds_run ran).tasks t member).given context given

end Azbridge.Requests
