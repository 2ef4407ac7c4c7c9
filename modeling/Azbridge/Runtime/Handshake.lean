import Azbridge.Runtime.RemoteBridge

/-!
# Handshakes

The preamble as both ends of a connection go through it, up to the first byte that is pumped.
-/

namespace Azbridge.Runtime

/-- What becomes of a forwarder's own socket. -/
structure Target where
  /-- The socket was created and bound; a Unix socket needs neither. -/
  bound : Bool
  /-- It was connected to the target, in time where there is a limit. -/
  connected : Bool
  /-- Its options were set. -/
  configured : Bool
  deriving DecidableEq, Repr

/-- What a forwarder wrote to the relay before it pumped data or gave up. -/
structure Handled where
  response : List UInt8
  pumping : Bool
  deriving DecidableEq, Repr

namespace RemoteForwarder

def opens (target : Target) : RemoteForwarder → Bool
  | .tcp .. => target.bound && target.connected && target.configured
  | .udp .. => target.bound && target.connected
  | .socket .. => target.connected
  | .http .. => false

def handleConnection (target : Target) : RemoteForwarder → Handled
  | .tcp .. =>
    if target.bound && target.connected && target.configured then ⟨writeResponseOk .stream, true⟩ else ⟨[], false⟩
  | .socket .. => if target.connected then ⟨writeResponseOk .stream, true⟩ else ⟨[], false⟩
  -- The response comes before the socket.
  | .udp .. => ⟨writeResponseOk .datagram, target.bound && target.connected⟩
  | .http .. => ⟨[], false⟩

end RemoteForwarder

variable {ι : Type}

/-- What the listener writes, and what of the stream is left to pump if it does. -/
def listen (forwarders : Table String (ι × RemoteForwarder)) (target : ι × RemoteForwarder → Target) (stream : List UInt8) :
    List UInt8 × Option (List UInt8) :=
  match dispatchConnection forwarders stream with
  | .handled forwarder rest =>
    let handled := forwarder.2.handleConnection (target forwarder)
    (handled.response, if handled.pumping then some rest else none)
  | .refused response _ => (response, none)
  | .failed _ => ([], none)

/-- A sender of either mode writes its request and waits for the response. -/
def handshake (request : PreambleRequest) (incoming : List UInt8 → List UInt8) :
    Except PreambleError (PreambleResponse × List UInt8) := do
  let written ← writeRequest request
  readResponse (incoming written)

section Both
variable (forwarders : Table String (ι × RemoteForwarder)) (target : ι × RemoteForwarder → Target)
  (request : PreambleRequest) (up down : List UInt8)

/-- The sender's end. `up` is what it sends after its request, `down` what the target sends once the
listener pumps; a listener that does not pump ends the stream. -/
def sender : Except PreambleError (PreambleResponse × List UInt8) :=
  handshake request fun written =>
    let answered := listen forwarders target (written ++ up)
    answered.1 ++ if answered.2.isSome then down else []

def pumped : Option (List UInt8) :=
  match writeRequest request with
  | .ok written => (listen forwarders target (written ++ up)).2
  | .error _ => none

/-- A forwarder that takes this mode was found for the name, and it reached its target. -/
def Selected : Prop :=
  ∃ f, lookupForwarder forwarders request.portName = some f ∧ f.2.mode = some request.mode ∧ f.2.opens (target f) = true

/-- The sender goes on exactly if a fitting forwarder reached its target and pumps, and then every
byte after the handshake is delivered, either way. -/
def Agreement : Prop :=
  ((∃ answer, sender forwarders target request up down = .ok answer) ↔
    Selected forwarders target request ∧ (pumped forwarders target request up).isSome = true) ∧
  ∀ response rest, sender forwarders target request up down = .ok (response, rest) →
    pumped forwarders target request up = some up ∧ rest = down

/-- The name and the mode select a UDP forwarder that cannot bind or connect its socket. -/
def UdpUnreached : Prop :=
  ∃ i addr portName, lookupForwarder forwarders request.portName = some (i, .udp addr portName) ∧ request.mode = .datagram ∧
    ((target (i, .udp addr portName)).bound && (target (i, .udp addr portName)).connected) = false

end Both

theorem readResponse_ok (mode : ConnectionMode) (rest : List UInt8) :
    readResponse (writeResponseOk mode ++ rest) = .ok (⟨true, mode.toByte⟩, rest) := rfl

theorem readResponse_err (code : UInt8) (rest : List UInt8) :
    readResponse (writeResponseErr code ++ rest) = .error (.rejected code) := rfl

theorem refused_err {forwarders : Table String (ι × RemoteForwarder)} {stream response : List UInt8} {reason : String}
    (refused : dispatchConnection forwarders stream = .refused response reason) : ∃ code, response = writeResponseErr code := by
  unfold dispatchConnection at refused
  split at refused
  · cases refused
  · split at refused
    · cases refused
      exact ⟨0, rfl⟩
    · split at refused <;> cases refused
      · exact ⟨1, rfl⟩
      · exact ⟨255, rfl⟩
      · exact ⟨255, rfl⟩
      · exact ⟨0, rfl⟩

theorem handles_stream {f : RemoteForwarder} (target : Target) (mode : f.mode = some .stream) :
    f.handleConnection target = if f.opens target then ⟨writeResponseOk .stream, true⟩ else ⟨[], false⟩ := by
  cases f with
  | tcp addr portName => rfl
  | socket path portName => rfl
  | udp addr portName => cases mode
  | http portName => cases mode

theorem handles_datagram {f : RemoteForwarder} (target : Target) (mode : f.mode = some .datagram) :
    f.handleConnection target = ⟨writeResponseOk .datagram, f.opens target⟩ := by
  cases f with
  | udp addr portName => rfl
  | tcp addr portName => cases mode
  | socket path portName => cases mode
  | http portName => cases mode

theorem handled_rest {forwarders : Table String (ι × RemoteForwarder)} {stream rest rest' : List UInt8} {request : PreambleRequest}
    {forwarder : ι × RemoteForwarder} (read : readRequest stream = .ok (request, rest))
    (handled : dispatchConnection forwarders stream = .handled forwarder rest') : rest = rest' := by
  unfold dispatchConnection at handled
  rw [read] at handled
  dsimp only at handled
  split at handled
  · cases handled
  · split at handled <;> cases handled <;> rfl

/-- For a name that fits, the two ends agree unless a UDP forwarder accepts before it has its socket. -/
theorem agreement_iff {forwarders : Table String (ι × RemoteForwarder)} {target : ι × RemoteForwarder → Target}
    {request : PreambleRequest} (up down : List UInt8) (fits : request.portName.utf8ByteSize ≤ 255) :
    Agreement forwarders target request up down ↔ ¬ UdpUnreached forwarders target request := by
  obtain ⟨written, wrote⟩ : ∃ written, writeRequest request = .ok written := ⟨_, writeRequest_ok.mpr ⟨fits, rfl⟩⟩
  have read := readRequest_of_written wrote up
  have sends : sender forwarders target request up down =
      readResponse ((listen forwarders target (written ++ up)).1 ++
        if (listen forwarders target (written ++ up)).2.isSome then down else []) := by
    simp [sender, handshake, wrote, bind, Except.bind]
  have pumps : pumped forwarders target request up = (listen forwarders target (written ++ up)).2 := by
    simp [pumped, wrote]
  unfold Agreement
  rw [sends, pumps]
  cases dispatched : dispatchConnection forwarders (written ++ up) with
  | failed error =>
    unfold dispatchConnection at dispatched
    rw [read] at dispatched
    dsimp only at dispatched
    split at dispatched
    · cases dispatched
    · split at dispatched <;> cases dispatched
  | refused response reason =>
    have quiet : listen forwarders target (written ++ up) = (response, none) := by simp [listen, dispatched]
    obtain ⟨code, rfl⟩ := refused_err dispatched
    have unfit : ¬ UdpUnreached forwarders target request := by
      rintro ⟨i, addr, portName, found, mode, -⟩
      have handled : dispatchConnection forwarders (written ++ up) = .handled (i, .udp addr portName) _ :=
        (dispatchConnection_handled read).mpr ⟨found, by simp [RemoteForwarder.mode, mode]⟩
      rw [dispatched] at handled
      cases handled
    have rejected : readResponse (writeResponseErr code) = .error (.rejected code) := rfl
    rw [quiet]
    simp [rejected, unfit]
  | handled forwarder rest =>
    obtain rfl := handled_rest read dispatched
    obtain ⟨found, mode⟩ := (dispatchConnection_handled read).mp dispatched
    have heard : listen forwarders target (written ++ up) =
        ((forwarder.2.handleConnection (target forwarder)).response,
          if (forwarder.2.handleConnection (target forwarder)).pumping then some up else none) := by
      simp [listen, dispatched]
    rw [heard]
    have selected : Selected forwarders target request ↔ forwarder.2.opens (target forwarder) = true := by
      constructor
      · rintro ⟨f, same, -, opened⟩
        rw [found, Option.some.injEq] at same
        exact same ▸ opened
      · exact fun opened => ⟨forwarder, found, mode, opened⟩
    rw [selected]
    cases kind : request.mode with
    | stream =>
      have streams : ¬ UdpUnreached forwarders target request := by
        rintro ⟨i, addr, portName, -, datagram, -⟩
        rw [kind] at datagram
        cases datagram
      rw [handles_stream (target forwarder) (mode.trans (congrArg some kind)), iff_true_right streams]
      cases opened : forwarder.2.opens (target forwarder) with
      | true => simp [readResponse_ok]
      | false => simp [readResponse]
    | datagram =>
      have accepts := handles_datagram (target forwarder) (mode.trans (congrArg some kind))
      have unreached : UdpUnreached forwarders target request ↔ forwarder.2.opens (target forwarder) = false := by
        constructor
        · rintro ⟨i, addr, portName, same, -, closed⟩
          rw [found, Option.some.injEq] at same
          subst same
          exact closed
        · intro closed
          obtain ⟨i, f⟩ := forwarder
          cases f with
          | udp addr portName => exact ⟨i, addr, portName, found, kind, closed⟩
          | _ => simp [RemoteForwarder.mode, kind] at mode
      rw [accepts, unreached]
      cases opened : forwarder.2.opens (target forwarder) with
      | true => simp [readResponse_ok]
      | false =>
        have accepted : readResponse (writeResponseOk .datagram) = .ok (⟨true, 1⟩, []) := rfl
        simp [accepted]

/-- A TCP forwarder that cannot reach its target leaves its sender with an error. -/
theorem agreement_iff_refused : Agreement (ι := Unit) (.ofEntries [("80", (), .tcp (.v4 0 80) "80")])
    (fun _ => ⟨true, false, true⟩) ⟨.stream, "80"⟩ [] [] :=
  (agreement_iff [] [] (by decide)).mpr fun ⟨_, _, _, _, datagram, _⟩ => by cases datagram

/-- A UDP forwarder has accepted the sender when its socket cannot be connected. -/
theorem accepted_without_target : ¬ Agreement (ι := Unit) (.ofEntries [("53U", (), .udp (.v4 0 53) "53U")])
    (fun _ => ⟨true, false, true⟩) ⟨.datagram, "53U"⟩ [] [] := by
  intro agreement
  have accepted : sender (ι := Unit) (.ofEntries [("53U", (), .udp (.v4 0 53) "53U")]) (fun _ => ⟨true, false, true⟩)
      ⟨.datagram, "53U"⟩ [] [] = .ok (⟨true, 1⟩, []) := by
    rfl
  obtain ⟨-, pumping⟩ := agreement.1.mp ⟨_, accepted⟩
  cases pumping

end Azbridge.Runtime
