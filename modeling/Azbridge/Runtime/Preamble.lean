/-!
# Preamble

What the two ends of a relayed connection say to each other before any data is pumped.
-/

namespace Azbridge.Runtime

def majorVersion : UInt8 := 1

def minorVersion : UInt8 := 0

inductive ConnectionMode
  | stream
  | datagram
  deriving DecidableEq, Repr

structure PreambleRequest where
  mode : ConnectionMode
  portName : String
  deriving DecidableEq, Repr

structure PreambleResponse where
  accepted : Bool
  /-- The mode again. -/
  mode : UInt8
  deriving DecidableEq, Repr

inductive PreambleError
  | unsupportedVersion (major minor : UInt8)
  | invalidMode (mode : UInt8)
  | portNameTooLong (length : Nat)
  | rejected (code : UInt8)
  | io
  deriving DecidableEq, Repr

def ConnectionMode.toByte : ConnectionMode → UInt8
  | .stream => 0
  | .datagram => 1

def ConnectionMode.tryFrom (value : UInt8) : Except PreambleError ConnectionMode :=
  if value = 0 then .ok .stream else if value = 1 then .ok .datagram else .error (.invalidMode value)

def bytes (s : String) : List UInt8 := s.toUTF8.data.toList

def writeRequest (request : PreambleRequest) : Except PreambleError (List UInt8) :=
  let portNameBytes := bytes request.portName
  if portNameBytes.length > 255 then .error (.portNameTooLong portNameBytes.length)
  else .ok ([majorVersion, minorVersion, request.mode.toByte, UInt8.ofNat portNameBytes.length] ++ portNameBytes)

/-- `write_request` to a sink that takes every write: nothing is written before the length was checked. -/
def writeRequestTo (sink : List UInt8) (request : PreambleRequest) : Except PreambleError Unit × List UInt8 :=
  match writeRequest request with
  | .ok written => (.ok (), sink ++ written)
  | .error e => (.error e, sink)

/-- So many bytes, and those that stay unread. -/
def readExact (n : Nat) (input : List UInt8) : Except PreambleError (List UInt8 × List UInt8) :=
  if n ≤ input.length then .ok (input.take n, input.drop n) else .error .io

/-- A request, and the bytes that stay unread. -/
def readRequest (input : List UInt8) : Except PreambleError (PreambleRequest × List UInt8) :=
  match input with
  | major :: minor :: mode :: nameLen :: rest =>
    if major ≠ majorVersion then .error (.unsupportedVersion major minor)
    else do
      let mode ← ConnectionMode.tryFrom mode
      let (nameBuf, rest) ← readExact nameLen.toNat rest
      match String.fromUTF8? nameBuf.toByteArray with
      | some portName => .ok (⟨mode, portName⟩, rest)
      | none => .error (.invalidMode 0)
  | _ => .error .io

def writeResponseOk (mode : ConnectionMode) : List UInt8 := [majorVersion, minorVersion, mode.toByte]

def writeResponseErr (errorCode : UInt8) : List UInt8 := [0, 0, errorCode]

def readResponse (input : List UInt8) : Except PreambleError (PreambleResponse × List UInt8) :=
  match input with
  | major :: _ :: mode :: rest => if major = 0 then .error (.rejected mode) else .ok (⟨true, mode⟩, rest)
  | _ => .error .io

theorem tryFrom_toByte (mode : ConnectionMode) : ConnectionMode.tryFrom mode.toByte = .ok mode := by
  cases mode <;> rfl

theorem length_bytes (s : String) : (bytes s).length = s.utf8ByteSize := rfl

theorem fromUTF8_bytes (s : String) : String.fromUTF8? (bytes s).toByteArray = some s := by
  have same : (bytes s).toByteArray = s.toByteArray := by
    apply ByteArray.ext
    rw [List.data_toByteArray]
    simp [bytes]
  rw [same, String.fromUTF8?, dif_pos s.isValidUTF8]
  rfl

theorem writeRequest_ok {request : PreambleRequest} {written : List UInt8} :
    writeRequest request = .ok written ↔ request.portName.utf8ByteSize ≤ 255 ∧
      [majorVersion, minorVersion, request.mode.toByte, UInt8.ofNat request.portName.utf8ByteSize] ++
        bytes request.portName = written := by
  unfold writeRequest
  dsimp only
  rw [length_bytes]
  by_cases fits : request.portName.utf8ByteSize ≤ 255
  · rw [if_neg (by omega), Except.ok.injEq]
    simp [fits]
  · rw [if_pos (by omega)]
    simp [fits]

/-- What was written is read back, and nothing after it is touched. -/
theorem readRequest_of_written {request : PreambleRequest} {written : List UInt8} (h : writeRequest request = .ok written)
    (rest : List UInt8) : readRequest (written ++ rest) = .ok (request, rest) := by
  obtain ⟨fits, rfl⟩ := writeRequest_ok.mp h
  have size : (UInt8.ofNat request.portName.utf8ByteSize).toNat = request.portName.utf8ByteSize := by
    rw [UInt8.toNat_ofNat']
    omega
  have exact : readExact request.portName.utf8ByteSize (bytes request.portName ++ rest) =
      .ok (bytes request.portName, rest) := by
    unfold readExact
    rw [← length_bytes, if_pos (by simp), List.take_left, List.drop_left]
  simp only [List.cons_append, List.nil_append, readRequest, tryFrom_toByte, size]
  rw [if_neg (by simp)]
  simp [bind, Except.bind, exact, fromUTF8_bytes]

theorem readExact_ok {n : Nat} {input data rest : List UInt8} :
    readExact n input = .ok (data, rest) ↔ data.length = n ∧ data ++ rest = input := by
  unfold readExact
  constructor
  · intro h
    split at h
    · next enough =>
      cases h
      exact ⟨List.length_take_of_le enough, List.take_append_drop n input⟩
    · cases h
  · rintro ⟨rfl, rfl⟩
    simp

theorem tryFrom_ok {value : UInt8} {mode : ConnectionMode} (h : ConnectionMode.tryFrom value = .ok mode) : mode.toByte = value := by
  unfold ConnectionMode.tryFrom at h
  split at h
  · next zero =>
    cases h
    exact zero.symm
  · split at h
    · next one =>
      cases h
      exact one.symm
    · cases h

theorem bytes_of_fromUTF8 {name : List UInt8} {s : String} (h : String.fromUTF8? name.toByteArray = some s) : bytes s = name := by
  unfold String.fromUTF8? at h
  split at h
  · cases h
    show (List.toByteArray name).data.toList = name
    simp
  · cases h

/-- What is accepted is what is written for the result, up to the minor version. -/
theorem written_of_readRequest {input rest : List UInt8} {request : PreambleRequest} (h : readRequest input = .ok (request, rest)) :
    ∃ minor, writeRequest request =
        .ok ([majorVersion, minorVersion, request.mode.toByte, UInt8.ofNat request.portName.utf8ByteSize] ++ bytes request.portName) ∧
      [majorVersion, minor, request.mode.toByte, UInt8.ofNat request.portName.utf8ByteSize] ++ bytes request.portName ++ rest =
        input := by
  unfold readRequest at h
  split at h
  · next major minor mode nameLen after =>
    split at h
    · cases h
    · next version =>
      have version := Classical.not_not.mp version
      cases moded : ConnectionMode.tryFrom mode with
      | error e => simp [moded, bind, Except.bind] at h
      | ok found =>
        cases named : readExact nameLen.toNat after with
        | error e => simp [moded, named, bind, Except.bind] at h
        | ok read =>
          obtain ⟨nameBuf, unread⟩ := read
          simp only [moded, named, bind, Except.bind] at h
          split at h
          · next portName decoded =>
            cases h
            obtain ⟨size, rfl⟩ := readExact_ok.mp named
            have name := bytes_of_fromUTF8 decoded
            have length : portName.utf8ByteSize = nameLen.toNat := by rw [← length_bytes, name, size]
            have short : portName.utf8ByteSize ≤ 255 := by
              have bound := nameLen.toNat_lt
              omega
            have same : UInt8.ofNat portName.utf8ByteSize = nameLen := by rw [length, UInt8.ofNat_toNat]
            refine ⟨minor, writeRequest_ok.mpr ⟨short, rfl⟩, ?_⟩
            rw [same, name, tryFrom_ok moded, version]
            rfl
          · cases h
  · cases h

/-- A request is read back from what was written for it and leaves what follows; a longer name writes
nothing; and what is accepted was written for the result, up to the minor version. -/
theorem preamble_codec :
    (∀ (request : PreambleRequest) (sink rest : List UInt8), request.portName.utf8ByteSize ≤ 255 →
      ∃ written, writeRequestTo sink request = (.ok (), sink ++ written) ∧
        readRequest (written ++ rest) = .ok (request, rest)) ∧
    (∀ (request : PreambleRequest) (sink : List UInt8), 255 < request.portName.utf8ByteSize →
      writeRequestTo sink request = (.error (.portNameTooLong request.portName.utf8ByteSize), sink)) ∧
    ∀ (input rest : List UInt8) (request : PreambleRequest), readRequest input = .ok (request, rest) →
      ∃ written minor, writeRequestTo [] request = (.ok (), written) ∧ written.set 1 minor ++ rest = input := by
  refine ⟨?_, ?_, ?_⟩
  · intro request sink rest short
    have wrote := writeRequest_ok.mpr ⟨short, rfl⟩
    refine ⟨_, ?_, readRequest_of_written wrote rest⟩
    simp only [writeRequestTo, wrote]
  · intro request sink long
    have refused : writeRequest request = .error (.portNameTooLong request.portName.utf8ByteSize) := by
      unfold writeRequest
      dsimp only
      rw [length_bytes, if_pos (by omega)]
    simp only [writeRequestTo, refused]
  · intro input rest request read
    obtain ⟨minor, wrote, same⟩ := written_of_readRequest read
    have sent : writeRequestTo [] request = (.ok (), [majorVersion, minorVersion, request.mode.toByte,
        UInt8.ofNat request.portName.utf8ByteSize] ++ bytes request.portName) := by
      simp only [writeRequestTo, wrote, List.nil_append]
    exact ⟨_, minor, sent, same⟩

/-- A name of two bytes, and a byte after the request. -/
theorem preamble_codec_named : ∃ written, writeRequestTo [] ⟨.datagram, "é"⟩ = (.ok (), [] ++ written) ∧
    readRequest (written ++ [9]) = .ok (⟨.datagram, "é"⟩, [9]) :=
  preamble_codec.1 ⟨.datagram, "é"⟩ [] [9] (by decide)

end Azbridge.Runtime
