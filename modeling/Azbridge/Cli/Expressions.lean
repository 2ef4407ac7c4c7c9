import Azbridge.Config

/-!
# Forwarding expressions

The parsers of `-L`, `-T`, `-R` and `-H`. An error is the text of a `ConfigError::Parse`.
-/

namespace Azbridge.Expressions
open Text

/-- Negative means UDP. -/
def tryParsePort (s : String) : Option Int :=
  let s := trim s
  if s = "" then none
  else
    let isUdp := endsWith (fun c => c == 'U' || c == 'u') s
    let numStr := if isUdp then String.ofList s.toList.dropLast else s
    match parseI32 numStr with
    | some port => if port ≤ 0 ∨ port > 65535 then none else some (if isUdp then -port else port)
    | none => none

/-- A port with the name that is on the other side of a slash. -/
def parsePortWithName (s : String) : Except String (Int × Option String) :=
  match splitOnce '/' s with
  | some (left, right) =>
    match tryParsePort left with
    | some port => .ok (port, some right)
    | none =>
      match tryParsePort right with
      | some port => .ok (port, some left)
      | none => .error ("Cannot parse port from '" ++ s ++ "'")
  | none =>
    match tryParsePort s with
    | some port => .ok (port, none)
    | none => .error ("Cannot parse port number from '" ++ s ++ "'")

/-! ### Bindings -/

def emptyBinding (kind : String) : String := "Empty binding in " ++ kind ++ " forward expression"

def parseLocalBinding (s : String) : Except String LocalForwardBinding :=
  let s := trim s
  if s = "" then .error (emptyBinding "local")
  else
    match splitOnce ':' s with
    | some (hostPart, portPart) => do
      let (port, portName) ← parsePortWithName portPart
      return { bindAddress := some hostPart, bindPort := port, portName := portName }
    | none =>
      match parsePortWithName s with
      | .error _ => .ok { bindLocalSocket := some s }
      | .ok (port, portName) =>
        if port = 0 then .ok { bindLocalSocket := some s } else .ok { bindPort := port, portName := portName }

/-- The end that `parse_remote_binding` and `parse_remote_binding_legacy` share: no colon. -/
def parseSegment (s : String) : RemoteForwardBinding :=
  match splitOnce '/' s with
  | some (left, right) =>
    match tryParsePort right with
    | some port => { hostPort := port, portName := some left }
    | none =>
      match tryParsePort left with
      | some port => { hostPort := port, portName := some right }
      | none => { localSocket := some s }
  | none =>
    match tryParsePort s with
    | some port => { hostPort := port }
    | none => { localSocket := some s }

def splitPortNamePrefix (s : String) : Option String × String :=
  match splitOnce '/' s with
  | some (left, right) => if (parseU16 left).isSome then (none, s) else (some left, right)
  | none => (none, s)

def parseRemoteBinding (s : String) : Except String RemoteForwardBinding :=
  let s := trim s
  if s = "" then .error (emptyBinding "remote")
  else
    match rsplitOnce ':' s with
    | some (left, right) =>
      match tryParsePort right with
      | some port =>
        let (portName, host) := splitPortNamePrefix left
        .ok { host := some host, hostPort := port, portName := portName }
      | none => .ok { localSocket := some s }
    | none => .ok (parseSegment s)

def parseRemoteBindingLegacy (s : String) : Except String RemoteForwardBinding :=
  let s := trim s
  if s = "" then .error (emptyBinding "remote")
  else
    match splitOnce ':' s with
    | some (host, portSegment) => do
      let (port, portName) ← parsePortWithName portSegment
      return { host := some host, hostPort := port, portName := portName }
    | none => .ok (parseSegment s)

/-- The scheme of an HTTP binding and what follows it. -/
def splitScheme (s : String) : Option (String × String) :=
  match stripPrefix "https/" s with
  | some rest => some ("https", rest)
  | none =>
    match stripPrefix "http/" s with
    | some rest => some ("http", rest)
    | none => none

def defaultPort (scheme : String) : Int := if scheme = "https" then 443 else 80

/-- A number that is a port, written without a suffix. -/
def parseHttpPort (s : String) : Option Int :=
  match parseI32 s with
  | some p => if p > 0 ∧ p ≤ 65535 then some p else none
  | none => none

/-- `[host][/path]` and the port, which is after the last colon if there is one. -/
def splitHttpPort (rest : String) (default : Int) : String × Int :=
  match rsplitOnce ':' rest with
  | some (before, maybePort) =>
    match parseHttpPort maybePort with
    | some p => (before, p)
    | none => (rest, default)
  | none => (rest, default)

/-- `[host][/path]`, taken apart. -/
def splitHostPath (hostPath : String) : Option String × Option String :=
  match splitOnce '/' hostPath with
  | some (h, after) =>
    let p := "/" ++ after
    (if h = "" then none else some h, if p = "/" then none else some p)
  | none => (if hostPath = "" then none else some hostPath, none)

def parseHttpBinding (s : String) : Except String RemoteForwardBinding :=
  let s := trim s
  if s = "" then .error (emptyBinding "HTTP")
  else
    match splitScheme s with
    | none => .error ("HTTP forward binding must start with 'http/' or 'https/', got '" ++ s ++ "'")
    | some (scheme, rest) =>
      let (hostPath, port) := splitHttpPort rest (defaultPort scheme)
      let (host, path) := splitHostPath hostPath
      .ok { host := host, hostPort := port, portName := some scheme, http := true, insecure := false, path := path }

/-! ### Expressions -/

section Expression

variable {β : Type}

/-- The frame of the four parsers: the expression is cut into the relay name and the bindings, and
each binding is parsed. -/
def parseExpression (kind : String) (cut : String → Option (String × String)) (parseBinding : String → Except String β)
    (expr : String) : Except String (String × List β) :=
  let expr := trim expr
  if expr = "" then .error ("Empty " ++ kind ++ " forward expression")
  else
    match cut expr with
    | none => .error ("Invalid " ++ kind ++ " forward expression (no colon separator): '" ++ expr ++ "'")
    | some (relayName, specification) =>
      if relayName = "" then .error ("Empty relay name in " ++ kind ++ " forward expression")
      else if ¬ relayNameRegex relayName = true then .error ("Invalid relay name: '" ++ relayName ++ "'")
      else if specification = "" then .error ("No binding specification in " ++ kind ++ " forward expression")
      else do
        let bindings ← (split ';' specification).mapM parseBinding
        return (relayName, bindings)

/-- `-L` has its relay name after the last colon. -/
def cutLocal (expr : String) : Option (String × String) := (rsplitOnce ':' expr).map Prod.swap

/-- The others have theirs before the first. -/
def cutRemote : String → Option (String × String) := splitOnce ':'

def parseLocalForward (expr : String) : Except String LocalForward := do
  let (relayName, bindings) ← parseExpression "local" cutLocal parseLocalBinding expr
  return { relayName := relayName, bindings := bindings }

def parseRemoteWith (kind : String) (parseBinding : String → Except String RemoteForwardBinding) (expr : String) :
    Except String RemoteForward := do
  let (relayName, bindings) ← parseExpression kind cutRemote parseBinding expr
  return { relayName := relayName, bindings := bindings }

def parseRemoteForward : String → Except String RemoteForward := parseRemoteWith "remote" parseRemoteBinding

def parseRemoteForwardLegacy : String → Except String RemoteForward := parseRemoteWith "remote" parseRemoteBindingLegacy

def parseRemoteHttpForward : String → Except String RemoteForward := parseRemoteWith "HTTP" parseHttpBinding

/-- The texts of the bindings of an expression. -/
def segments (cut : String → Option (String × String)) (expr : String) : List String :=
  match cut (trim expr) with
  | some (_, specification) => split ';' specification
  | none => []

variable {kind : String} {cut : String → Option (String × String)} {parseBinding : String → Except String β}
variable {expr relayName : String} {bindings : List β}

/-- What an accepted expression is made of. -/
theorem parseExpression_ok (parsed : parseExpression kind cut parseBinding expr = .ok (relayName, bindings)) :
    relayNameRegex relayName = true ∧ List.Forall₂ (fun s b => parseBinding s = .ok b) (segments cut expr) bindings := by
  unfold parseExpression at parsed
  dsimp only at parsed
  split at parsed
  · cases parsed
  · unfold segments
    cases found : cut (trim expr) with
    | none =>
      rw [found] at parsed
      cases parsed
    | some sides =>
      obtain ⟨relay, specification⟩ := sides
      rw [found] at parsed
      dsimp only at parsed
      split at parsed
      · cases parsed
      · split at parsed
        · cases parsed
        · next valid =>
          split at parsed
          · cases parsed
          · obtain ⟨parts, read, same⟩ := Fallible.bind_eq_ok.mp parsed
            cases same
            exact ⟨by simpa using valid, Fallible.mapM_eq_ok.mp read⟩

theorem segments_ne_nil (parsed : parseExpression kind cut parseBinding expr = .ok (relayName, bindings)) : bindings ≠ [] := by
  have each := (parseExpression_ok parsed).2
  unfold segments at each
  cases found : cut (trim expr) with
  | some sides =>
    rw [found] at each
    have some_ : split ';' sides.2 ≠ [] := by
      unfold split
      simp
    intro empty
    rw [empty] at each
    exact some_ (List.forall₂_nil_right_iff.mp each)
  | none =>
    unfold parseExpression at parsed
    dsimp only at parsed
    rw [found] at parsed
    split at parsed <;> cases parsed

/-- An expression is accepted if it is cut at a relay name, and its bindings are. -/
theorem parseExpression_of_cut {specification : String} (given : trim expr ≠ "")
    (found : cut (trim expr) = some (relayName, specification)) (valid : relayNameRegex relayName = true)
    (some_ : specification ≠ "") : parseExpression kind cut parseBinding expr = .ok (relayName, bindings) ↔
      List.Forall₂ (fun s b => parseBinding s = .ok b) (split ';' specification) bindings := by
  have named : relayName ≠ "" := by
    rintro rfl
    exact absurd valid (by decide)
  unfold parseExpression
  dsimp only
  rw [if_neg given, found]
  dsimp only
  rw [if_neg named, if_neg (by simpa using valid), if_neg some_, Fallible.bind_eq_ok, ← Fallible.mapM_eq_ok]
  constructor
  · rintro ⟨parts, read, same⟩
    cases same
    exact read
  · intro read
    exact ⟨bindings, read, rfl⟩

theorem parseLocalForward_iff {bindings : List LocalForwardBinding} :
    parseLocalForward expr = .ok { relayName := relayName, bindings := bindings } ↔
      parseExpression "local" cutLocal parseLocalBinding expr = .ok (relayName, bindings) := by
  unfold parseLocalForward
  rw [Fallible.bind_eq_ok]
  constructor
  · rintro ⟨⟨relay, parts⟩, read, same⟩
    cases same
    exact read
  · intro read
    exact ⟨_, read, rfl⟩

theorem parseRemoteWith_iff {parseBinding : String → Except String RemoteForwardBinding} {bindings : List RemoteForwardBinding} :
    parseRemoteWith kind parseBinding expr = .ok { relayName := relayName, bindings := bindings } ↔
      parseExpression kind cutRemote parseBinding expr = .ok (relayName, bindings) := by
  unfold parseRemoteWith
  rw [Fallible.bind_eq_ok]
  constructor
  · rintro ⟨⟨relay, parts⟩, read, same⟩
    cases same
    exact read
  · intro read
    exact ⟨_, read, rfl⟩

theorem parseLocalForward_ok {forward : LocalForward} (parsed : parseLocalForward expr = .ok forward) :
    relayNameRegex forward.relayName = true ∧ forward = { relayName := forward.relayName, bindings := forward.bindings } ∧
      List.Forall₂ (fun s b => parseLocalBinding s = .ok b) (segments cutLocal expr) forward.bindings := by
  obtain ⟨⟨relay, parts⟩, read, same⟩ := Fallible.bind_eq_ok.mp parsed
  cases same
  obtain ⟨valid, each⟩ := parseExpression_ok read
  exact ⟨valid, rfl, each⟩

theorem parseRemoteWith_ok {parseBinding : String → Except String RemoteForwardBinding} {forward : RemoteForward}
    (parsed : parseRemoteWith kind parseBinding expr = .ok forward) :
    relayNameRegex forward.relayName = true ∧ forward = { relayName := forward.relayName, bindings := forward.bindings } ∧
      List.Forall₂ (fun s b => parseBinding s = .ok b) (segments cutRemote expr) forward.bindings := by
  obtain ⟨⟨relay, parts⟩, read, same⟩ := Fallible.bind_eq_ok.mp parsed
  cases same
  obtain ⟨valid, each⟩ := parseExpression_ok read
  exact ⟨valid, rfl, each⟩

end Expression
/-! ### Flags -/

/-- The options that take a forwarding expression. -/
inductive Flag where
  | localForward | remoteForward | remoteForwardLegacy | remoteHttpForward
  deriving DecidableEq, Repr

/-- What an expression is parsed to. -/
inductive Forward where
  | toLocal (forward : LocalForward)
  | toRemote (forward : RemoteForward)
  deriving DecidableEq, Repr

namespace Flag

def parse : Flag → String → Except String Forward
  | .localForward, expr => (parseLocalForward expr).map .toLocal
  | .remoteForward, expr => (parseRemoteForward expr).map .toRemote
  | .remoteForwardLegacy, expr => (parseRemoteForwardLegacy expr).map .toRemote
  | .remoteHttpForward, expr => (parseRemoteHttpForward expr).map .toRemote

def cut : Flag → String → Option (String × String)
  | .localForward => cutLocal
  | _ => cutRemote

end Flag

def Forward.addTo (config : Config) : Forward → Config
  | .toLocal forward => { config with localForward := config.localForward ++ [forward] }
  | .toRemote forward => { config with remoteForward := config.remoteForward ++ [forward] }

/-! ### Expressions that validate -/

/-- A port is there, on either side of the slash if there is one. -/
def namesPort (s : String) : Bool :=
  match splitOnce '/' s with
  | some (left, right) => (tryParsePort left).isSome || (tryParsePort right).isSome
  | none => (tryParsePort s).isSome

/-- A binding that is accepted has a port, and is not the path of a socket. -/
def Flag.hasPort (flag : Flag) (segment : String) : Bool :=
  let s := trim segment
  match flag with
  | .localForward | .remoteForwardLegacy => s.toList.contains ':' || namesPort s
  | .remoteForward =>
    match rsplitOnce ':' s with
    | some (_, right) => (tryParsePort right).isSome
    | none => namesPort s
  | .remoteHttpForward => true

def Admitted (port : Int) : Prop := port ≠ 0 ∧ -65535 ≤ port ∧ port ≤ 65535

theorem not_admitted_zero : ¬ Admitted 0 := fun admitted => admitted.1 rfl

theorem tryParsePort_admitted {s : String} {port : Int} (parsed : tryParsePort s = some port) : Admitted port := by
  unfold tryParsePort at parsed
  dsimp only at parsed
  split at parsed
  · cases parsed
  · split at parsed
    · next number _ =>
      split at parsed
      · cases parsed
      · cases parsed
        unfold Admitted
        split <;> omega
    · cases parsed

theorem parsePortWithName_admitted {s : String} {port : Int} {name : Option String}
    (parsed : parsePortWithName s = .ok (port, name)) : Admitted port := by
  unfold parsePortWithName at parsed
  split at parsed
  · split at parsed
    · next left =>
      cases parsed
      exact tryParsePort_admitted left
    · split at parsed
      · next right =>
        cases parsed
        exact tryParsePort_admitted right
      · cases parsed
  · split at parsed
    · next whole =>
      cases parsed
      exact tryParsePort_admitted whole
    · cases parsed

theorem namesPort_iff {s : String} : namesPort s = true ↔ ∃ found, parsePortWithName s = .ok found := by
  unfold namesPort parsePortWithName
  cases splitOnce '/' s with
  | none =>
    dsimp only
    cases tryParsePort s <;> simp
  | some sides =>
    obtain ⟨left, right⟩ := sides
    dsimp only
    cases tryParsePort left with
    | some port => simp
    | none => cases tryParsePort right <;> simp

theorem parseSegment_admitted {s : String} : Admitted (parseSegment s).hostPort ↔ namesPort s = true := by
  unfold namesPort parseSegment
  cases splitOnce '/' s with
  | none =>
    dsimp only
    cases whole : tryParsePort s with
    | none => simp [not_admitted_zero]
    | some port => simp [tryParsePort_admitted whole]
  | some sides =>
    obtain ⟨left, right⟩ := sides
    dsimp only
    cases second : tryParsePort right with
    | some port => simp [tryParsePort_admitted second]
    | none =>
      cases first : tryParsePort left with
      | some port => simp [tryParsePort_admitted first]
      | none => simp [not_admitted_zero]

theorem parseLocalBinding_admitted {s : String} {b : LocalForwardBinding} (parsed : parseLocalBinding s = .ok b) :
    Admitted b.bindPort ↔ Flag.hasPort .localForward s = true := by
  unfold parseLocalBinding at parsed
  unfold Flag.hasPort
  dsimp only at parsed ⊢
  split at parsed
  · cases parsed
  · cases cut : splitOnce ':' (trim s) with
    | some sides =>
      obtain ⟨host, portPart⟩ := sides
      rw [cut] at parsed
      obtain ⟨⟨port, name⟩, read, same⟩ := Fallible.bind_eq_ok.mp parsed
      cases same
      simp [mem_of_splitOnce cut, parsePortWithName_admitted read]
    | none =>
      rw [cut] at parsed
      dsimp only at parsed
      simp only [List.contains_eq_mem, not_mem_of_splitOnce cut, decide_false, Bool.false_or, namesPort_iff]
      cases read : parsePortWithName (trim s) with
      | error message =>
        rw [read] at parsed
        cases parsed
        simp [not_admitted_zero]
      | ok found =>
        obtain ⟨port, name⟩ := found
        have admitted := parsePortWithName_admitted read
        rw [read] at parsed
        dsimp only at parsed
        rw [if_neg admitted.1] at parsed
        cases parsed
        simp [admitted]

theorem parseRemoteBinding_admitted {s : String} {b : RemoteForwardBinding} (parsed : parseRemoteBinding s = .ok b) :
    Admitted b.hostPort ↔ Flag.hasPort .remoteForward s = true := by
  unfold parseRemoteBinding at parsed
  unfold Flag.hasPort
  dsimp only at parsed ⊢
  split at parsed
  · cases parsed
  · cases cut : rsplitOnce ':' (trim s) with
    | none =>
      rw [cut] at parsed
      cases parsed
      exact parseSegment_admitted
    | some sides =>
      obtain ⟨left, right⟩ := sides
      rw [cut] at parsed
      dsimp only at parsed ⊢
      cases read : tryParsePort right with
      | none =>
        rw [read] at parsed
        cases parsed
        simp [not_admitted_zero]
      | some port =>
        rw [read] at parsed
        cases parsed
        simp [tryParsePort_admitted read]

theorem parseRemoteBindingLegacy_admitted {s : String} {b : RemoteForwardBinding} (parsed : parseRemoteBindingLegacy s = .ok b) :
    Admitted b.hostPort ↔ Flag.hasPort .remoteForwardLegacy s = true := by
  unfold parseRemoteBindingLegacy at parsed
  unfold Flag.hasPort
  dsimp only at parsed ⊢
  split at parsed
  · cases parsed
  · cases cut : splitOnce ':' (trim s) with
    | some sides =>
      obtain ⟨host, portSegment⟩ := sides
      rw [cut] at parsed
      obtain ⟨⟨port, name⟩, read, same⟩ := Fallible.bind_eq_ok.mp parsed
      cases same
      simp [mem_of_splitOnce cut, parsePortWithName_admitted read]
    | none =>
      rw [cut] at parsed
      cases parsed
      simp [not_mem_of_splitOnce cut, parseSegment_admitted]

theorem splitHttpPort_admitted {rest : String} {default : Int} (usual : Admitted default) :
    Admitted (splitHttpPort rest default).2 := by
  unfold splitHttpPort parseHttpPort
  split
  · split
    · next found =>
      split at found
      · split at found
        · next inRange =>
          cases found
          exact ⟨by omega, by omega, inRange.2⟩
        · cases found
      · cases found
    · exact usual
  · exact usual

theorem parseHttpBinding_admitted {s : String} {b : RemoteForwardBinding} (parsed : parseHttpBinding s = .ok b) :
    Admitted b.hostPort ↔ Flag.hasPort .remoteHttpForward s = true := by
  unfold parseHttpBinding at parsed
  dsimp only at parsed
  split at parsed
  · cases parsed
  · split at parsed
    · cases parsed
    · next scheme rest _ =>
      cases parsed
      have usual : Admitted (defaultPort scheme) := by
        unfold defaultPort Admitted
        split <;> omega
      simp [Flag.hasPort, splitHttpPort_admitted usual]

def Forward.Checked (file : String) : Forward → Prop
  | .toLocal forward => Config.validateLocal file forward = .ok ()
  | .toRemote forward => Config.validateRemote file forward = .ok ()

theorem parseLocalForward_checked {expr file : String} {forward : LocalForward} (parsed : parseLocalForward expr = .ok forward) :
    Config.validateLocal file forward = .ok () ↔
      ∀ segment ∈ segments cutLocal expr, Flag.hasPort .localForward segment = true := by
  obtain ⟨valid, -, each⟩ := parseLocalForward_ok parsed
  rw [Config.validateLocal_ok, ← Fallible.forall_mem_congr each fun _ _ => parseLocalBinding_admitted]
  simp [valid, Admitted]

theorem parseRemoteWith_checked {flag : Flag} {kind expr file : String} {parseBinding : String → Except String RemoteForwardBinding}
    (admitted : ∀ s b, parseBinding s = .ok b → (Admitted b.hostPort ↔ flag.hasPort s = true))
    {forward : RemoteForward} (parsed : parseRemoteWith kind parseBinding expr = .ok forward) :
    Config.validateRemote file forward = .ok () ↔ ∀ segment ∈ segments cutRemote expr, flag.hasPort segment = true := by
  obtain ⟨valid, -, each⟩ := parseRemoteWith_ok parsed
  rw [Config.validateRemote_ok, ← Fallible.forall_mem_congr each admitted]
  simp [valid, Admitted]

/-- A forward passes its check exactly if no binding of its expression is a socket. -/
theorem parse_checked {flag : Flag} {expr file : String} {forward : Forward} (parsed : flag.parse expr = .ok forward) :
    forward.Checked file ↔ ∀ segment ∈ segments flag.cut expr, flag.hasPort segment = true := by
  cases flag with
  | localForward =>
    obtain ⟨f, read, rfl⟩ := Fallible.map_eq_ok.mp parsed
    exact parseLocalForward_checked read
  | remoteForward =>
    obtain ⟨f, read, rfl⟩ := Fallible.map_eq_ok.mp parsed
    exact parseRemoteWith_checked (fun _ _ => parseRemoteBinding_admitted) read
  | remoteForwardLegacy =>
    obtain ⟨f, read, rfl⟩ := Fallible.map_eq_ok.mp parsed
    exact parseRemoteWith_checked (fun _ _ => parseRemoteBindingLegacy_admitted) read
  | remoteHttpForward =>
    obtain ⟨f, read, rfl⟩ := Fallible.map_eq_ok.mp parsed
    exact parseRemoteWith_checked (fun _ _ => parseHttpBinding_admitted) read

theorem local_bindings {flag : Flag} {expr : String} {forward : LocalForward} (parsed : flag.parse expr = .ok (.toLocal forward)) :
    forward.bindings ≠ [] := by
  cases flag with
  | localForward =>
    obtain ⟨f, read, same⟩ := Fallible.map_eq_ok.mp parsed
    cases same
    obtain ⟨⟨relay, bindings⟩, whole, same⟩ := Fallible.bind_eq_ok.mp read
    cases same
    exact segments_ne_nil whole
  | _ =>
    obtain ⟨f, _, same⟩ := Fallible.map_eq_ok.mp parsed
    cases same

theorem parseRemoteWith_bindings {kind expr : String} {parseBinding : String → Except String RemoteForwardBinding}
    {forward : RemoteForward} (parsed : parseRemoteWith kind parseBinding expr = .ok forward) : forward.bindings ≠ [] := by
  obtain ⟨⟨relay, bindings⟩, whole, same⟩ := Fallible.bind_eq_ok.mp parsed
  cases same
  exact segments_ne_nil whole

theorem remote_bindings {flag : Flag} {expr : String} {forward : RemoteForward} (parsed : flag.parse expr = .ok (.toRemote forward)) :
    forward.bindings ≠ [] := by
  cases flag with
  | localForward =>
    obtain ⟨f, _, same⟩ := Fallible.map_eq_ok.mp parsed
    cases same
  | _ =>
    obtain ⟨f, read, same⟩ := Fallible.map_eq_ok.mp parsed
    cases same
    exact parseRemoteWith_bindings read

section Validation

variable (lowercase : String → String)

theorem validate_addTo {forward : Forward} :
    (forward.addTo {}).validate lowercase = .ok () ↔ forward.Checked "<unknown>" := by
  unfold Config.validate
  rw [Config.validateWithFile_ok]
  constructor
  · intro valid
    cases forward with
    | toLocal forward => exact valid.forwards.1 forward (.head _)
    | toRemote forward => exact valid.forwards.2 forward (.head _)
  · intro checked
    cases forward with
    | toLocal forward => exact ⟨rfl, rfl, rfl, List.forall_mem_singleton.mpr checked, List.forall_mem_nil _⟩
    | toRemote forward => exact ⟨rfl, rfl, rfl, List.forall_mem_nil _, List.forall_mem_singleton.mpr checked⟩

/-- The forward of an accepted expression passes the validator exactly if no binding of it is a socket. -/
theorem validates_iff {flag : Flag} {expr : String} {forward : Forward} (parsed : flag.parse expr = .ok forward) :
    (forward.addTo {}).validate lowercase = .ok () ↔ ∀ segment ∈ segments flag.cut expr, flag.hasPort segment = true := by
  rw [validate_addTo, parse_checked parsed]

theorem validates_iff_udp : ∃ forward, Flag.parse .remoteForward "dns:name/ns.local:53U;8053" = .ok forward ∧
    (forward.addTo {}).validate id = .ok () := by
  have parsed : Flag.parse .remoteForward "dns:name/ns.local:53U;8053" = .ok (.toRemote { relayName := "dns", bindings :=
    [{ host := some "ns.local", hostPort := -53, portName := some "name" }, { hostPort := 8053 }] }) := by decide +kernel
  exact ⟨_, parsed, (validates_iff id parsed).mpr (by decide +kernel)⟩

/-- The path of a socket is accepted with port zero, which is not. -/
theorem socket_refused : ¬ ∀ (lowercase : String → String) (flag : Flag) (expr : String) (forward : Forward),
    flag.parse expr = .ok forward → (forward.addTo {}).validate lowercase = .ok () := by
  intro all
  have parsed : Flag.parse .localForward "/tmp/sock:my-relay" = .ok (.toLocal { relayName := "my-relay", bindings :=
    [{ bindLocalSocket := some "/tmp/sock" }] }) := by decide +kernel
  have checked := (validate_addTo id).mp (all id _ _ _ parsed)
  rw [parse_checked parsed] at checked
  exact absurd (checked "/tmp/sock" (by decide +kernel)) (by decide +kernel)

end Validation
end Azbridge.Expressions
