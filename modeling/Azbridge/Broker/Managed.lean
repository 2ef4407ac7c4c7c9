import Azbridge.Broker.Profiles

/-!
# Managed configurations

What is known of a configuration that was accepted for a profile.
-/

namespace Azbridge.Broker.Profiles

theorem errorIf_eq_nil {condition : Bool} {message : String} : errorIf condition message = [] ↔ condition = false := by
  cases condition <;> simp [errorIf]

/-- What a profile's configuration is checked for, apart from the fields it may not have. -/
structure Managed (lowercase : String → String) (config : Config) : Prop where
  localForward : ∀ forward ∈ config.localForward, forward.bindings ≠ [] ∧
    ∀ binding ∈ forward.bindings, localSocketErrors binding = []
  remoteForward : ∀ forward ∈ config.remoteForward, forward.bindings ≠ [] ∧
    ∀ binding ∈ forward.bindings, remoteSocketErrors binding = []
  valid : (checked config).validate lowercase = .ok ()

/-- A configuration that was read, without anything wrong with it. -/
structure Clean (app : App) (read : Config) (raw : Yaml) : Prop where
  forbidden : ∀ field ∈ forbiddenFields read, field.2 = false
  rules : (read.localForward.isEmpty && read.remoteForward.isEmpty) = false
  locals : ∀ forward ∈ read.localForward, ∃ index, localErrors raw index forward = []
  remotes : ∀ forward ∈ read.remoteForward, ∃ index, remoteErrors raw index forward = []
  localSockets : ∀ forward ∈ (normalized read).localForward, ∀ binding ∈ forward.bindings, localSocketErrors binding = []
  remoteSockets : ∀ forward ∈ (normalized read).remoteForward, ∀ binding ∈ forward.bindings, remoteSocketErrors binding = []
  valid : (checked (normalized read)).validate app.lowercase = .ok ()

theorem clean_of_parse {app : App} {yaml : String} {config : Config} (h : parseManagedConfig app yaml = .ok config) :
    ∃ read raw, Clean app read raw ∧ config = normalized read := by
  unfold parseManagedConfig at h
  split at h
  · cases h
  split at h
  · cases h
  split at h
  · next read ignored raw found value =>
    split at h
    · next clean =>
      cases h
      unfold managedErrors at clean
      simp only [List.append_eq_nil_iff, List.flatten_eq_nil_iff, List.flatMap_eq_nil_iff, List.mem_mapIdx] at clean
      obtain ⟨⟨⟨⟨⟨⟨⟨-, forbidden⟩, rules⟩, locals⟩, remotes⟩, localSockets⟩, remoteSockets⟩, valid⟩ := clean
      refine ⟨read, raw, ⟨?_, errorIf_eq_nil.mp rules, ?_, ?_, localSockets, remoteSockets, ?_⟩, rfl⟩
      · intro field member
        have absent := List.filterMap_eq_nil_iff.mp forbidden field member
        by_contra present
        rw [Bool.not_eq_false] at present
        simp [present] at absent
      · intro forward member
        obtain ⟨index, bound, rfl⟩ := List.getElem_of_mem member
        exact ⟨index, locals _ ⟨index, bound, rfl⟩⟩
      · intro forward member
        obtain ⟨index, bound, rfl⟩ := List.getElem_of_mem member
        exact ⟨index, remotes _ ⟨index, bound, rfl⟩⟩
      · split at valid
        · assumption
        · cases valid
    · cases h
  · cases h

theorem managed_of_parse {app : App} {yaml : String} {config : Config} (h : parseManagedConfig app yaml = .ok config) :
    Managed app.lowercase config := by
  obtain ⟨read, raw, clean, rfl⟩ := clean_of_parse h
  refine ⟨?_, ?_, clean.valid⟩
  · intro forward member
    have sockets := clean.localSockets forward member
    obtain ⟨raw', there, rfl⟩ := List.mem_map.mp member
    obtain ⟨index, errors⟩ := clean.locals raw' there
    simp only [localErrors, List.append_eq_nil_iff, errorIf_eq_nil] at errors
    exact ⟨by simpa using errors.2, sockets⟩
  · intro forward member
    have sockets := clean.remoteSockets forward member
    obtain ⟨raw', there, rfl⟩ := List.mem_map.mp member
    obtain ⟨index, errors⟩ := clean.remotes raw' there
    simp only [remoteErrors, List.append_eq_nil_iff, errorIf_eq_nil] at errors
    exact ⟨by simpa using errors.2, sockets⟩

namespace Managed
variable {lowercase : String → String} {config : Config} (managed : Managed lowercase config)
include managed

theorem validated : (∀ forward ∈ (checked config).localForward, Config.validateLocal "<unknown>" forward = .ok ()) ∧
    ∀ forward ∈ (checked config).remoteForward, Config.validateRemote "<unknown>" forward = .ok () := by
  have valid := managed.valid
  unfold Config.validate at valid
  rw [Config.validateWithFile_ok] at valid
  exact valid.forwards

theorem remote_port {forward : RemoteForward} (member : forward ∈ config.remoteForward) {binding : RemoteForwardBinding}
    (bound : binding ∈ forward.bindings) : binding.localSocket.isSome = true ∨ binding.hostPort ≠ 0 := by
  have valid := managed.validated.2 _ (List.mem_map_of_mem member)
  rw [Config.validateRemote_ok] at valid
  have port := valid.2 _ (List.mem_map_of_mem bound)
  cases socket : binding.localSocket with
  | some path => exact .inl rfl
  | none =>
    simp only [checkedRemote, socket, Option.any_none, Bool.false_and, Bool.false_eq_true, if_false] at port
    exact .inr port.1

theorem local_port {forward : LocalForward} (member : forward ∈ config.localForward) {binding : LocalForwardBinding}
    (bound : binding ∈ forward.bindings) : binding.bindLocalSocket.isSome = true ∨ binding.bindPort ≠ 0 := by
  have valid := managed.validated.1 _ (List.mem_map_of_mem member)
  rw [Config.validateLocal_ok] at valid
  have port := valid.2 _ (List.mem_map_of_mem bound)
  cases socket : binding.bindLocalSocket with
  | some path => exact .inl rfl
  | none =>
    simp only [checkedLocal, socket, Option.any_none, Bool.false_and, Bool.false_eq_true, if_false] at port
    exact .inr port.1

theorem remote_range {forward : RemoteForward} (member : forward ∈ config.remoteForward) {binding : RemoteForwardBinding}
    (bound : binding ∈ forward.bindings) : binding.hostPort.natAbs < 65536 := by
  have valid := managed.validated.2 _ (List.mem_map_of_mem member)
  rw [Config.validateRemote_ok] at valid
  have port := valid.2 _ (List.mem_map_of_mem bound)
  by_cases zero : binding.hostPort = 0
  · omega
  · simp only [checkedRemote, beq_false_of_ne zero, Bool.and_false, Bool.false_eq_true, if_false] at port
    omega

theorem local_range {forward : LocalForward} (member : forward ∈ config.localForward) {binding : LocalForwardBinding}
    (bound : binding ∈ forward.bindings) : binding.bindPort.natAbs < 65536 := by
  have valid := managed.validated.1 _ (List.mem_map_of_mem member)
  rw [Config.validateLocal_ok] at valid
  have port := valid.2 _ (List.mem_map_of_mem bound)
  by_cases zero : binding.bindPort = 0
  · omega
  · simp only [checkedLocal, beq_false_of_ne zero, Bool.and_false, Bool.false_eq_true, if_false] at port
    omega

end Managed
end Azbridge.Broker.Profiles
