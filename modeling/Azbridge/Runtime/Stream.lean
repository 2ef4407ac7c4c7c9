import Mathlib.Data.List.Basic

/-!
# Relay streams

A WebSocket presented as a byte stream. What a reader is told is right exactly if no data message
before the end is empty, for a read of no bytes means the end to every reader.
-/

namespace Azbridge.Stream

abbrev Bytes := List UInt8

/-- `tungstenite::Message`; a text message is its bytes. -/
inductive Message where
  | binary (data : Bytes)
  | text (data : Bytes)
  | ping
  | pong
  | frame
  | close
  deriving DecidableEq, Repr

/-- The read side; `inner` is what the WebSocket delivers until it ends. -/
structure HybridConnectionStream where
  inner : List Message
  readBuf : Bytes := []
  isReadClosed : Bool := false
  deriving DecidableEq, Repr

inductive Poll (α : Type) where
  | ready (value : α)
  | pending

/-- `poll_read` once the WebSocket has something to say. -/
def pollRead (remaining : Nat) (s : HybridConnectionStream) : Poll Bytes × HybridConnectionStream :=
  -- Return buffered data first.
  if s.readBuf ≠ [] then
    let len := min remaining s.readBuf.length
    (.ready (s.readBuf.take len), { s with readBuf := s.readBuf.drop len })
  else if s.isReadClosed then (.ready [], s)
  else
    match s.inner with
    | .binary data :: rest | .text data :: rest =>
      let len := min remaining data.length
      (.ready (data.take len), { s with inner := rest, readBuf := data.drop len })
    | .close :: rest => (.ready [], { s with inner := rest, isReadClosed := true })
    -- The waker is called at once, so the next poll follows.
    | .ping :: rest | .pong :: rest | .frame :: rest => (.pending, { s with inner := rest })
    | [] => (.ready [], { s with isReadClosed := true })

theorem pollRead_pending {n : Nat} {s s' : HybridConnectionStream} (h : pollRead n s = (.pending, s')) :
    s.readBuf = [] ∧ s.isReadClosed = false ∧ s' = { s with inner := s'.inner } ∧
      ∃ m, (m = .ping ∨ m = .pong ∨ m = .frame) ∧ s.inner = m :: s'.inner := by
  unfold pollRead at h
  by_cases buffered : s.readBuf = []
  · rw [if_neg (by simpa using buffered)] at h
    by_cases closed : s.isReadClosed = true
    · rw [if_pos closed] at h
      cases h
    · rw [if_neg closed] at h
      split at h <;> cases h
      · next same => exact ⟨buffered, by simpa using closed, rfl, .ping, .inl rfl, same⟩
      · next same => exact ⟨buffered, by simpa using closed, rfl, .pong, .inr (.inl rfl), same⟩
      · next same => exact ⟨buffered, by simpa using closed, rfl, .frame, .inr (.inr rfl), same⟩
  · rw [if_pos buffered] at h
    cases h

/-- `read`: poll until it is ready. -/
def read (n : Nat) (s : HybridConnectionStream) : Bytes × HybridConnectionStream :=
  match _polled : pollRead n s with
  | (.ready data, s') => (data, s')
  | (.pending, s') => read n s'
termination_by s.inner.length
decreasing_by
  obtain ⟨-, -, -, m, -, same⟩ := pollRead_pending _polled
  simp [same]

theorem read_of_ready {n : Nat} {s s' : HybridConnectionStream} {data : Bytes} (polled : pollRead n s = (.ready data, s')) :
    read n s = (data, s') := by
  rw [read]
  split
  · next same =>
    rw [polled] at same
    cases same
    rfl
  · next same =>
    rw [polled] at same
    cases same

theorem read_of_pending {n : Nat} {s s' : HybridConnectionStream} (polled : pollRead n s = (.pending, s')) :
    read n s = read n s' := by
  rw [read]
  split
  · next same =>
    rw [polled] at same
    cases same
  · next same =>
    rw [polled] at same
    cases same
    rfl

/-- One read after the other. -/
def reads : List Nat → HybridConnectionStream → List Bytes × HybridConnectionStream
  | [], s => ([], s)
  | n :: rest, s =>
    let first := read n s
    let others := reads rest first.2
    (first.1 :: others.1, others.2)

/-- `poll_write` in binary mode: one message for each buffer. -/
def written (buffers : List Bytes) : List Message := buffers.map .binary

def payload : List Message → Bytes
  | [] => []
  | .close :: _ => []
  | .binary data :: rest | .text data :: rest => data ++ payload rest
  | .ping :: rest | .pong :: rest | .frame :: rest => payload rest

/-- A data message of no bytes comes before the end. -/
def hasEmpty : List Message → Bool
  | [] => false
  | .close :: _ => false
  | .binary data :: rest | .text data :: rest => data.isEmpty || hasEmpty rest
  | .ping :: rest | .pong :: rest | .frame :: rest => hasEmpty rest

def left (s : HybridConnectionStream) : Bytes := s.readBuf ++ if s.isReadClosed then [] else payload s.inner

/-- A bound on the reads until the end was seen. -/
def remaining (s : HybridConnectionStream) : Nat :=
  (left s).length + if s.isReadClosed then 0 else s.inner.length + 1

/-- No read before the end can come back empty. -/
def Calm (s : HybridConnectionStream) : Prop := s.isReadClosed = true ∨ hasEmpty s.inner = false

/-- What a read keeps: no byte is lost, every read comes closer to the end, and only the end is empty. -/
structure Delivers (s : HybridConnectionStream) (data : Bytes) (s' : HybridConnectionStream) : Prop where
  bytes : left s = data ++ left s'
  progress : remaining s' ≤ remaining s - 1
  calm : Calm s → Calm s' ∧ (data = [] → s'.isReadClosed = true)

theorem take_min (n : Nat) (data : Bytes) : data.take (min n data.length) = data.take n := by
  rw [← List.take_take, List.take_length]

theorem drop_min (n : Nat) (data : Bytes) : data.drop (min n data.length) = data.drop n := by
  rcases Nat.le_total n data.length with short | long
  · rw [Nat.min_eq_left short]
  · rw [Nat.min_eq_right long, List.drop_length, List.drop_eq_nil_of_le long]

theorem delivers_data {n : Nat} {s : HybridConnectionStream} {m : Message} {rest : List Message} {data : Bytes} (positive : 1 ≤ n)
    (unbuffered : s.readBuf = []) (opened : s.isReadClosed = false) (next : s.inner = m :: rest)
    (pays : payload s.inner = data ++ payload rest) (empty : hasEmpty s.inner = (data.isEmpty || hasEmpty rest)) :
    Delivers s (data.take n) { s with inner := rest, readBuf := data.drop n } where
  bytes := by
    simp [left, unbuffered, opened, pays, ← List.append_assoc]
  progress := by
    have split : (data.take n).length + (data.drop n).length = data.length := by
      rw [← List.length_append, List.take_append_drop]
    have longer : s.inner.length = rest.length + 1 := by simp [next]
    simp only [remaining, left, unbuffered, opened, pays, List.length_append, List.nil_append]
    simp
    omega
  calm := by
    rintro (closed | solid)
    · rw [opened] at closed
      cases closed
    · rw [empty] at solid
      obtain ⟨some_, solid⟩ := Bool.or_eq_false_iff.mp solid
      refine ⟨.inr solid, fun none => ?_⟩
      rcases List.take_eq_nil_iff.mp none with zero | zero
      · omega
      · simp [zero] at some_

theorem delivers_ready {n : Nat} {s s' : HybridConnectionStream} {data : Bytes} (positive : 1 ≤ n)
    (h : pollRead n s = (.ready data, s')) : Delivers s data s' := by
  unfold pollRead at h
  by_cases buffered : s.readBuf = []
  · rw [if_neg (by simpa using buffered)] at h
    by_cases closed : s.isReadClosed = true
    · rw [if_pos closed] at h
      cases h
      exact ⟨rfl, by simp [remaining, left, buffered, closed], fun calm => ⟨calm, fun _ => closed⟩⟩
    · rw [if_neg closed] at h
      have opened : s.isReadClosed = false := by simpa using closed
      split at h
      · next message rest next =>
        cases h
        rw [take_min, drop_min]
        exact delivers_data positive buffered opened next (by rw [next, payload]) (by rw [next, hasEmpty])
      · next message rest next =>
        cases h
        rw [take_min, drop_min]
        exact delivers_data positive buffered opened next (by rw [next, payload]) (by rw [next, hasEmpty])
      · next rest next =>
        cases h
        refine ⟨by simp [left, buffered, opened, next, payload], ?_, fun _ => ⟨.inl rfl, fun _ => rfl⟩⟩
        simp [remaining, left, buffered, opened, next]
      · cases h
      · cases h
      · cases h
      · next next =>
        cases h
        refine ⟨by simp [left, buffered, opened, next, payload], ?_, fun _ => ⟨.inl rfl, fun _ => rfl⟩⟩
        simp [remaining, left, buffered, opened, next]
  · rw [if_pos buffered] at h
    dsimp only at h
    rw [take_min, drop_min] at h
    cases h
    have split : (s.readBuf.take n).length + (s.readBuf.drop n).length = s.readBuf.length := by
      rw [← List.length_append, List.take_append_drop]
    have some_ : s.readBuf.take n ≠ [] := by
      intro none
      rcases List.take_eq_nil_iff.mp none with zero | zero
      · omega
      · exact buffered zero
    have positive := List.length_pos_iff.mpr some_
    refine ⟨?_, ?_, fun calm => ⟨calm, fun none => absurd none some_⟩⟩
    · simp [left, ← List.append_assoc]
    · simp only [remaining, left, List.length_append]
      omega

theorem delivers_read {n : Nat} (positive : 1 ≤ n) (s : HybridConnectionStream) : Delivers s (read n s).1 (read n s).2 := by
  fun_induction read n s with
  | case1 s data s' polled => exact delivers_ready positive polled
  | case2 s s' polled ih =>
    obtain ⟨buffered, opened, same, m, control, next⟩ := pollRead_pending polled
    have pays : payload s.inner = payload s'.inner ∧ hasEmpty s.inner = hasEmpty s'.inner := by
      rw [next]
      rcases control with rfl | rfl | rfl <;> exact ⟨rfl, rfl⟩
    have buffered' : s'.readBuf = [] := by rw [same]; exact buffered
    have opened' : s'.isReadClosed = false := by rw [same]; exact opened
    have leaves : left s = left s' := by simp [left, buffered, buffered', opened, opened', pays.1]
    have closer : remaining s' < remaining s := by simp [remaining, leaves, opened, opened', next]
    have kept := ih.progress
    refine ⟨leaves.trans ih.bytes, by omega, fun calm => ih.calm ?_⟩
    simpa [Calm, opened, opened', pays.2] using calm

theorem reads_append (before after : List Nat) (s : HybridConnectionStream) :
    reads (before ++ after) s = ((reads before s).1 ++ (reads after (reads before s).2).1, (reads after (reads before s).2).2) := by
  induction before generalizing s with
  | nil => rfl
  | cons n before ih => simp [reads, ih]

/-- However much is read, nothing is lost and the end comes closer with each read. -/
theorem delivers_reads {sizes : List Nat} (positive : ∀ n ∈ sizes, 1 ≤ n) (s : HybridConnectionStream) :
    left s = (reads sizes s).1.flatten ++ left (reads sizes s).2 ∧
      remaining (reads sizes s).2 ≤ remaining s - sizes.length ∧ (Calm s → Calm (reads sizes s).2) := by
  induction sizes generalizing s with
  | nil => simp [reads]
  | cons n sizes ih =>
    have one := delivers_read (positive n (.head _)) s
    obtain ⟨bytes, progress, calm⟩ := ih (fun n member => positive n (.tail _ member)) (read n s).2
    refine ⟨?_, ?_, fun start => calm (one.calm start).1⟩
    · rw [one.bytes, bytes]
      simp [reads]
    · have kept := one.progress
      simp only [reads, List.length_cons]
      omega

/-- Whatever the sizes of the reads, they give the payloads in order, all of them once there were
enough reads, and a read of no bytes comes after the end only. -/
def Faithful (messages : List Message) : Prop :=
  ∀ sizes : List Nat, (∀ n ∈ sizes, 1 ≤ n) →
    (∃ rest, payload messages = (reads sizes ⟨messages, [], false⟩).1.flatten ++ rest) ∧
    ((payload messages).length + messages.length < sizes.length →
      (reads sizes ⟨messages, [], false⟩).1.flatten = payload messages) ∧
    ∀ before n after, sizes = before ++ n :: after → (read n (reads before ⟨messages, [], false⟩).2).1 = [] →
      (read n (reads before ⟨messages, [], false⟩).2).2.isReadClosed = true

/-- The payloads arrive in any case. -/
theorem reads_payload {messages : List Message} {sizes : List Nat} (positive : ∀ n ∈ sizes, 1 ≤ n) :
    (∃ rest, payload messages = (reads sizes ⟨messages, [], false⟩).1.flatten ++ rest) ∧
      ((payload messages).length + messages.length < sizes.length →
        (reads sizes ⟨messages, [], false⟩).1.flatten = payload messages) := by
  obtain ⟨bytes, progress, -⟩ := delivers_reads positive ⟨messages, [], false⟩
  have all : left ⟨messages, [], false⟩ = payload messages := by simp [left]
  rw [all] at bytes
  refine ⟨⟨_, bytes⟩, fun enough => ?_⟩
  have bound : remaining ⟨messages, [], false⟩ = (payload messages).length + (messages.length + 1) := by simp [remaining, all]
  have none : left (reads sizes ⟨messages, [], false⟩).2 = [] := by
    rw [← List.length_eq_zero_iff]
    simp only [remaining] at progress bound
    omega
  rw [none, List.append_nil] at bytes
  exact bytes.symm

theorem reads_empty {messages : List Message} (empty : hasEmpty messages = true) :
    ∃ sizes, sizes ≠ [] ∧ (∀ n ∈ sizes, 1 ≤ n) ∧ (reads sizes ⟨messages, [], false⟩).1.getLast? = some [] ∧
      (reads sizes ⟨messages, [], false⟩).2.isReadClosed = false := by
  have control : ∀ {m : Message} {rest : List Message},
      (∀ n, pollRead n ⟨m :: rest, [], false⟩ = (.pending, ⟨rest, [], false⟩)) →
      (∃ sizes, sizes ≠ [] ∧ (∀ n ∈ sizes, 1 ≤ n) ∧ (reads sizes ⟨rest, [], false⟩).1.getLast? = some [] ∧
        (reads sizes ⟨rest, [], false⟩).2.isReadClosed = false) →
      ∃ sizes, sizes ≠ [] ∧ (∀ n ∈ sizes, 1 ≤ n) ∧ (reads sizes ⟨m :: rest, [], false⟩).1.getLast? = some [] ∧
        (reads sizes ⟨m :: rest, [], false⟩).2.isReadClosed = false := by
    rintro m rest skipped ⟨sizes, some_, positive, last, opened⟩
    have same : reads sizes ⟨m :: rest, [], false⟩ = reads sizes ⟨rest, [], false⟩ := by
      cases sizes with
      | nil => exact absurd rfl some_
      | cons n sizes => simp only [reads, read_of_pending (skipped n)]
    exact ⟨sizes, some_, positive, by rw [same]; exact last, by rw [same]; exact opened⟩
  have data : ∀ {m : Message} {rest : List Message} {data : Bytes},
      (∀ n, pollRead n ⟨m :: rest, [], false⟩ =
        (.ready (data.take (min n data.length)), ⟨rest, data.drop (min n data.length), false⟩)) →
      (data.isEmpty || hasEmpty rest) = true → (hasEmpty rest = true → ∃ sizes, sizes ≠ [] ∧ (∀ n ∈ sizes, 1 ≤ n) ∧
        (reads sizes ⟨rest, [], false⟩).1.getLast? = some [] ∧ (reads sizes ⟨rest, [], false⟩).2.isReadClosed = false) →
      ∃ sizes, sizes ≠ [] ∧ (∀ n ∈ sizes, 1 ≤ n) ∧ (reads sizes ⟨m :: rest, [], false⟩).1.getLast? = some [] ∧
        (reads sizes ⟨m :: rest, [], false⟩).2.isReadClosed = false := by
    intro m rest data polled empty ih
    by_cases none : data = []
    · subst none
      have one := read_of_ready (polled 1)
      refine ⟨[1], by simp, by simp, ?_, ?_⟩
      · simp [reads, one]
      · simp [reads, one]
    · have later : hasEmpty rest = true := by simpa [none] using empty
      obtain ⟨sizes, some_, positive, last, opened⟩ := ih later
      have whole : read data.length ⟨m :: rest, [], false⟩ = (data, ⟨rest, [], false⟩) := by
        have all := read_of_ready (polled data.length)
        simpa using all
      refine ⟨data.length :: sizes, by simp, ?_, ?_, ?_⟩
      · intro n member
        rcases List.mem_cons.mp member with rfl | member
        · exact List.length_pos_iff.mpr none
        · exact positive n member
      · simp only [reads, whole]
        rw [List.getLast?_cons, last]
        rfl
      · simpa only [reads, whole] using opened
  induction messages with
  | nil => cases empty
  | cons m rest ih =>
    cases m with
    | close => cases empty
    | binary bytes => exact data (fun n => rfl) empty ih
    | text bytes => exact data (fun n => rfl) empty ih
    | ping => exact control (fun n => rfl) (ih empty)
    | pong => exact control (fun n => rfl) (ih empty)
    | frame => exact control (fun n => rfl) (ih empty)

theorem faithful_iff (messages : List Message) : Faithful messages ↔ hasEmpty messages = false := by
  constructor
  · intro faithful
    by_contra empty
    obtain ⟨sizes, some_, positive, last, opened⟩ := reads_empty (by simpa using empty)
    rcases List.eq_nil_or_concat sizes with rfl | ⟨before, n, rfl⟩
    · exact some_ rfl
    · rw [List.concat_eq_append] at positive last opened
      rw [reads_append] at last opened
      have none : (read n (reads before ⟨messages, [], false⟩).2).1 = [] := by simpa [reads] using last
      have closed := (faithful _ positive).2.2 before n [] rfl none
      simp only [reads] at opened
      rw [closed] at opened
      cases opened
  · intro solid sizes positive
    obtain ⟨prefixed, complete⟩ := @reads_payload messages sizes positive
    refine ⟨prefixed, complete, ?_⟩
    rintro before n after rfl empty
    have earlier := delivers_reads (fun k member => positive k (List.mem_append_left _ member)) ⟨messages, [], false⟩
    have calm := earlier.2.2 (.inr solid)
    exact ((delivers_read (positive n (by simp)) _).calm calm).2 empty

/-- The byte stream is faithful exactly for messages without an empty one before the end, and what a
writer of binary messages sends arrives exactly if it never writes an empty buffer. -/
theorem faithful_iff_no_empty_frame (messages : List Message) (buffers : List Bytes) :
    (Faithful messages ↔ hasEmpty messages = false) ∧ (Faithful (written buffers) ↔ [] ∉ buffers) := by
  refine ⟨faithful_iff messages, ?_⟩
  rw [faithful_iff]
  induction buffers with
  | nil => simp [written, hasEmpty]
  | cons buffer buffers ih =>
    cases buffer with
    | nil => simp [written, hasEmpty]
    | cons byte buffer => simpa [written, hasEmpty] using ih

/-- One empty message between two others ends the stream for its reader. -/
theorem empty_frame_is_taken_for_the_end : ¬ ∀ messages, Faithful messages := by
  intro all
  have empty := (faithful_iff [.binary [1], .binary [], .binary [2]]).mp (all _)
  cases empty

end Azbridge.Stream
