import Azbridge.Runtime.Udp

/-!
# Datagrams on a stream

Each datagram follows its length in two bytes. A reader that finds the stream at its end while it
reads a length takes this for the end of the datagrams, even if it has read one byte of the two.
-/

namespace Azbridge.Udp

def maxDatagramSize : Nat := 65535

inductive ErrorKind where
  | invalidInput (length : Nat)
  | unexpectedEof
  deriving DecidableEq, Repr

def toBeBytes (n : Nat) : List UInt8 := [.ofNat (n / 256), .ofNat n]

def fromBeBytes (b : List UInt8) : Nat := b.foldl (fun n byte => n * 256 + byte.toNat) 0

def writeDatagram (data : Datagram) : Except ErrorKind (List UInt8) :=
  if data.length > maxDatagramSize then .error (.invalidInput data.length) else .ok (toBeBytes data.length ++ data)

/-- So many bytes, and those that stay unread; nothing stays where the stream ends before. -/
def readExact (n : Nat) (input : List UInt8) : Except ErrorKind (List UInt8) × List UInt8 :=
  if n ≤ input.length then (.ok (input.take n), input.drop n) else (.error .unexpectedEof, [])

def readDatagram (input : List UInt8) : Except ErrorKind (Option Datagram) × List UInt8 :=
  match readExact 2 input with
  | (.error .unexpectedEof, rest) => (.ok none, rest)
  | (.error e, rest) => (.error e, rest)
  | (.ok lenBuf, rest) =>
    match readExact (fromBeBytes lenBuf) rest with
    | (.ok data, rest) => (.ok (some data), rest)
    | (.error e, rest) => (.error e, rest)

theorem readExact_ok {n : Nat} {input data rest : List UInt8} :
    readExact n input = (.ok data, rest) ↔ data.length = n ∧ data ++ rest = input := by
  unfold readExact
  constructor
  · intro h
    split at h
    · next enough =>
      cases h
      exact ⟨List.length_take_of_le enough, List.take_append_drop n input⟩
    · cases h
  · rintro ⟨rfl, rfl⟩
    simp

theorem readExact_error {n : Nat} {input rest : List UInt8} {e : ErrorKind} :
    readExact n input = (.error e, rest) ↔ input.length < n ∧ e = .unexpectedEof ∧ rest = [] := by
  unfold readExact
  constructor
  · intro h
    split at h
    · cases h
    · next short =>
      cases h
      exact ⟨by omega, rfl, rfl⟩
  · rintro ⟨short, rfl, rfl⟩
    rw [if_neg (by omega)]

theorem readDatagram_some {input rest : List UInt8} {data : Datagram} :
    readDatagram input = (.ok (some data), rest) ↔
      ∃ lenBuf, lenBuf.length = 2 ∧ data.length = fromBeBytes lenBuf ∧ lenBuf ++ (data ++ rest) = input := by
  unfold readDatagram
  constructor
  · intro h
    split at h
    · cases h
    · cases h
    · next lenBuf rest₁ header =>
      obtain ⟨two, rfl⟩ := readExact_ok.mp header
      split at h
      · next data' rest' body =>
        cases h
        obtain ⟨size, rfl⟩ := readExact_ok.mp body
        exact ⟨lenBuf, two, size, rfl⟩
      · cases h
  · rintro ⟨lenBuf, two, size, rfl⟩
    have header : readExact 2 (lenBuf ++ (data ++ rest)) = (.ok lenBuf, data ++ rest) := readExact_ok.mpr ⟨two, rfl⟩
    have body : readExact (fromBeBytes lenBuf) (data ++ rest) = (.ok data, rest) := readExact_ok.mpr ⟨size, rfl⟩
    simp only [header, body]

/-- The end is reported when there are not two bytes for a length. -/
theorem readDatagram_none {input rest : List UInt8} :
    readDatagram input = (.ok none, rest) ↔ input.length < 2 ∧ rest = [] := by
  unfold readDatagram
  constructor
  · intro h
    split at h
    · next rest' header =>
      cases h
      obtain ⟨short, -, none⟩ := readExact_error.mp header
      exact ⟨short, none⟩
    · cases h
    · split at h <;> cases h
  · rintro ⟨short, rfl⟩
    have header : readExact 2 input = (.error .unexpectedEof, []) := readExact_error.mpr ⟨short, rfl, rfl⟩
    simp only [header]

theorem readDatagram_shorter {input rest : List UInt8} {data : Datagram} (h : readDatagram input = (.ok (some data), rest)) :
    rest.length < input.length := by
  obtain ⟨lenBuf, two, -, rfl⟩ := readDatagram_some.mp h
  simp only [List.length_append]
  omega

/-- `readDatagram` until it reports the end or fails. -/
def readDatagrams (input : List UInt8) : List Datagram × Except ErrorKind Unit :=
  match _h : readDatagram input with
  | (.ok (some data), rest) =>
    let others := readDatagrams rest
    (data :: others.1, others.2)
  | (.ok none, _) => ([], .ok ())
  | (.error e, _) => ([], .error e)
termination_by input.length
decreasing_by exact readDatagram_shorter _h

def writeDatagrams : List Datagram → Except ErrorKind (List UInt8)
  | [] => .ok []
  | data :: rest => do
    let first ← writeDatagram data
    return first ++ (← writeDatagrams rest)

theorem fromBeBytes_toBeBytes {n : Nat} (fits : n ≤ maxDatagramSize) : fromBeBytes (toBeBytes n) = n := by
  unfold maxDatagramSize at fits
  simp only [fromBeBytes, toBeBytes, List.foldl_cons, List.foldl_nil, UInt8.toNat_ofNat']
  omega

theorem toBeBytes_fromBeBytes {b : List UInt8} (two : b.length = 2) : toBeBytes (fromBeBytes b) = b := by
  obtain ⟨hi, lo, rfl⟩ := List.length_eq_two.mp two
  have high := hi.toNat_lt
  have low := lo.toNat_lt
  simp only [fromBeBytes, toBeBytes, List.foldl_cons, List.foldl_nil, Nat.zero_mul, Nat.zero_add]
  have first : UInt8.ofNat ((hi.toNat * 256 + lo.toNat) / 256) = hi := by
    rw [← UInt8.toNat_inj, UInt8.toNat_ofNat']
    omega
  have second : UInt8.ofNat (hi.toNat * 256 + lo.toNat) = lo := by
    rw [← UInt8.toNat_inj, UInt8.toNat_ofNat']
    omega
  rw [first, second]

theorem fromBeBytes_le {b : List UInt8} (two : b.length = 2) : fromBeBytes b ≤ maxDatagramSize := by
  obtain ⟨hi, lo, rfl⟩ := List.length_eq_two.mp two
  have high := hi.toNat_lt
  have low := lo.toNat_lt
  simp only [fromBeBytes, List.foldl_cons, List.foldl_nil, maxDatagramSize]
  omega

theorem writeDatagram_ok {data : Datagram} {written : List UInt8} :
    writeDatagram data = .ok written ↔ data.length ≤ maxDatagramSize ∧ toBeBytes data.length ++ data = written := by
  unfold writeDatagram
  by_cases fits : data.length ≤ maxDatagramSize
  · rw [if_neg (by omega), Except.ok.injEq]
    simp [fits]
  · rw [if_pos (by omega)]
    simp [fits]

theorem readDatagram_iff_written {input rest : List UInt8} {data : Datagram} :
    readDatagram input = (.ok (some data), rest) ↔ ∃ written, writeDatagram data = .ok written ∧ written ++ rest = input := by
  rw [readDatagram_some]
  constructor
  · rintro ⟨lenBuf, two, size, rfl⟩
    have header : toBeBytes data.length = lenBuf := by rw [size, toBeBytes_fromBeBytes two]
    refine ⟨lenBuf ++ data, writeDatagram_ok.mpr ⟨?_, by rw [header]⟩, by simp⟩
    rw [size]
    exact fromBeBytes_le two
  · rintro ⟨written, ok, rfl⟩
    obtain ⟨fits, rfl⟩ := writeDatagram_ok.mp ok
    exact ⟨toBeBytes data.length, rfl, (fromBeBytes_toBeBytes fits).symm, by simp⟩

theorem writeDatagrams_cons {data : Datagram} {rest : List Datagram} {written : List UInt8} :
    writeDatagrams (data :: rest) = .ok written ↔
      ∃ first others, writeDatagram data = .ok first ∧ writeDatagrams rest = .ok others ∧ first ++ others = written := by
  simp only [writeDatagrams, bind, Except.bind, pure, Except.pure]
  cases writeDatagram data with
  | error e => simp
  | ok first =>
    cases writeDatagrams rest with
    | error e => simp
    | ok others => simp

theorem writeDatagrams_total {datagrams : List Datagram} (fit : ∀ data ∈ datagrams, data.length ≤ maxDatagramSize) :
    ∃ written, writeDatagrams datagrams = .ok written := by
  induction datagrams with
  | nil => exact ⟨[], rfl⟩
  | cons data rest ih =>
    obtain ⟨others, ok⟩ := ih fun d member => fit d (.tail _ member)
    have first : writeDatagram data = .ok (toBeBytes data.length ++ data) := writeDatagram_ok.mpr ⟨fit data (.head _), rfl⟩
    exact ⟨_, writeDatagrams_cons.mpr ⟨_, others, first, ok, rfl⟩⟩

theorem readDatagrams_next {input rest : List UInt8} {data : Datagram} (h : readDatagram input = (.ok (some data), rest)) :
    readDatagrams input = (data :: (readDatagrams rest).1, (readDatagrams rest).2) := by
  rw [readDatagrams]
  split
  · next h' =>
    rw [h] at h'
    cases h'
    rfl
  · next h' =>
    rw [h] at h'
    cases h'
  · next h' =>
    rw [h] at h'
    cases h'

theorem readDatagrams_short {input : List UInt8} (short : input.length < 2) : readDatagrams input = ([], .ok ()) := by
  have last := readDatagram_none.mpr ⟨short, rfl⟩
  rw [readDatagrams]
  split
  · next h' =>
    rw [last] at h'
    cases h'
  · rfl
  · next h' =>
    rw [last] at h'
    cases h'

theorem readDatagrams_written {datagrams : List Datagram} {written : List UInt8} (h : writeDatagrams datagrams = .ok written)
    (rest : List UInt8) :
    readDatagrams (written ++ rest) = (datagrams ++ (readDatagrams rest).1, (readDatagrams rest).2) := by
  induction datagrams generalizing written with
  | nil =>
    cases h
    rfl
  | cons data datagrams ih =>
    obtain ⟨first, others, ok, later, rfl⟩ := writeDatagrams_cons.mp h
    have one : readDatagram (first ++ others ++ rest) = (.ok (some data), others ++ rest) :=
      readDatagram_iff_written.mpr ⟨first, ok, (List.append_assoc ..).symm⟩
    rw [readDatagrams_next one, ih later]
    rfl

theorem readDatagrams_all {datagrams : List Datagram} {written : List UInt8} (h : writeDatagrams datagrams = .ok written) :
    readDatagrams written = (datagrams, .ok ()) := by
  have read := readDatagrams_written h []
  rw [@readDatagrams_short [] (by simp)] at read
  simpa using read

/-- Reading ends without an error just where less than a length is left. -/
theorem readDatagrams_ok_iff {input : List UInt8} : (readDatagrams input).2 = .ok () ↔
    ∃ datagrams written rest, writeDatagrams datagrams = .ok written ∧ rest.length < 2 ∧ written ++ rest = input := by
  constructor
  · fun_induction readDatagrams input with
    | case1 input data rest read others ih =>
      intro ok
      obtain ⟨datagrams, written, last, wrote, short, rfl⟩ := ih ok
      obtain ⟨first, one, rfl⟩ := readDatagram_iff_written.mp read
      exact ⟨data :: datagrams, first ++ written, last, writeDatagrams_cons.mpr ⟨first, written, one, wrote, rfl⟩, short,
        List.append_assoc ..⟩
    | case2 input rest read =>
      intro _
      exact ⟨[], [], input, rfl, (readDatagram_none.mp read).1, rfl⟩
    | case3 input e rest read =>
      intro ok
      cases ok
  · rintro ⟨datagrams, written, rest, wrote, short, rfl⟩
    rw [readDatagrams_written wrote, readDatagrams_short short]

def AtBoundary (input : List UInt8) : Prop := ∃ datagrams, writeDatagrams datagrams = .ok input

/-- The end is reported at a boundary only, and anything cut off is an error. -/
def Exact (input : List UInt8) : Prop :=
  ((readDatagrams input).2 = .ok () → AtBoundary input) ∧ (¬ AtBoundary input → ∃ e, (readDatagrams input).2 = .error e)

/-- One byte of a length follows whole datagrams. -/
def Stray (input : List UInt8) : Prop := ∃ datagrams written b, writeDatagrams datagrams = .ok written ∧ written ++ [b] = input

theorem Stray.not_atBoundary {input : List UInt8} (stray : Stray input) : ¬ AtBoundary input := by
  obtain ⟨datagrams, written, b, wrote, rfl⟩ := stray
  rintro ⟨datagrams', wrote'⟩
  have cut := readDatagrams_written wrote [b]
  rw [readDatagrams_all wrote', @readDatagrams_short [b] (by simp), List.append_nil] at cut
  obtain ⟨rfl, -⟩ := Prod.mk.inj cut
  rw [wrote, Except.ok.injEq] at wrote'
  have longer := congrArg List.length wrote'
  simp at longer

theorem exact_iff (input : List UInt8) : Exact input ↔ ¬ Stray input := by
  constructor
  · rintro ⟨only, -⟩ stray
    obtain ⟨datagrams, written, b, wrote, same⟩ := stray
    have ended : (readDatagrams input).2 = .ok () := readDatagrams_ok_iff.mpr ⟨datagrams, written, [b], wrote, by simp, same⟩
    exact Stray.not_atBoundary ⟨datagrams, written, b, wrote, same⟩ (only ended)
  · intro whole
    have only : (readDatagrams input).2 = .ok () → AtBoundary input := by
      intro ended
      obtain ⟨datagrams, written, rest, wrote, short, same⟩ := readDatagrams_ok_iff.mp ended
      cases rest with
      | nil => exact ⟨datagrams, by rw [wrote, ← same, List.append_nil]⟩
      | cons b rest =>
        have last : rest = [] := List.length_eq_zero_iff.mp (by simp only [List.length_cons] at short; omega)
        subst last
        exact absurd ⟨datagrams, written, b, wrote, same⟩ whole
    refine ⟨only, fun cut => ?_⟩
    cases ended : (readDatagrams input).2 with
    | ok => exact absurd (only ended) cut
    | error e => exact ⟨e, rfl⟩

/-- Datagrams come back as they were written and then the end; and the end is told from a cut for every
input but those that stop within a length. -/
theorem datagram_framing (datagrams : List Datagram) (fit : ∀ data ∈ datagrams, data.length ≤ maxDatagramSize)
    (input : List UInt8) : (∃ written, writeDatagrams datagrams = .ok written ∧ readDatagrams written = (datagrams, .ok ())) ∧
      (Exact input ↔ ¬ Stray input) := by
  obtain ⟨written, wrote⟩ := writeDatagrams_total fit
  exact ⟨⟨written, wrote, readDatagrams_all wrote⟩, exact_iff input⟩

/-- Two datagrams, one of them empty. -/
theorem datagram_framing_two :
    (∃ written, writeDatagrams [[7, 8], []] = .ok written ∧ readDatagrams written = ([[7, 8], []], .ok ())) ∧
      (Exact [0, 0] ↔ ¬ Stray [0, 0]) :=
  datagram_framing [[7, 8], []] (by decide) [0, 0]

/-- A stream that ends after one byte. -/
theorem half_a_length_is_taken_for_the_end : ¬ ∀ input, Exact input := fun all =>
  (exact_iff [0]).mp (all [0]) ⟨[], [], 0, rfl, rfl⟩

end Azbridge.Udp
