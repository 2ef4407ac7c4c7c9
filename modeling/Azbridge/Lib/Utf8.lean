import Mathlib.Data.List.Basic

/-!
# UTF-8

What the bytes of a character tell of it.
-/

namespace Utf8
variable {c : Char} {b : UInt8}

theorem utf8EncodeChar_ascii (ascii : c.toNat < 128) : String.utf8EncodeChar c = [UInt8.ofNat c.toNat] := by
  have small : c.val.toNat ≤ 127 := Nat.le_of_lt_succ ascii
  unfold String.utf8EncodeChar
  exact if_pos small

/-- Every byte of a character beyond ASCII has its highest bit set. -/
theorem utf8EncodeChar_high (beyond : 128 ≤ c.toNat) (member : b ∈ String.utf8EncodeChar c) : 128 ≤ b.toNat := by
  have large : ¬ c.val.toNat ≤ 127 := Nat.not_le.mpr beyond
  have lead : ∀ {n k : Nat}, 128 ≤ k → n + k < 256 → 128 ≤ (UInt8.ofNat (n + k)).toNat := by
    intro n k high fits
    rw [UInt8.toNat_ofNat', Nat.mod_eq_of_lt fits]
    omega
  unfold String.utf8EncodeChar at member
  dsimp only at member
  rw [if_neg large] at member
  split at member
  · simp only [List.mem_cons, List.not_mem_nil, or_false] at member
    obtain rfl | rfl := member <;> apply lead <;> omega
  · split at member
    · simp only [List.mem_cons, List.not_mem_nil, or_false] at member
      obtain rfl | rfl | rfl := member <;> apply lead <;> omega
    · simp only [List.mem_cons, List.not_mem_nil, or_false] at member
      obtain rfl | rfl | rfl | rfl := member <;> apply lead <;> omega

theorem mem_toByteArray {s : String} : b ∈ s.toByteArray.data.toList ↔ ∃ c ∈ s.toList, b ∈ String.utf8EncodeChar c := by
  rw [← String.utf8Encode_toList]
  unfold List.utf8Encode
  simp

theorem mem_bytes_of_ascii {s : String} (ascii : ∀ b ∈ s.toByteArray.data.toList, b.toNat < 128) (member : c ∈ s.toList) :
    ∃ b ∈ s.toByteArray.data.toList, b.toNat = c.toNat := by
  by_cases small : c.toNat < 128
  · have encoded := utf8EncodeChar_ascii small
    refine ⟨UInt8.ofNat c.toNat, mem_toByteArray.mpr ⟨c, member, encoded ▸ .head _⟩, ?_⟩
    rw [UInt8.toNat_ofNat', Nat.mod_eq_of_lt (by omega)]
  · have some_ : String.utf8EncodeChar c ≠ [] := String.utf8EncodeChar_ne_nil
    obtain ⟨b, rest, encoded⟩ := List.exists_cons_of_ne_nil some_
    have within : b ∈ String.utf8EncodeChar c := encoded ▸ .head _
    have high := utf8EncodeChar_high (Nat.not_lt.mp small) within
    have low := ascii b (mem_toByteArray.mpr ⟨c, member, within⟩)
    omega

end Utf8
