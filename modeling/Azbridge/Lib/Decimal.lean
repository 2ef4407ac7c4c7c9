import Mathlib.Algebra.Group.Int.Defs
import Mathlib.Algebra.GroupWithZero.Nat
import Mathlib.Data.List.Basic

/-!
# Decimal numbers of one width

Written with as many digits each, numbers are in the order of their texts.
-/

namespace Decimal

theorem toNat_of_isDigit {c : Char} (digit : c.isDigit = true) : 48 ≤ c.toNat ∧ c.toNat ≤ 57 := by
  simp only [Char.isDigit, Bool.and_eq_true, decide_eq_true_eq] at digit
  exact ⟨UInt32.le_iff_toNat_le.mp digit.1, UInt32.le_iff_toNat_le.mp digit.2⟩

theorem ofDigitChars_cons (c : Char) (cs : List Char) :
    Nat.ofDigitChars 10 (c :: cs) 0 = 10 ^ cs.length * (c.toNat - 48) + Nat.ofDigitChars 10 cs 0 := by
  rw [Nat.ofDigitChars_cons, Nat.ofDigitChars_eq_ofDigitChars_zero, Nat.mul_zero, Nat.zero_add]
  rfl

theorem ofDigitChars_lt {cs : List Char} (digits : ∀ c ∈ cs, c.isDigit = true) : Nat.ofDigitChars 10 cs 0 < 10 ^ cs.length := by
  induction cs with
  | nil => simp
  | cons c cs ih =>
    have small := ih fun d member => digits d (.tail _ member)
    have digit := toNat_of_isDigit (digits c (.head _))
    have first : 10 ^ cs.length * (c.toNat - 48) ≤ 10 ^ cs.length * 9 := Nat.mul_le_mul_left _ (by omega)
    rw [ofDigitChars_cons, List.length_cons, Nat.pow_succ]
    omega

/-- The induction goes from the first digit, which decides unless it is the same. -/
theorem lt_iff {as bs : List Char} (digits : ∀ c ∈ as, c.isDigit = true) (digits' : ∀ c ∈ bs, c.isDigit = true)
    (same : as.length = bs.length) : as < bs ↔ Nat.ofDigitChars 10 as 0 < Nat.ofDigitChars 10 bs 0 := by
  induction as generalizing bs with
  | nil =>
    obtain rfl : bs = [] := List.length_eq_zero_iff.mp same.symm
    simp
  | cons a as ih =>
    cases bs with
    | nil => cases same
    | cons b bs =>
      have rest := ih (fun d member => digits d (.tail _ member)) (fun d member => digits' d (.tail _ member)) (Nat.succ.inj same)
      have small := ofDigitChars_lt fun d member => digits d (List.mem_cons_of_mem a member)
      have small' := ofDigitChars_lt fun d member => digits' d (List.mem_cons_of_mem b member)
      have first := toNat_of_isDigit (digits a (.head _))
      have first' := toNat_of_isDigit (digits' b (.head _))
      rw [List.cons_lt_cons_iff, ofDigitChars_cons, ofDigitChars_cons, rest, ← Nat.succ.inj same]
      rw [← Nat.succ.inj same] at small'
      have order : a < b ↔ a.toNat < b.toNat := UInt32.lt_iff_toNat_lt
      have equal : a = b ↔ a.toNat = b.toNat := Char.toNat_inj.symm
      rw [order, equal]
      generalize a.toNat = m at *
      generalize b.toNat = n at *
      generalize 10 ^ as.length = width at *
      have below : m < n → width * (m - 48) + width ≤ width * (n - 48) := by
        intro less
        rw [← Nat.mul_succ]
        exact Nat.mul_le_mul_left _ (by omega)
      have above : n < m → width * (n - 48) + width ≤ width * (m - 48) := by
        intro less
        rw [← Nat.mul_succ]
        exact Nat.mul_le_mul_left _ (by omega)
      constructor
      · rintro (less | ⟨rfl, less⟩)
        · have := below less
          omega
        · omega
      · intro less
        rcases Nat.lt_trichotomy m n with smaller | rfl | larger
        · exact .inl smaller
        · exact .inr ⟨rfl, by omega⟩
        · have := above larger
          omega

end Decimal
