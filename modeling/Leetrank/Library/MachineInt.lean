import Mathlib.Algebra.Order.Ring.Int

namespace MachineInt
set_option autoImplicit true

variable {a b : Int64}

/-- An integer that 64 bits hold. -/
def Fits (x : Int) : Prop := -9223372036854775808 ≤ x ∧ x < 9223372036854775808

theorem fits_toInt (a : Int64) : Fits a.toInt := ⟨a.le_toInt, a.toInt_lt⟩

theorem bmod_of_fits {x : Int} (h : Fits x) : x.bmod 18446744073709551616 = x :=
  Int.bmod_eq_of_le h.1 h.2

theorem toInt_add_of_fits (h : Fits (a.toInt + b.toInt)) : (a + b).toInt = a.toInt + b.toInt := by
  rw [Int64.toInt_add]
  exact bmod_of_fits h

theorem toInt_sub_of_fits (h : Fits (a.toInt - b.toInt)) : (a - b).toInt = a.toInt - b.toInt := by
  rw [Int64.toInt_sub]
  exact bmod_of_fits h

/-- A sum above the range comes out at its lower end. -/
theorem toInt_add_of_le (h : 9223372036854775808 ≤ a.toInt + b.toInt) :
    (a + b).toInt = a.toInt + b.toInt - 18446744073709551616 := by
  have ha := a.toInt_lt
  have hb := b.toInt_lt
  rw [Int64.toInt_add, ← Int.sub_bmod_right]
  exact bmod_of_fits ⟨by omega, by omega⟩

/-- A product is exact if the range holds it, and only then. -/
theorem toInt_mul_eq_iff : (a * b).toInt = a.toInt * b.toInt ↔ Fits (a.toInt * b.toInt) := by
  constructor
  · intro h
    rw [← h]
    exact fits_toInt (a * b)
  · intro h
    rw [Int64.toInt_mul]
    exact bmod_of_fits h

end MachineInt
