import Mathlib.Data.Nat.Bitwise
import Mathlib.Logic.Function.Basic

namespace Planetoid

/-! Sets of indices as the bits of an array of bytes. -/

abbrev Bitmap := Nat → BitVec 8

namespace Bitmap

def test (bitmap : Bitmap) (index : Nat) : Bool :=
  (bitmap (index / 8) &&& (1#8 <<< (index % 8))) != 0#8

def set (bitmap : Bitmap) (index : Nat) : Bitmap :=
  Function.update bitmap (index / 8)
    (bitmap (index / 8) ||| (1#8 <<< (index % 8)))

def clear (bitmap : Bitmap) (index : Nat) : Bitmap :=
  Function.update bitmap (index / 8)
    (bitmap (index / 8) &&& ~~~(1#8 <<< (index % 8)))

theorem getLsbD_bit {bit other : Nat} (hother : other < 8) :
    (1#8 <<< bit).getLsbD other = decide (other = bit) := by
  rw [BitVec.getLsbD_shiftLeft, BitVec.getLsbD_one]
  by_cases heq : other = bit
  · subst other
    simp [hother]
  · simp only [hother, decide_true, heq, decide_false]
    simp
    omega

theorem test_eq (bitmap : Bitmap) (index : Nat) :
    bitmap.test index = (bitmap (index / 8)).getLsbD (index % 8) := by
  have hlt : index % 8 < 8 := Nat.mod_lt _ (by decide)
  unfold test
  generalize bitmap (index / 8) = byte
  generalize index % 8 = bit at hlt
  cases hbit : byte.getLsbD bit with
  | true =>
      rw [bne_iff_ne]
      intro hzero
      have hget := congrArg (fun value => BitVec.getLsbD value bit) hzero
      simp only [BitVec.getLsbD_and, getLsbD_bit hlt, hbit] at hget
      simp at hget
  | false =>
      rw [bne_eq_false_iff_eq]
      apply BitVec.eq_of_getLsbD_eq
      intro other hother
      rw [BitVec.getLsbD_and, getLsbD_bit hother]
      by_cases heq : other = bit
      · subst other
        simp [hbit]
      · simp [heq]

@[simp] theorem test_set (bitmap : Bitmap) (index other : Nat) :
    (bitmap.set index).test other =
      (decide (other = index) || bitmap.test other) := by
  have hlt : other % 8 < 8 := Nat.mod_lt _ (by decide)
  rw [test_eq, test_eq]
  unfold set
  by_cases hbyte : other / 8 = index / 8
  · have hindex : other % 8 = index % 8 ↔ other = index := by omega
    rw [hbyte, Function.update_self, BitVec.getLsbD_or, getLsbD_bit hlt,
      Bool.or_comm]
    simp only [hindex]
  · have hne : other ≠ index := by
      rintro rfl
      exact hbyte rfl
    rw [Function.update_of_ne hbyte]
    simp [hne]

@[simp] theorem test_clear (bitmap : Bitmap) (index other : Nat) :
    (bitmap.clear index).test other =
      (!decide (other = index) && bitmap.test other) := by
  have hlt : other % 8 < 8 := Nat.mod_lt _ (by decide)
  rw [test_eq, test_eq]
  unfold clear
  by_cases hbyte : other / 8 = index / 8
  · have hindex : other % 8 = index % 8 ↔ other = index := by omega
    rw [hbyte, Function.update_self, BitVec.getLsbD_and, BitVec.getLsbD_not,
      getLsbD_bit hlt, Bool.and_comm]
    simp [hindex, hlt]
  · have hne : other ≠ index := by
      rintro rfl
      exact hbyte rfl
    rw [Function.update_of_ne hbyte]
    simp [hne]

theorem test_of_byte {bitmap : Bitmap} {index : Nat} {value : BitVec 8}
    (h : bitmap (index / 8) = value) :
    bitmap.test index = value.getLsbD (index % 8) := by
  rw [test_eq, h]

theorem eq_of_test {bitmap other : Bitmap}
    (h : ∀ index, bitmap.test index = other.test index) : bitmap = other := by
  funext byte
  apply BitVec.eq_of_getLsbD_eq
  intro bit hbit
  have htest := h (8 * byte + bit)
  rw [test_eq, test_eq] at htest
  have hbyte : (8 * byte + bit) / 8 = byte := by omega
  have hmod : (8 * byte + bit) % 8 = bit := by omega
  rwa [hbyte, hmod] at htest

end Bitmap

end Planetoid
