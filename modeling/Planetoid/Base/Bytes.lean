import Mathlib.Data.Nat.Bitwise

namespace Planetoid

/-! The bytes of a word, in the order of the addresses. -/

def byteOf (word : BitVec 64) (index : Nat) : BitVec 8 :=
  word.extractLsb' (8 * index) 8

def setByte (word : BitVec 64) (index : Nat) (byte : BitVec 8) : BitVec 64 :=
  (word &&& ~~~(0xFF#64 <<< (8 * index))) ||| (byte.setWidth 64 <<< (8 * index))

theorem getLsbD_byte_mask (bit : Nat) :
    (0xFF#64).getLsbD bit = decide (bit < 8) := by
  have hmask : 0xFF#64 = BitVec.ofNat 64 (2 ^ 8 - 1) := rfl
  rw [hmask, BitVec.getLsbD_ofNat, Nat.testBit_two_pow_sub_one]
  by_cases hbit : bit < 8
  · have hlt : bit < 64 := by omega
    simp [hbit, hlt]
  · simp [hbit]

theorem getLsbD_setByte (word : BitVec 64) {index bit : Nat}
    (hbit : bit < 64) (byte : BitVec 8) :
    (setByte word index byte).getLsbD bit =
      if 8 * index ≤ bit ∧ bit < 8 * index + 8 then
        byte.getLsbD (bit - 8 * index)
      else word.getLsbD bit := by
  unfold setByte
  simp only [BitVec.getLsbD_or, BitVec.getLsbD_and, BitVec.getLsbD_not,
    BitVec.getLsbD_shiftLeft, BitVec.getLsbD_setWidth, getLsbD_byte_mask, hbit]
  by_cases hlow : 8 * index ≤ bit
  · have hsub : bit - 8 * index < 64 := by omega
    by_cases hhigh : bit < 8 * index + 8
    · have hin : bit - 8 * index < 8 := by omega
      have hge : ¬ bit < 8 * index := by omega
      simp [hlow, hhigh, hsub, hin, hge]
    · have hout : ¬ bit - 8 * index < 8 := by omega
      have hzero : byte.getLsbD (bit - 8 * index) = false :=
        BitVec.getLsbD_of_ge _ _ (by omega)
      simp [hhigh, hout, hzero]
  · have hlt : bit < 8 * index := by omega
    simp [hlow, hlt]

theorem byteOf_setByte (word : BitVec 64) {index : Nat} (hindex : index < 8)
    (byte : BitVec 8) : byteOf (setByte word index byte) index = byte := by
  apply BitVec.eq_of_getLsbD_eq
  intro bit hbit
  unfold byteOf
  have hsub : 8 * index + bit - 8 * index = bit := by omega
  rw [BitVec.getLsbD_extractLsb', getLsbD_setByte word (by omega),
    if_pos (by omega), hsub]
  simp [hbit]

theorem byteOf_setByte_of_ne (word : BitVec 64) {index other : Nat}
    (hother : other < 8) (h : other ≠ index) (byte : BitVec 8) :
    byteOf (setByte word index byte) other = byteOf word other := by
  apply BitVec.eq_of_getLsbD_eq
  intro bit hbit
  unfold byteOf
  rw [BitVec.getLsbD_extractLsb', BitVec.getLsbD_extractLsb',
    getLsbD_setByte word (by omega), if_neg (by omega)]

theorem eq_of_byteOf_eq {first second : BitVec 64}
    (h : ∀ index, index < 8 → byteOf first index = byteOf second index) :
    first = second := by
  apply BitVec.eq_of_getLsbD_eq
  intro bit hbit
  have hbyte := congrArg (BitVec.getLsbD · (bit % 8)) (h (bit / 8) (by omega))
  unfold byteOf at hbyte
  have hlt : bit % 8 < 8 := Nat.mod_lt _ (by decide)
  simpa [hlt, Nat.div_add_mod] using hbyte

def setBytes (word value : BitVec 64) : Nat → BitVec 64
  | 0 => word
  | count + 1 => setByte (setBytes word value count) count (byteOf value count)

theorem byteOf_setBytes (word value : BitVec 64) {count index : Nat}
    (hcount : count ≤ 8) (hindex : index < count) :
    byteOf (setBytes word value count) index = byteOf value index := by
  induction count with
  | zero => cases hindex
  | succ count ih =>
      rw [setBytes]
      by_cases heq : index = count
      · subst heq
        exact byteOf_setByte _ hcount _
      · rw [byteOf_setByte_of_ne _ (by omega) heq]
        exact ih (by omega) (by omega)

theorem setBytes_eight (word value : BitVec 64) :
    setBytes word value 8 = value :=
  eq_of_byteOf_eq fun _ hindex => byteOf_setBytes _ _ (Nat.le_refl 8) hindex

end Planetoid
