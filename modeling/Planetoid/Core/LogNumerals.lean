import Planetoid.Base.Numerals
import Planetoid.Core.LogText

namespace Planetoid.Log

open Planetoid Program Numerals

/-! The numbers of the log, read back from the texts. -/

def digitOf (c : Char) : Option Nat :=
  if '0' ≤ c ∧ c ≤ '9' then some (c.toNat - '0'.toNat)
  else if 'A' ≤ c ∧ c ≤ 'F' then some (c.toNat - 'A'.toNat + 10)
  else none

def readDecimal : List Char → Option Nat := readNumeral 10 digitOf

/-- In a buffer with room for `text`, the program returns how long it is and
stores it at the start of the buffer. Everything else stays as it was. -/
def Writes (program : Nat → Nat → Printer Nat) (text : List Char) : Prop :=
  ∃ need, ∀ budget, need < budget → ∀ done rest, text.length ≤ rest.length →
    (program budget done.length).run (done ++ rest) =
      .ok (text.length, done ++ text ++ rest.drop text.length)

def FitsScratch (capacity base : Nat) (digit : Nat → Char) (value : Nat) :
    Prop :=
  ∃ need temp, temp.length ≤ capacity ∧ ∀ budget, need < budget → ∀ out,
    (takeDigits budget capacity base digit value).run out = .ok (temp, out)

/-- A numeral of `value` of at least `width` digits, behind `0` and `letter`
if it is prefixed. -/
structure PaddedNumeral (base : Nat) (letter : Char) (value : Nat)
    (prefixed : Bool) (width : Nat) (text : List Char) : Prop where
  length : text.length = max width (max (Nat.digits base value).length 1) +
    if prefixed then 2 else 0
  marked : prefixed = true → text.take 2 = ['0', letter]
  reads : readNumeral base digitOf (text.drop (if prefixed then 2 else 0)) =
    some value

theorem Emits.writes {program : Nat → Nat → Printer Nat} {text : List Char}
    (emits : Emits program text) : Writes program text := by
  obtain ⟨need, hneed⟩ := emits
  refine ⟨need, ?_⟩
  intro budget hbudget done rest hfits
  rw [hneed budget hbudget done rest, stored_of_le hfits]

theorem fitsScratch_of_lt {capacity base : Nat} (hbase : 1 < base)
    (digit : Nat → Char) {value : Nat} (h : value < base ^ capacity) :
    FitsScratch capacity base digit value := by
  have hlength := (Nat.digits_length_le_iff hbase value).mpr h
  refine ⟨(Nat.digits base value).length, (Nat.digits base value).map digit,
    by simpa using hlength, ?_⟩
  intro budget hbudget out
  exact run_digitLoop hbase digit out value [] (by simpa using hlength) hbudget

theorem numeral_eq {digit : Nat → Char} (hzero : digit 0 = '0')
    (base value : Nat) :
    numeral base digit value = shortNumeral base digit value := by
  unfold numeral shortNumeral
  rw [hzero]

theorem digitOf_decimalDigit :
    ∀ number, number < 10 → digitOf (decimalDigit number) = some number := by
  decide

theorem digitOf_hexDigit :
    ∀ number, number < 16 → digitOf (hexDigit number) = some number := by
  decide

theorem digitOf_binDigit :
    ∀ number, number < 2 → digitOf (binDigit number) = some number := by
  decide

theorem eq_decimalDigit {c : Char} {number : Nat}
    (h : digitOf c = some number) (hnumber : number < 10) :
    c = decimalDigit number := by
  unfold digitOf at h
  split at h
  · rename_i hrange
    obtain rfl := Option.some.inj h
    have hlow : '0'.toNat ≤ c.toNat := hrange.1
    unfold decimalDigit
    rw [Nat.add_sub_cancel' hlow]
    exact c.ofNat_toNat.symm
  · split at h
    · obtain rfl := Option.some.inj h
      exact absurd hnumber (Nat.not_lt.mpr (Nat.le_add_left ..))
    · cases h

theorem shortest_decimal (value : Nat) :
    Shortest readDecimal value (decimal value) := by
  unfold decimal
  rw [numeral_eq rfl]
  exact shortest_shortNumeral (by decide) digitOf_decimalDigit
    (fun _ _ => eq_decimalDigit) value

theorem shortest_signed (value : Int) :
    Shortest (readSigned '-' readDecimal) value (signed value) :=
  (shortest_decimal value.natAbs).signed
    (fun rest => readNumeral_minus (by decide) rest) rfl

theorem paddedNumeral_padded {base : Nat} (hbase : 1 < base)
    {digit : Nat → Char} (hzero : digit 0 = '0')
    (hdigit : ∀ number, number < base → digitOf (digit number) = some number)
    (letter : Char) (value : Nat) (prefixed : Bool) (width : Nat) :
    PaddedNumeral base letter value prefixed width
      (padded letter prefixed width (numeral base digit value)) := by
  have hlength : ((numeral base digit value).leftpad width '0').length =
      max width (max (Nat.digits base value).length 1) := by
    rw [List.length_leftpad, numeral_eq hzero, length_shortNumeral]
  have hreads : readNumeral base digitOf
      ((numeral base digit value).leftpad width '0') = some value := by
    rw [numeral_eq hzero]
    have hpadded := @readNumeral_leftpad Char base digitOf '0' (by decide)
      (Nat.zero_lt_of_lt hbase) width (shortNumeral base digit value)
      (shortNumeral_ne_nil base digit value)
    rw [hpadded]
    exact readNumeral_shortNumeral hbase hdigit value
  cases prefixed with
  | false => exact ⟨hlength, nofun, hreads⟩
  | true =>
      refine ⟨?_, fun _ => rfl, hreads⟩
      exact congrArg (· + 2) hlength

theorem formatHex_padded (value : UInt64) (prefixed : Bool) (width : UInt32) :
    ∃ text, Writes (fun budget start =>
        formatHex budget value.toNat prefixed width start) text ∧
      PaddedNumeral 16 'x' value.toNat prefixed width.toNat text := by
  have hvalue : value.toNat < 16 ^ 32 :=
    Nat.lt_trans value.toNat_lt (by decide)
  exact ⟨_, (formatBase_emits (by decide) hexDigit 'x' hvalue prefixed
    width).writes, paddedNumeral_padded (by decide) rfl digitOf_hexDigit 'x'
      value.toNat prefixed width.toNat⟩

theorem formatBin_padded (value : UInt64) (prefixed : Bool) (width : UInt32) :
    ∃ text, Writes (fun budget start =>
        formatBin budget value.toNat prefixed width start) text ∧
      PaddedNumeral 2 'b' value.toNat prefixed width.toNat text := by
  have hvalue : value.toNat < 2 ^ 66 :=
    Nat.lt_trans value.toNat_lt (by decide)
  exact ⟨_, (formatBase_emits (by decide) binDigit 'b' hvalue prefixed
    width).writes, paddedNumeral_padded (by decide) rfl digitOf_binDigit 'b'
      value.toNat prefixed width.toNat⟩

theorem formatUint_shortest (value : UInt64) :
    ∃ text, Writes (fun budget start => formatUint budget value.toNat start)
        text ∧
      Shortest readDecimal value.toNat text := by
  have hvalue : value.toNat < 10 ^ 20 :=
    Nat.lt_trans value.toNat_lt (by decide)
  exact ⟨_, (formatUint_emits hvalue).writes, shortest_decimal value.toNat⟩

theorem natAbs_int32_lt (value : Int32) : value.toInt.natAbs < 10 ^ 20 := by
  have hlow := value.le_toInt
  have hhigh := value.toInt_lt
  omega

theorem formatInt_shortest (value : Int32) :
    ∃ text, Writes (fun budget start => formatInt budget value.toInt start)
        text ∧
      Shortest (readSigned '-' readDecimal) value.toInt text :=
  ⟨_, (formatInt_emits (natAbs_int32_lt value)).writes,
    shortest_signed value.toInt⟩

/-- The numbers of the log are written in full, in as many characters as the
formatter returns, and they read back. No scratch array overflows. -/
theorem formats_readBack :
    (∀ (value : UInt64) (prefixed : Bool) (width : UInt32),
      (∃ text, Writes (fun budget start =>
          formatHex budget value.toNat prefixed width start) text ∧
        PaddedNumeral 16 'x' value.toNat prefixed width.toNat text) ∧
      (∃ text, Writes (fun budget start =>
          formatBin budget value.toNat prefixed width start) text ∧
        PaddedNumeral 2 'b' value.toNat prefixed width.toNat text) ∧
      FitsScratch 32 16 hexDigit value.toNat ∧
      FitsScratch 66 2 binDigit value.toNat) ∧
    (∀ value : UInt64,
      (∃ text, Writes (fun budget start =>
          formatUint budget value.toNat start) text ∧
        Shortest readDecimal value.toNat text) ∧
      FitsScratch 20 10 decimalDigit value.toNat) ∧
    ∀ value : Int32,
      (∃ text, Writes (fun budget start =>
          formatInt budget value.toInt start) text ∧
        Shortest (readSigned '-' readDecimal) value.toInt text) ∧
      FitsScratch 20 10 decimalDigit value.toInt.natAbs := by
  refine ⟨?_, ?_, ?_⟩
  · intro value prefixed width
    refine ⟨formatHex_padded value prefixed width,
      formatBin_padded value prefixed width, ?_, ?_⟩
    · exact fitsScratch_of_lt (by decide) hexDigit
        (Nat.lt_trans value.toNat_lt (by decide))
    · exact fitsScratch_of_lt (by decide) binDigit
        (Nat.lt_trans value.toNat_lt (by decide))
  · intro value
    exact ⟨formatUint_shortest value, fitsScratch_of_lt (by decide)
      decimalDigit (Nat.lt_trans value.toNat_lt (by decide))⟩
  · intro value
    exact ⟨formatInt_shortest value, fitsScratch_of_lt (by decide)
      decimalDigit (natAbs_int32_lt value)⟩

end Planetoid.Log
