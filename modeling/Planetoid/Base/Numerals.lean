import Mathlib.Data.Nat.Digits.Lemmas

namespace Planetoid.Numerals

/-! Numerals over any characters, the leading digit first. -/

section

variable {χ : Type} (base : Nat) (valueOf : χ → Option Nat)

def readFrom (value : Nat) : List χ → Option Nat
  | [] => some value
  | c :: rest => match valueOf c with
    | none => none
    | some digit =>
      if digit < base then readFrom (value * base + digit) rest else none

/-- The value of a numeral, which has one digit at least. -/
def readNumeral : List χ → Option Nat
  | [] => none
  | text => readFrom base valueOf 0 text

def shortNumeral (digit : Nat → χ) (value : Nat) : List χ :=
  if value = 0 then [digit 0]
  else ((Nat.digits base value).map digit).reverse

def readSigned [DecidableEq χ] (minus : χ) (read : List χ → Option Nat) :
    List χ → Option Int
  | [] => none
  | c :: rest =>
    if c = minus then (read rest).map fun value : Nat => -(value : Int)
    else (read (c :: rest)).map fun value : Nat => (value : Int)

structure Shortest {ν : Type} (read : List χ → Option ν) (value : ν)
    (text : List χ) : Prop where
  reads : read text = some value
  shortest : ∀ other, read other = some value →
    other = text ∨ text.length < other.length

end

section

variable {χ : Type} {base : Nat} {valueOf : χ → Option Nat}
  {digit : Nat → χ} {value result : Nat}

theorem readFrom_cons {c : χ} {rest : List χ} {found : Nat}
    (hvalue : valueOf c = some found) (hdigit : found < base) :
    readFrom base valueOf value (c :: rest) =
      readFrom base valueOf (value * base + found) rest := by
  simp [readFrom, hvalue, hdigit]

theorem readFrom_cons_eq_some {c : χ} {rest : List χ}
    (h : readFrom base valueOf value (c :: rest) = some result) :
    ∃ found, valueOf c = some found ∧ found < base ∧
      readFrom base valueOf (value * base + found) rest = some result := by
  unfold readFrom at h
  split at h
  · cases h
  · rename_i found hvalue
    split at h
    · exact ⟨found, hvalue, ‹_›, h⟩
    · cases h

theorem readFrom_append (front back : List χ) :
    readFrom base valueOf value (front ++ back) =
      (readFrom base valueOf value front).bind fun middle =>
        readFrom base valueOf middle back := by
  induction front generalizing value with
  | nil => rfl
  | cons c rest ih =>
      cases hvalue : valueOf c with
      | none => simp [readFrom, hvalue]
      | some found =>
          by_cases hdigit : found < base
          · rw [List.cons_append, readFrom_cons hvalue hdigit,
              readFrom_cons hvalue hdigit]
            exact ih
          · simp [readFrom, hvalue, hdigit]

theorem readFrom_digits
    (hdigit : ∀ number, number < base → valueOf (digit number) = some number)
    (numbers : List Nat) (hnumbers : ∀ number, number ∈ numbers →
      number < base) :
    readFrom base valueOf value (numbers.map digit).reverse =
      some (value * base ^ numbers.length + Nat.ofDigits base numbers) := by
  induction numbers with
  | nil => simp [readFrom]
  | cons number numbers ih =>
      have hfirst := hnumbers number List.mem_cons_self
      have hrest := ih fun other hmem =>
        hnumbers other (List.mem_cons_of_mem _ hmem)
      rw [List.map_cons, List.reverse_cons, readFrom_append, hrest,
        Option.bind_some, readFrom_cons (hdigit number hfirst) hfirst]
      apply congrArg some
      rw [Nat.ofDigits_cons, List.length_cons, Nat.pow_succ, Nat.add_mul,
        Nat.mul_assoc, Nat.add_assoc, Nat.mul_comm base]
      exact congrArg _ (Nat.add_comm ..)

theorem readFrom_zeros {zero : χ} (hzero : valueOf zero = some 0)
    (hbase : 0 < base) (count : Nat) (text : List χ) :
    readFrom base valueOf 0 (List.replicate count zero ++ text) =
      readFrom base valueOf 0 text := by
  induction count with
  | zero => rfl
  | succ count ih =>
      rw [List.replicate_succ, List.cons_append, readFrom_cons hzero hbase,
        Nat.zero_mul, Nat.zero_add]
      exact ih

theorem readNumeral_of_ne_nil {text : List χ} (h : text ≠ []) :
    readNumeral base valueOf text = readFrom base valueOf 0 text := by
  cases text with
  | nil => exact absurd rfl h
  | cons c rest => rfl

theorem readNumeral_eq_some {text : List χ}
    (h : readNumeral base valueOf text = some result) :
    text ≠ [] ∧ readFrom base valueOf 0 text = some result := by
  cases text with
  | nil => cases h
  | cons c rest => exact ⟨List.cons_ne_nil c rest, h⟩

theorem readNumeral_leftpad {zero : χ} (hzero : valueOf zero = some 0)
    (hbase : 0 < base) (width : Nat) {text : List χ} (h : text ≠ []) :
    readNumeral base valueOf (text.leftpad width zero) =
      readNumeral base valueOf text := by
  have hpadded : text.leftpad width zero ≠ [] :=
    List.append_ne_nil_of_right_ne_nil _ h
  rw [readNumeral_of_ne_nil h, readNumeral_of_ne_nil hpadded]
  exact readFrom_zeros hzero hbase _ text

theorem readFrom_div (hbase : 0 < base) {text : List χ}
    (h : readFrom base valueOf value text = some result) :
    result / base ^ text.length = value := by
  induction text generalizing value with
  | nil =>
      obtain rfl := Option.some.inj h
      simp
  | cons c rest ih =>
      obtain ⟨found, _, hdigit, hrest⟩ := readFrom_cons_eq_some h
      rw [List.length_cons, Nat.pow_succ, ← Nat.div_div_eq_div_mul, ih hrest,
        Nat.mul_comm, Nat.mul_add_div hbase, Nat.div_eq_of_lt hdigit,
        Nat.add_zero]

theorem readFrom_injective (hbase : 0 < base)
    (hvalues : ∀ c number, valueOf c = some number → number < base →
      c = digit number) {first second : List χ}
    (hlength : first.length = second.length)
    (hfirst : readFrom base valueOf value first = some result)
    (hsecond : readFrom base valueOf value second = some result) :
    first = second := by
  induction first generalizing second value with
  | nil => exact (List.length_eq_zero_iff.mp hlength.symm).symm
  | cons c rest ih =>
      cases second with
      | nil => cases hlength
      | cons other others =>
          have hrests := Nat.succ.inj hlength
          obtain ⟨number, hc, hnumber, hrest⟩ := readFrom_cons_eq_some hfirst
          obtain ⟨found, hother, hfound, hothers⟩ :=
            readFrom_cons_eq_some hsecond
          have hsame : number = found := by
            have hquotient := readFrom_div hbase hrest
            rw [hrests, readFrom_div hbase hothers] at hquotient
            exact (Nat.add_left_cancel hquotient).symm
          subst hsame
          rw [hvalues c number hc hnumber, hvalues other number hother hnumber,
            ih hrests hrest hothers]

theorem length_shortNumeral (base : Nat) (digit : Nat → χ) (value : Nat) :
    (shortNumeral base digit value).length =
      max (Nat.digits base value).length 1 := by
  unfold shortNumeral
  split
  · rename_i hzero
    simp [hzero]
  · rename_i hvalue
    have hpositive : 0 < (Nat.digits base value).length :=
      List.length_pos_iff.mpr (Nat.digits_ne_nil_iff_ne_zero.mpr hvalue)
    rw [List.length_reverse, List.length_map]
    exact (Nat.max_eq_left hpositive).symm

theorem shortNumeral_ne_nil (base : Nat) (digit : Nat → χ) (value : Nat) :
    shortNumeral base digit value ≠ [] := by
  rw [← List.length_pos_iff, length_shortNumeral]
  exact Nat.lt_of_lt_of_le Nat.zero_lt_one (Nat.le_max_right ..)

theorem readNumeral_shortNumeral (hbase : 1 < base)
    (hdigit : ∀ number, number < base → valueOf (digit number) = some number)
    (value : Nat) :
    readNumeral base valueOf (shortNumeral base digit value) = some value := by
  rw [readNumeral_of_ne_nil (shortNumeral_ne_nil base digit value)]
  unfold shortNumeral
  split
  · rename_i hzero
    have hlt := Nat.zero_lt_of_lt hbase
    rw [readFrom_cons (hdigit 0 hlt) hlt, Nat.zero_mul, hzero]
    rfl
  · have hread := @readFrom_digits χ base valueOf digit 0 hdigit
      (Nat.digits base value) fun number hmem =>
        Nat.digits_lt_base hbase hmem
    rw [hread, Nat.zero_mul, Nat.zero_add, Nat.ofDigits_digits]

theorem length_of_readNumeral (hbase : 1 < base) {text : List χ}
    (h : readNumeral base valueOf text = some value) :
    max (Nat.digits base value).length 1 ≤ text.length := by
  obtain ⟨hnonempty, hread⟩ := readNumeral_eq_some h
  have hdiv := readFrom_div (Nat.zero_lt_of_lt hbase) hread
  have hlt : value < base ^ text.length :=
    (Nat.div_eq_zero_iff_lt (Nat.pow_pos (Nat.zero_lt_of_lt hbase))).mp hdiv
  exact Nat.max_le.mpr ⟨(Nat.digits_length_le_iff hbase value).mpr hlt,
    List.length_pos_iff.mpr hnonempty⟩

theorem shortest_shortNumeral (hbase : 1 < base)
    (hdigit : ∀ number, number < base → valueOf (digit number) = some number)
    (hvalues : ∀ c number, valueOf c = some number → number < base →
      c = digit number) (value : Nat) :
    Shortest (readNumeral base valueOf) value
      (shortNumeral base digit value) where
  reads := readNumeral_shortNumeral hbase hdigit value
  shortest := by
    intro other hother
    have hlength := length_of_readNumeral hbase hother
    rw [← length_shortNumeral base digit value] at hlength
    cases Nat.eq_or_lt_of_le hlength with
    | inr hlonger => exact .inr hlonger
    | inl hsame =>
        have hread := (readNumeral_eq_some
          (readNumeral_shortNumeral hbase hdigit value)).2
        exact .inl (readFrom_injective (Nat.zero_lt_of_lt hbase) hvalues
          hsame.symm (readNumeral_eq_some hother).2 hread)

theorem readNumeral_minus {minus : χ} (hminus : valueOf minus = none)
    (rest : List χ) : readNumeral base valueOf (minus :: rest) = none := by
  simp [readNumeral, readFrom, hminus]

end

section

variable {χ : Type} [DecidableEq χ] {minus : χ} {read : List χ → Option Nat}

theorem readSigned_minus (rest : List χ) :
    readSigned minus read (minus :: rest) =
      (read rest).map fun value : Nat => -(value : Int) :=
  if_pos rfl

theorem readSigned_plain {text : List χ} {value : Nat}
    (hminus : ∀ rest, read (minus :: rest) = none)
    (hempty : read [] = none) (h : read text = some value) :
    readSigned minus read text = some (value : Int) := by
  cases text with
  | nil => cases hempty.symm.trans h
  | cons c rest =>
      have hne : c ≠ minus := by
        rintro rfl
        cases (hminus rest).symm.trans h
      have hread : readSigned minus read (c :: rest) =
          (read (c :: rest)).map fun value : Nat => (value : Int) :=
        if_neg hne
      rw [hread, h]
      rfl

theorem readSigned_eq_some {text : List χ} {value : Int}
    (h : readSigned minus read text = some value) :
    (∃ rest number, text = minus :: rest ∧ read rest = some number ∧
      value = -(number : Int)) ∨
    ∃ number, read text = some number ∧ value = (number : Int) := by
  cases text with
  | nil => cases h
  | cons c rest =>
      simp only [readSigned] at h
      split at h
      · rename_i hminus
        obtain ⟨number, hread, hvalue⟩ := Option.map_eq_some_iff.mp h
        exact .inl ⟨rest, number, by rw [hminus], hread, hvalue.symm⟩
      · obtain ⟨number, hread, hvalue⟩ := Option.map_eq_some_iff.mp h
        exact .inr ⟨number, hread, hvalue.symm⟩

theorem Shortest.signed (hminus : ∀ rest, read (minus :: rest) = none)
    (hempty : read [] = none) {value : Int} {text : List χ}
    (shortest : Shortest read value.natAbs text) :
    Shortest (readSigned minus read) value
      (if value < 0 then minus :: text else text) := by
  split
  · rename_i hnegative
    refine ⟨?_, ?_⟩
    · rw [readSigned_minus, shortest.reads, Option.map_some]
      apply congrArg some
      omega
    · intro other hother
      rcases readSigned_eq_some hother with
        ⟨rest, number, rfl, hread, hvalue⟩ | ⟨number, _, hvalue⟩
      · have hnumber : number = value.natAbs := by omega
        rw [hnumber] at hread
        rcases shortest.shortest rest hread with rfl | hlonger
        · exact .inl rfl
        · exact .inr (Nat.succ_lt_succ hlonger)
      · omega
  · rename_i hpositive
    refine ⟨?_, ?_⟩
    · rw [readSigned_plain hminus hempty shortest.reads]
      apply congrArg some
      omega
    · intro other hother
      rcases readSigned_eq_some hother with
        ⟨rest, number, rfl, hread, hvalue⟩ | ⟨number, hread, hvalue⟩
      · -- only a zero has a sign to spare
        have hnumber : number = value.natAbs := by omega
        rw [hnumber] at hread
        rcases shortest.shortest rest hread with rfl | hlonger
        · exact .inr (Nat.lt_succ_self _)
        · exact .inr (Nat.lt_succ_of_lt hlonger)
      · have hnumber : number = value.natAbs := by omega
        rw [hnumber] at hread
        exact shortest.shortest other hread

end

end Planetoid.Numerals
