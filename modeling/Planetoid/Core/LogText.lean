import Mathlib.Data.Nat.Digits.Lemmas
import Planetoid.Core.Log

namespace Planetoid.Log

open Planetoid Program

/-! The texts that the conversions store. -/

def numeral (base : Nat) (digit : Nat → Char) (value : Nat) : List Char :=
  if value = 0 then ['0'] else ((Nat.digits base value).map digit).reverse

def decimal (value : Nat) : List Char := numeral 10 decimalDigit value

def signed (value : Int) : List Char :=
  if value < 0 then '-' :: decimal value.natAbs else decimal value.natAbs

/-- A numeral padded with zeros, behind `0x` or `0b` if asked for. -/
def padded (letter : Char) (prefixed : Bool) (width : Nat)
    (text : List Char) : List Char :=
  (if prefixed then ['0', letter] else []) ++ text.leftpad width '0'

theorem numeral_ne_nil (base : Nat) (digit : Nat → Char) (value : Nat) :
    numeral base digit value ≠ [] := by
  unfold numeral
  split
  · simp
  · rename_i hvalue
    simpa [Nat.digits_eq_nil_iff_eq_zero] using hvalue

def stored (done text rest : List Char) :
    Except PrintFault (Nat × List Char) :=
  if text.length ≤ rest.length then
    .ok (text.length, done ++ text ++ rest.drop text.length)
  else
    .error .outOfBounds

def Emits (program : Nat → Nat → Printer Nat) (text : List Char) : Prop :=
  ∃ need, ∀ budget, need < budget → ∀ done rest,
    (program budget done.length).run (done ++ rest) = stored done text rest

theorem run_store (index : Nat) (c : Char) (out : List Char) :
    (store index c).run out =
      if index < out.length then .ok ((), out.set index c)
      else .error .outOfBounds := by
  simp only [store, run_access, run_ite]
  split <;> rfl

theorem run_store_append (done rest : List Char) (index : Nat) (c : Char) :
    (store (done.length + index) c).run (done ++ rest) =
      if index < rest.length then .ok ((), done ++ rest.set index c)
      else .error .outOfBounds := by
  simp only [run_store, List.length_append, Nat.add_lt_add_iff_left,
    List.set_append_right _ _ (Nat.le_add_right ..), Nat.add_sub_cancel_left]

theorem run_load_append {done rest : List Char} {index : Nat} {c : Char}
    (h : rest[index]? = some c) :
    (load (done.length + index)).run (done ++ rest) =
      .ok (c, done ++ rest) := by
  have hget : (done ++ rest)[done.length + index]? = some c := by
    rw [List.getElem?_append_right (Nat.le_add_right ..),
      Nat.add_sub_cancel_left, h]
  simp [load, hget]

theorem run_storeAll (text done rest : List Char)
    (body : Nat → Printer Unit)
    (h : ∀ index, index < text.length →
      body index = store (done.length + index) (text.getD index nul)) :
    (forEach body 0 text.length).run (done ++ rest) =
      if text.length ≤ rest.length then
        .ok ((), done ++ text ++ rest.drop text.length)
      else .error .outOfBounds := by
  let states : Nat → List Char :=
    fun index => done ++ (text.take index ++ rest.drop index)
  have hstep : ∀ index, index < text.length → index < rest.length →
      (body (0 + index)).run (states index) = .ok ((), states (index + 1)) := by
    intro index htext hrest
    rw [Nat.zero_add, h index htext]
    refine (run_store_append ..).trans ?_
    have hlength : (text.take index).length = index :=
      List.length_take_of_le (Nat.le_of_lt htext)
    rw [if_pos (by simp [hlength]; omega)]
    have hset : (text.take index ++ rest.drop index).set index
        (text.getD index nul) =
        text.take (index + 1) ++ rest.drop (index + 1) := by
      have hget : text.getD index nul = text[index] := by simp [htext]
      rw [List.set_append_right _ _ (Nat.le_of_eq hlength), hlength,
        Nat.sub_self, List.drop_eq_getElem_cons hrest, List.set_cons_zero,
        List.take_succ_eq_append_getElem htext, hget, List.append_assoc]
      rfl
    rw [hset]
  split
  · rename_i hfits
    have hrun := @run_forEach _ _ body states 0 text.length fun index hindex =>
      hstep index hindex (Nat.lt_of_lt_of_le hindex hfits)
    simpa [states] using hrun
  · rename_i hfits
    have hlt := Nat.lt_of_not_le hfits
    have hrun := @run_forEach_error _ _ body states 0 text.length rest.length
      .outOfBounds hlt (fun index hindex =>
        hstep index (Nat.lt_trans hindex hlt) hindex)
    have hfirst : states 0 = done ++ rest := by simp [states]
    rw [← hfirst]
    apply hrun
    rw [Nat.zero_add, h _ hlt]
    refine (run_store_append ..).trans ?_
    rw [if_neg (by simp)]

theorem run_shift {text : List Char} (hnonempty : text ≠ []) (pad : Nat)
    (done rest : List Char) (body : Nat → Printer Unit)
    (h : ∀ step, step < text.length → body step = do
      store (done.length + (text.length - step + pad - 1))
        (← load (done.length + (text.length - step - 1)))) :
    (forEach body 0 text.length).run (done ++ (text ++ rest)) =
      if pad ≤ rest.length then
        .ok ((), done ++ ((text ++ rest).take pad ++ text ++ rest.drop pad))
      else .error .outOfBounds := by
  let states : Nat → List Char := fun step =>
    done ++ ((text ++ rest).take (text.length - step + pad) ++
      text.drop (text.length - step) ++ rest.drop pad)
  split
  · rename_i hfits
    have hrun := @run_forEach _ _ body states 0 text.length
    have hfirst : states 0 = done ++ (text ++ rest) := by
      simp [states, List.take_append]
    have hlast : states text.length =
        done ++ ((text ++ rest).take pad ++ text ++ rest.drop pad) := by
      simp [states]
    rw [hfirst, hlast] at hrun
    apply hrun
    intro step hstep
    obtain ⟨last, hlast⟩ : ∃ last, text.length - step = last + 1 :=
      Nat.exists_eq_succ_of_ne_zero (by omega)
    have hlt : last < text.length := by omega
    have hnext : text.length - (step + 1) = last := by omega
    have hlength : last + pad < (text ++ rest).length := by simp; omega
    have hmiddle : (text ++ rest).take (last + 1 + pad) =
        (text ++ rest).take (last + pad) ++ [(text ++ rest)[last + pad]] := by
      rw [Nat.add_right_comm, List.take_succ_eq_append_getElem hlength]
    have htake : ((text ++ rest).take (last + pad)).length = last + pad :=
      List.length_take_of_le (Nat.le_of_lt hlength)
    simp only [states]
    rw [Nat.zero_add, h step hstep, hlast, hnext, Nat.add_sub_cancel]
    have hvalue : ((text ++ rest).take (last + 1 + pad) ++
        text.drop (last + 1) ++ rest.drop pad)[last]? = some text[last] := by
      rw [List.append_assoc, List.getElem?_append_left (by simp; omega),
        List.getElem?_take_of_lt (by omega), List.getElem?_append_left hlt,
        List.getElem?_eq_getElem hlt]
    have hindex : last + 1 + pad - 1 = last + pad := by omega
    rw [run_bind_ok (run_load_append hvalue), hindex, run_store_append,
      if_pos (by simp; omega), hmiddle, List.append_assoc, List.append_assoc,
      List.set_append_right _ _ (Nat.le_of_eq htake), htake, Nat.sub_self,
      List.drop_eq_getElem_cons hlt]
    simp only [List.append_assoc, List.cons_append, List.nil_append,
      List.set_cons_zero]
  · rename_i hfits
    obtain ⟨count, hcount⟩ : ∃ count, text.length = count + 1 :=
      Nat.exists_eq_succ_of_ne_zero (by simpa using hnonempty)
    have hbody := h 0 (by omega)
    have hvalue : (text ++ rest)[text.length - 0 - 1]? = text.getLast? := by
      rw [List.getElem?_append_left (by omega), List.getLast?_eq_getElem?]
      rfl
    rw [List.getLast?_eq_some_getLast hnonempty] at hvalue
    have hfailed : (body 0).run (done ++ (text ++ rest)) =
        .error .outOfBounds := by
      rw [hbody, run_bind_ok (run_load_append hvalue),
        run_store_append, if_neg]
      simp
      omega
    rw [hcount, forEach]
    exact run_bind_error hfailed _

theorem run_digitLoop {base capacity : Nat} (hbase : 1 < base)
    (digit : Nat → Char) (out : List Char) (value : Nat) (temp : List Char)
    (hcapacity : temp.length + (Nat.digits base value).length ≤ capacity)
    {budget : Nat} (hbudget : (Nat.digits base value).length < budget) :
    (whileLoop .budgetExhausted (digitLoop capacity base digit) budget
      (value, temp)).run out =
        .ok (temp ++ (Nat.digits base value).map digit, out) := by
  induction value using Nat.strong_induction_on generalizing temp budget with
  | _ value ih =>
      obtain ⟨budget, rfl⟩ : ∃ less, budget = less + 1 :=
        Nat.exists_eq_succ_of_ne_zero (Nat.ne_zero_of_lt hbudget)
      cases Nat.eq_zero_or_pos value with
      | inl hzero =>
          subst value
          rw [Nat.digits_zero, List.map_nil, List.append_nil]
          exact run_whileLoop_leave rfl budget
      | inr hpos =>
          rw [Nat.digits_def' hbase hpos] at hcapacity hbudget ⊢
          simp only [List.length_cons] at hcapacity hbudget
          have hstep : (digitLoop capacity base digit (value, temp)).run out =
              .ok (.inl (value / base, temp ++ [digit (value % base)]),
                out) := by
            simp [digitLoop, hpos, show temp.length < capacity by omega]
          rw [run_whileLoop_next hstep]
          rw [ih (value / base) (Nat.div_lt_self hpos hbase)
            (temp ++ [digit (value % base)]) (by simp; omega) (by omega)]
          simp

theorem run_copyReversed (temp done rest : List Char) :
    (copyReversed temp done.length).run (done ++ rest) =
      if temp.length ≤ rest.length then
        .ok ((), done ++ temp.reverse ++ rest.drop temp.length)
      else .error .outOfBounds := by
  have hrun := run_storeAll temp.reverse done rest
    (fun i => store (done.length + i) (temp.getD (temp.length - 1 - i) nul))
  rw [List.length_reverse] at hrun
  apply hrun
  intro index hindex
  rw [List.getD_eq_getElem?_getD, List.getD_eq_getElem?_getD,
    List.getElem?_reverse hindex]

theorem run_padLeft {text : List Char} (hnonempty : text ≠ [])
    (width : Nat) (done rest : List Char) :
    (padLeft done.length text.length width).run (done ++ (text ++ rest)) =
      stored done (text.leftpad width '0') (text ++ rest) := by
  unfold padLeft stored
  split
  · rename_i hwidth
    have hpadded : text.leftpad width '0' = text := by
      simp [List.leftpad, Nat.sub_eq_zero_of_le hwidth]
    rw [hpadded, if_pos (by simp)]
    simp
  · rename_i hwidth
    obtain ⟨pad, rfl⟩ : ∃ pad, width = text.length + pad :=
      Nat.exists_eq_add_of_le (by omega)
    have hpadded : text.leftpad (text.length + pad) '0' =
        List.replicate pad '0' ++ text := by
      simp [List.leftpad]
    rw [hpadded, Nat.add_sub_cancel_left]
    have hshift := run_shift hnonempty pad done rest _ fun step _ => rfl
    have hfill := run_storeAll (List.replicate pad '0') done
      ((text ++ rest).take pad ++ text ++ rest.drop pad)
      (fun i => store (done.length + i) '0') (by
        intro index hindex
        simp_all)
    rw [List.length_replicate] at hfill
    by_cases hfits : pad ≤ rest.length
    · rw [if_pos hfits] at hshift
      rw [run_bind_ok hshift, if_pos (by simp; omega)]
      rw [if_pos (by simp; omega)] at hfill
      have hrest : ((text ++ rest).take pad ++ text ++ rest.drop pad).drop
          pad = text ++ rest.drop pad := by
        rw [List.append_assoc, List.drop_append_of_le_length (by simp; omega)]
        simp
      have hleft : (text ++ rest).drop (List.replicate pad '0' ++
          text).length = rest.drop pad := by
        rw [List.length_append, List.length_replicate, Nat.add_comm,
          List.drop_length_add_append]
      rw [hrest] at hfill
      rw [run_bind_ok hfill, hleft]
      simp [Nat.add_comm]
    · rw [if_neg hfits] at hshift
      rw [run_bind_error hshift, if_neg (by simp; omega)]

theorem run_store_first (done rest : List Char) (c : Char) :
    (store done.length c).run (done ++ rest) =
      if rest = [] then .error .outOfBounds
      else .ok ((), done ++ c :: rest.tail) := by
  have hrun := run_store_append done rest 0 c
  rw [Nat.add_zero] at hrun
  rw [hrun]
  cases rest with
  | nil => rfl
  | cons first rest => simp

theorem stored_of_le {done text rest : List Char}
    (h : text.length ≤ rest.length) :
    stored done text rest =
      .ok (text.length, done ++ text ++ rest.drop text.length) :=
  if_pos h

theorem stored_of_lt {done text rest : List Char}
    (h : rest.length < text.length) :
    stored done text rest = .error .outOfBounds :=
  if_neg (Nat.not_le.mpr h)

theorem formatUint_emits {value : Nat} (h : value < 10 ^ 20) :
    Emits (fun budget start => formatUint budget value start)
      (decimal value) := by
  refine ⟨(Nat.digits 10 value).length, ?_⟩
  intro budget hbudget done rest
  unfold formatUint decimal numeral
  split
  · rename_i hzero
    cases rest with
    | nil =>
        exact run_bind_error ((run_store_first done [] '0').trans
          (if_pos rfl)) _
    | cons first rest =>
        rw [run_bind_ok ((run_store_first done (first :: rest) '0').trans
          (if_neg (by simp))), stored_of_le (by simp)]
        simp
  · rename_i hvalue
    have hlength := (Nat.digits_length_le_iff (by decide) value).mpr h
    have hdigits := run_digitLoop (by decide) decimalDigit (done ++ rest) value
      [] (by simpa using hlength) hbudget
    rw [List.nil_append] at hdigits
    have hcopy := run_copyReversed ((Nat.digits 10 value).map decimalDigit)
      done rest
    unfold takeDigits
    rw [run_bind_ok hdigits]
    unfold stored
    rw [List.length_reverse]
    by_cases hfits : ((Nat.digits 10 value).map decimalDigit).length ≤
        rest.length
    · rw [if_pos hfits] at hcopy ⊢
      rw [run_bind_ok hcopy]
      rfl
    · rw [if_neg hfits] at hcopy ⊢
      exact run_bind_error hcopy _

theorem formatInt_emits {value : Int} (h : value.natAbs < 10 ^ 20) :
    Emits (fun budget start => formatInt budget value start)
      (signed value) := by
  obtain ⟨need, hneed⟩ := formatUint_emits h
  refine ⟨need, ?_⟩
  intro budget hbudget done rest
  unfold formatInt signed
  split
  · cases rest with
    | nil =>
        exact run_bind_error ((run_store_first done [] '-').trans
          (if_pos rfl)) _
    | cons first rest =>
        have hfirst : (store done.length '-').run (done ++ first :: rest) =
            .ok ((), done ++ '-' :: rest) :=
          (run_store_first done (first :: rest) '-').trans (if_neg (by simp))
        rw [run_bind_ok hfirst]
        have hdigits : (formatUint budget value.natAbs
            (done.length + 1)).run (done ++ '-' :: rest) =
              stored (done ++ ['-']) (decimal value.natAbs) rest := by
          have hrun := hneed budget hbudget (done ++ ['-']) rest
          rwa [List.length_append, List.append_assoc] at hrun
        by_cases hfits : (decimal value.natAbs).length ≤ rest.length
        · rw [stored_of_le hfits] at hdigits
          rw [run_bind_ok hdigits, stored_of_le (by simpa using hfits),
            List.length_cons, List.drop_succ_cons]
          simp [Nat.add_comm]
        · rw [stored_of_lt (Nat.lt_of_not_le hfits)] at hdigits
          rw [run_bind_error hdigits, stored_of_lt]
          simpa using hfits
  · exact hneed budget hbudget done rest

theorem le_length_leftpad (width : Nat) (c : Char) (text : List Char) :
    text.length ≤ (text.leftpad width c).length := by
  rw [List.length_leftpad]
  exact Nat.le_max_right ..

theorem leftpad_ne_nil {text : List Char} (hnonempty : text ≠ [])
    (width : Nat) (c : Char) : text.leftpad width c ≠ [] := by
  rw [← List.length_pos_iff] at hnonempty ⊢
  exact Nat.lt_of_lt_of_le hnonempty (le_length_leftpad width c text)

theorem run_reversedDigits {base capacity : Nat} (hbase : 1 < base)
    (digit : Nat → Char) {value : Nat} (h : value < base ^ capacity)
    {budget : Nat} (hbudget : (Nat.digits base value).length < budget)
    (out : List Char) :
    (reversedDigits budget capacity base digit value).run out =
      .ok ((numeral base digit value).reverse, out) := by
  unfold reversedDigits numeral
  split
  · rfl
  · have hlength := (Nat.digits_length_le_iff hbase value).mpr h
    rw [List.reverse_reverse]
    exact run_digitLoop hbase digit out value [] (by simpa using hlength)
      hbudget

theorem run_addPrefix {text : List Char} (hnonempty : text ≠ [])
    (letter : Char) (done rest : List Char) :
    (addPrefix letter done.length text.length).run (done ++ (text ++ rest)) =
      stored done ('0' :: letter :: text) (text ++ rest) := by
  have hshift := run_shift hnonempty 2 done rest
    (fun step => do
      let i := text.length - step
      store (done.length + (i + 1)) (← load (done.length + (i - 1))))
    fun step _ => rfl
  unfold addPrefix
  by_cases hfits : 2 ≤ rest.length
  · rw [if_pos hfits] at hshift
    rw [run_bind_ok hshift, stored_of_le (by simp; omega)]
    obtain ⟨first, second, htake⟩ : ∃ first second,
        (text ++ rest).take 2 = [first, second] :=
      List.length_eq_two.mp (by simp; omega)
    rw [htake]
    have hzero : (store done.length '0').run
        (done ++ ([first, second] ++ text ++ rest.drop 2)) =
          .ok ((), done ++ '0' :: second :: (text ++ rest.drop 2)) :=
      (run_store_first done _ '0').trans (if_neg (by simp))
    have hletter : (store (done.length + 1) letter).run
        (done ++ '0' :: second :: (text ++ rest.drop 2)) =
          .ok ((), done ++ '0' :: letter :: (text ++ rest.drop 2)) :=
      (run_store_append done _ 1 letter).trans (if_pos (by simp))
    have hleft : (text ++ rest).drop (text.length + 2) = rest.drop 2 :=
      List.drop_length_add_append ..
    rw [run_bind_ok hzero, run_bind_ok hletter]
    simp [hleft]
  · rw [if_neg hfits] at hshift
    rw [stored_of_lt (by simp; omega)]
    exact run_bind_error hshift _

theorem formatBase_emits {base capacity : Nat} (hbase : 1 < base)
    (digit : Nat → Char) (letter : Char) {value : Nat}
    (h : value < base ^ capacity) (prefixed : Bool) (width : UInt32) :
    Emits (fun budget start =>
      formatBase capacity base digit letter budget value prefixed width start)
      (padded letter prefixed width.toNat (numeral base digit value)) := by
  refine ⟨(Nat.digits base value).length, ?_⟩
  intro budget hbudget done rest
  have hnonempty := numeral_ne_nil base digit value
  have hdigits := run_reversedDigits hbase digit h hbudget (done ++ rest)
  generalize numeral base digit value = text at hdigits hnonempty ⊢
  have hcopy := run_copyReversed text.reverse done rest
  rw [List.length_reverse, List.reverse_reverse] at hcopy
  have hpadded := leftpad_ne_nil hnonempty width.toNat '0'
  have hlonger := le_length_leftpad width.toNat '0' text
  have hpad := run_padLeft hnonempty width.toNat done (rest.drop text.length)
  simp only [formatBase, padded]
  rw [run_bind_ok hdigits, List.length_reverse]
  generalize text.leftpad width.toNat '0' = image at hpad hpadded hlonger ⊢
  by_cases hfits : text.length ≤ rest.length
  · have hlength : (text ++ rest.drop text.length).length = rest.length := by
      simp
      omega
    rw [if_pos hfits, List.append_assoc] at hcopy
    rw [run_bind_ok hcopy]
    by_cases hroom : image.length ≤ rest.length
    · have hleft : (text ++ rest.drop text.length).drop image.length =
          rest.drop image.length := by
        obtain ⟨more, hmore⟩ := Nat.exists_eq_add_of_le hlonger
        rw [hmore, List.drop_length_add_append, List.drop_drop]
      rw [stored_of_le (by omega), List.append_assoc, hleft] at hpad
      rw [run_bind_ok hpad]
      cases prefixed with
      | false =>
          have hstored : stored done image rest =
              .ok (image.length, done ++ image ++ rest.drop image.length) :=
            stored_of_le hroom
          rw [List.append_assoc] at hstored
          exact hstored.symm
      | true =>
          refine (run_addPrefix hpadded letter done _).trans ?_
          have hsame : (image ++ rest.drop image.length).length =
              rest.length := by
            simp
            omega
          have hmore : (image ++ rest.drop image.length).drop
              ('0' :: letter :: image).length =
                rest.drop ('0' :: letter :: image).length := by
            change List.drop (image.length + 2) _ = List.drop _ _
            rw [List.drop_length_add_append, List.drop_drop]
            rfl
          change stored done ('0' :: letter :: image) _ =
            stored done ('0' :: letter :: image) rest
          unfold stored
          rw [hsame, hmore]
    · rw [stored_of_lt (by omega)] at hpad
      rw [run_bind_error hpad, stored_of_lt]
      simp
      omega
  · rw [if_neg hfits] at hcopy
    rw [run_bind_error hcopy, stored_of_lt]
    simp
    omega

end Planetoid.Log
