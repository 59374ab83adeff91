import Planetoid.Core.LogFormat

namespace Planetoid.Log

open Planetoid Program

/-! The code reads the pieces off the format string. -/

@[simp] theorem run_peek_cons (c : Char) (rest out : List Char) :
    (peek (c :: rest)).run out = .ok (c, out) := rfl

@[simp] theorem run_peek_bind (c : Char) (rest out : List Char)
    (next : Char → Printer α) :
    (peek (c :: rest) >>= next).run out = (next c).run out := rfl

def parsed (prefixed : Bool) (width : UInt32) (left : List Char) :
    FormatSpec × List Char :=
  ({ prefixed := prefixed, width := width, type := left.headD nul },
    left ++ [nul])

/-- The pieces from a directive on whose type is the head of `left`. -/
def directivePieces (prefixed : Bool) (width : UInt32) :
    List Char → List Piece
  | [] => [.incomplete]
  | type :: rest => .directive prefixed width type :: pieces .copying rest

theorem isDigit_nul : isDigit nul = false := by decide

theorem run_widthLoop (prefixed : Bool) (chars : List Char)
    (width : UInt32) :
    ∃ last left, pieces (.counting prefixed width) chars =
        directivePieces prefixed last left ∧ left.IsSuffix chars ∧
      ∀ budget out, chars.length < budget →
        (whileLoop .budgetExhausted widthLoop budget
          (width, chars ++ [nul])).run out =
            .ok ((last, left ++ [nul]), out) := by
  induction chars generalizing width with
  | nil =>
      refine ⟨width, [], rfl, List.suffix_rfl, ?_⟩
      intro budget out hbudget
      obtain ⟨budget, rfl⟩ : ∃ less, budget = less + 1 :=
        Nat.exists_eq_succ_of_ne_zero (Nat.ne_zero_of_lt hbudget)
      exact run_whileLoop_leave (by simp [widthLoop, isDigit_nul]) budget
  | cons c rest ih =>
      by_cases hdigit : isDigit c
      · obtain ⟨last, left, hpieces, hsuffix, hrun⟩ :=
          ih (width * 10 + digitValue c)
        refine ⟨last, left, ?_, hsuffix.trans (List.suffix_cons ..), ?_⟩
        · rw [pieces, if_pos hdigit, hpieces]
        · intro budget out hbudget
          obtain ⟨budget, rfl⟩ : ∃ less, budget = less + 1 :=
            Nat.exists_eq_succ_of_ne_zero (Nat.ne_zero_of_lt hbudget)
          have hstep : (widthLoop (width, c :: rest ++ [nul])).run out =
              .ok (.inl (width * 10 + digitValue c, rest ++ [nul]), out) := by
            simp [widthLoop, hdigit]
          rw [run_whileLoop_next hstep]
          exact hrun budget out (Nat.lt_of_succ_lt_succ hbudget)
      · refine ⟨width, c :: rest, ?_, List.suffix_rfl, ?_⟩
        · rw [pieces, if_neg hdigit]
          rfl
        · intro budget out hbudget
          obtain ⟨budget, rfl⟩ : ∃ less, budget = less + 1 :=
            Nat.exists_eq_succ_of_ne_zero (Nat.ne_zero_of_lt hbudget)
          exact run_whileLoop_leave (by simp [widthLoop, hdigit]) budget

theorem pieces_opened {c : Char} (h : c ≠ '#') (rest : List Char) :
    pieces .opened (c :: rest) = pieces (.counting false 0) (c :: rest) := by
  simp only [pieces, if_neg h, UInt32.zero_mul, UInt32.zero_add]

theorem run_parseFormat_of_width {c : Char} {rest left out : List Char}
    {width : UInt32} {budget : Nat}
    (h : (whileLoop .budgetExhausted widthLoop budget
      (0, if (c == '#') = true then rest else c :: rest)).run out =
        .ok ((width, left ++ [nul]), out)) :
    (parseFormat budget (c :: rest)).run out =
      .ok (parsed (c == '#') width left, out) := by
  unfold parseFormat
  rw [run_peek_bind]
  refine (run_bind_ok h _).trans ?_
  cases left with
  | nil => rfl
  | cons type left => rfl

theorem run_parseFormat (chars : List Char) :
    ∃ prefixed width left, pieces .opened chars =
        directivePieces prefixed width left ∧ left.IsSuffix chars ∧
      ∀ budget out, chars.length < budget →
        (parseFormat budget (chars ++ [nul])).run out =
          .ok (parsed prefixed width left, out) := by
  cases chars with
  | nil =>
      obtain ⟨width, left, hpieces, hsuffix, hrun⟩ :=
        run_widthLoop false [] 0
      refine ⟨false, width, left, hpieces, hsuffix, ?_⟩
      intro budget out hbudget
      exact run_parseFormat_of_width (hrun budget out hbudget)
  | cons c rest =>
      by_cases hhash : c = '#'
      · subst c
        obtain ⟨width, left, hpieces, hsuffix, hrun⟩ :=
          run_widthLoop true rest 0
        refine ⟨true, width, left, hpieces,
          hsuffix.trans (List.suffix_cons ..), ?_⟩
        intro budget out hbudget
        exact run_parseFormat_of_width
          (hrun budget out (Nat.lt_of_succ_lt hbudget))
      · obtain ⟨width, left, hpieces, hsuffix, hrun⟩ :=
          run_widthLoop false (c :: rest) 0
        refine ⟨false, width, left, (pieces_opened hhash rest).trans hpieces,
          hsuffix, ?_⟩
        intro budget out hbudget
        have hfalse : (c == '#') = false := by simpa using hhash
        have hparse := @run_parseFormat_of_width c (rest ++ [nul]) left out
          width budget
        rw [hfalse] at hparse
        exact hparse (hrun budget out hbudget)

theorem run_copyLoop {chars : List Char} (hchars : nul ∉ chars)
    {budget : Nat} (hbudget : chars.length < budget) (done rest : List Char)
    (hrest : rest ≠ []) :
    (whileLoop .budgetExhausted (copyLoop (done ++ rest).length) budget
      (chars ++ [nul], done.length)).run (done ++ rest) =
        .ok (done.length + (chars.take (rest.length - 1)).length,
          done ++ chars.take (rest.length - 1) ++
            rest.drop (chars.take (rest.length - 1)).length) := by
  induction chars generalizing budget done rest with
  | nil =>
      obtain ⟨budget, rfl⟩ : ∃ less, budget = less + 1 :=
        Nat.exists_eq_succ_of_ne_zero (Nat.ne_zero_of_lt hbudget)
      have hleave : (copyLoop (done ++ rest).length ([] ++ [nul],
          done.length)).run (done ++ rest) =
            .ok (.inr done.length, done ++ rest) := by
        simp [copyLoop]
      rw [run_whileLoop_leave hleave]
      simp
  | cons c chars ih =>
      obtain ⟨budget, rfl⟩ : ∃ less, budget = less + 1 :=
        Nat.exists_eq_succ_of_ne_zero (Nat.ne_zero_of_lt hbudget)
      obtain ⟨first, rest, rfl⟩ := List.exists_cons_of_ne_nil hrest
      have hc : c ≠ nul := fun h => hchars (by simp [h])
      cases rest with
      | nil =>
          have hleave : (copyLoop (done ++ [first]).length
              (c :: chars ++ [nul], done.length)).run (done ++ [first]) =
                .ok (.inr done.length, done ++ [first]) := by
            simp [copyLoop]
          rw [run_whileLoop_leave hleave]
          simp
      | cons second rest =>
          have hstore := run_store_first done (first :: second :: rest) c
          have hstep : (copyLoop (done ++ first :: second :: rest).length
              (c :: chars ++ [nul], done.length)).run
                (done ++ first :: second :: rest) =
              .ok (.inl (chars ++ [nul], done.length + 1),
                done ++ c :: second :: rest) := by
            simp [copyLoop, hc, run_bind_ok hstore]
          rw [run_whileLoop_next hstep]
          have hrun := ih (fun h => hchars (List.mem_cons_of_mem _ h))
            (Nat.lt_of_succ_lt_succ hbudget) (done ++ [c]) (second :: rest)
            (by simp)
          have hlength : (done ++ [c] ++ second :: rest).length =
              (done ++ first :: second :: rest).length := by simp
          have htake : (c :: chars).take
              ((first :: second :: rest).length - 1) =
                c :: chars.take ((second :: rest).length - 1) := rfl
          have hdone : (done ++ [c]).length = done.length + 1 := by simp
          rw [hlength, hdone, List.append_assoc, List.append_assoc] at hrun
          refine hrun.trans ?_
          rw [htake]
          generalize chars.take ((second :: rest).length - 1) = kept
          have hcount : done.length + 1 + kept.length =
              done.length + (c :: kept).length := by
            simp only [List.length_cons]
            omega
          rw [hcount, List.append_assoc done, List.append_assoc done]
          rfl

/-- What is stored of a text when there is room for so many characters before
the terminator. -/
def Chunk.kept (room : Nat) : Chunk → List Char
  | .checked text => text.take room
  | .unchecked text => text
  | .incomplete => []

theorem int_natAbs_lt (value : Int32) : value.toInt.natAbs < 10 ^ 20 := by
  have hlow := value.le_toInt
  have hhigh := value.toInt_lt
  omega

theorem long_lt (value : UInt64) {bound : Nat} (h : 2 ^ 64 ≤ bound) :
    value.toNat < bound :=
  Nat.lt_of_lt_of_le value.toNat_lt h

theorem run_emitted {program : Nat → Nat → Printer Nat} {text : List Char}
    (args : List Argument) (emits : Emits program text) :
    ∃ need, ∀ budget, need < budget → ∀ done rest,
      (do
        let count ← program budget done.length
        pure (args, done.length + count) : Printer _).run (done ++ rest) =
          (stored done text rest).map
            fun result => ((args, done.length + result.1), result.2) := by
  obtain ⟨need, hneed⟩ := emits
  refine ⟨need, ?_⟩
  intro budget hbudget done rest
  have hrun := hneed budget hbudget done rest
  cases hstored : stored done text rest with
  | error fault => exact run_bind_error (hrun.trans hstored) _
  | ok result => exact run_bind_ok (hrun.trans hstored) _

theorem run_vaArg_bind {view : Argument → Option α} {first : Argument}
    {value : α} (h : view first = some value) (others : List Argument)
    (next : α × List Argument → Printer β) (out : List Char) :
    (vaArg view (first :: others) >>= next).run out =
      (next (value, others)).run out := by
  simp only [vaArg, h]
  rfl

theorem run_printDirective {prefixed : Bool} {width : UInt32} {type : Char}
    {args left : List Argument} {chunk : Chunk}
    (h : conversion prefixed width type args = some (chunk, left))
    (fmt : List Char) :
    ∃ need, ∀ budget, need < budget → ∀ done rest, 2 ≤ rest.length →
      (printDirective budget (done ++ rest).length
        { prefixed := prefixed, width := width, type := type } (type :: fmt)
        args done.length).run (done ++ rest) =
          (stored done (chunk.kept (rest.length - 1)) rest).map
            fun result => ((left, done.length + result.1), result.2) := by
  have hstring : ∀ value, Argument.asString (.string value) = some value :=
    fun _ => rfl
  have hunsigned : ∀ value,
      Argument.asUnsigned (.unsigned value) = some value := fun _ => rfl
  have hint : ∀ value, Argument.asInt (.int value) = some value :=
    fun _ => rfl
  have hlong : ∀ value, Argument.asLong (.long value) = some value :=
    fun _ => rfl
  unfold conversion at h
  unfold printDirective
  split at h
  · rename_i htype
    split at h
    · rename_i value others
      cases h
      refine ⟨(value.getD nullText).chars.length, ?_⟩
      intro budget hbudget done rest hrest
      have hcopy := run_copyLoop (value.getD nullText).unterminated
        hbudget done rest (by rintro rfl; simp at hrest)
      rw [if_pos htype, run_vaArg_bind (hstring value)]
      refine (run_bind_ok hcopy _).trans ?_
      rw [stored_of_le (by simp [Chunk.kept])]
      rfl
    · cases h
  split at h
  · rename_i hs htype
    split at h
    · rename_i value others
      cases h
      obtain ⟨need, hneed⟩ := run_emitted left
        (formatUint_emits (Nat.lt_trans value.toNat_lt (by decide)))
      refine ⟨need, ?_⟩
      intro budget hbudget done rest _
      rw [if_neg hs, if_pos htype, run_vaArg_bind (hunsigned value)]
      exact hneed budget hbudget done rest
    · cases h
  split at h
  · rename_i hs hu htype
    split at h
    · rename_i value others
      cases h
      obtain ⟨need, hneed⟩ := run_emitted left
        (formatInt_emits (int_natAbs_lt value))
      refine ⟨need, ?_⟩
      intro budget hbudget done rest _
      rw [if_neg hs, if_neg hu, if_pos htype, run_vaArg_bind (hint value)]
      exact hneed budget hbudget done rest
    · cases h
  split at h
  · rename_i hs hu hi htype
    split at h
    · rename_i value others
      cases h
      obtain ⟨need, hneed⟩ := run_emitted left (@formatBase_emits 16 32
        (by decide) hexDigit 'x' _ (long_lt value (by decide)) prefixed width)
      refine ⟨need, ?_⟩
      intro budget hbudget done rest _
      rw [if_neg hs, if_neg hu, if_neg hi, if_pos htype,
        run_vaArg_bind (hlong value)]
      exact hneed budget hbudget done rest
    · cases h
  split at h
  · rename_i hs hu hi hx htype
    split at h
    · rename_i value others
      cases h
      obtain ⟨need, hneed⟩ := run_emitted left (@formatBase_emits 2 66
        (by decide) binDigit 'b' _ (long_lt value (by decide)) prefixed width)
      refine ⟨need, ?_⟩
      intro budget hbudget done rest _
      rw [if_neg hs, if_neg hu, if_neg hi, if_neg hx, if_pos htype,
        run_vaArg_bind (hlong value)]
      exact hneed budget hbudget done rest
    · cases h
  · rename_i hs hu hi hx hb
    cases h
    refine ⟨0, ?_⟩
    intro budget _ done rest hrest
    obtain ⟨first, second, rest, rfl⟩ : ∃ first second others,
        rest = first :: second :: others := by
      match rest, hrest with
      | first :: second :: others, _ => exact ⟨first, second, others, rfl⟩
    rw [if_neg hs, if_neg hu, if_neg hi, if_neg hx, if_neg hb]
    have hpercent : (store done.length '%').run
        (done ++ first :: second :: rest) =
          .ok ((), done ++ '%' :: second :: rest) :=
      (run_store_first done _ '%').trans (if_neg (by simp))
    have htype : (store (done.length + 1) type).run
        (done ++ '%' :: second :: rest) =
          .ok ((), done ++ '%' :: type :: rest) :=
      (run_store_append done _ 1 type).trans (if_pos (by simp))
    rw [run_bind_ok hpercent, run_peek_bind, run_bind_ok htype,
      stored_of_le (by simp [Chunk.kept])]
    simp [Chunk.kept, Except.map]

/-! The loop of `format_string`. -/

def printFrom (budget outSize left : Nat)
    (value : List Char × List Argument × Nat) : Printer Unit := do
  let pos ← whileLoop .budgetExhausted (printLoop budget outSize) left value
  store pos nul

section PrintFrom

variable {budget outSize left : Nat}
  {value next : List Char × List Argument × Nat} {out after : List Char}

theorem run_printFrom_next
    (h : (printLoop budget outSize value).run out = .ok (.inl next, after)) :
    (printFrom budget outSize (left + 1) value).run out =
      (printFrom budget outSize left next).run after := by
  unfold printFrom
  rw [run_bind, run_whileLoop_next h]
  exact (run_bind (whileLoop .budgetExhausted (printLoop budget outSize) left
    next) (fun pos => store pos nul) after).symm

theorem run_printFrom_leave {pos : Nat}
    (h : (printLoop budget outSize value).run out = .ok (.inr pos, after)) :
    (printFrom budget outSize (left + 1) value).run out =
      (store pos nul).run after := by
  unfold printFrom
  rw [run_bind_ok (run_whileLoop_leave h left)]

theorem run_printFrom_error {fault : PrintFault}
    (h : (printLoop budget outSize value).run out = .error fault) :
    (printFrom budget outSize (left + 1) value).run out = .error fault := by
  unfold printFrom whileLoop
  exact run_bind_error (run_bind_error h _) _

end PrintFrom

theorem run_printFrom_full (budget left : Nat) (chars done rest : List Char)
    (args : List Argument) (hrest : rest.length ≤ 1) :
    (printFrom budget (done ++ rest).length (left + 1)
      (chars ++ [nul], args, done.length)).run (done ++ rest) =
        (store done.length nul).run (done ++ rest) := by
  apply run_printFrom_leave
  have hfull : ¬ done.length < (done ++ rest).length - 1 := by
    simp
    omega
  cases chars with
  | nil => simp [printLoop]
  | cons c chars =>
      simp only [printLoop, List.cons_append]
      rw [run_peek_bind, if_neg (fun h => hfull h.2)]
      rfl

/-- How the buffer ends up, with `emitted` and the terminator in place of the
start of `rest`. -/
def ended (done rest : List Char) :
    Except PrintFault (List Char) → Except PrintFault (Unit × List Char)
  | .ok text => .ok ((), done ++ text ++ nul :: rest.drop (text.length + 1))
  | .error fault => .error fault

theorem ended_map {done text rest : List Char}
    (emitted : Except PrintFault (List Char)) :
    ended done rest (emitted.map (text ++ ·)) =
      ended (done ++ text) (rest.drop text.length) emitted := by
  cases emitted with
  | error fault => rfl
  | ok last => simp [Except.map, ended, List.drop_drop, Nat.add_assoc]

def Ends (chars : List Char) (args : List Argument) (parts : List Chunk) :
    Prop :=
  ∃ need, ∀ budget left, need < budget → need < left → ∀ done rest,
    rest ≠ [] →
      (printFrom budget (done ++ rest).length left
        (chars ++ [nul], args, done.length)).run (done ++ rest) =
          ended done rest (emit (rest.length - 1) parts)

theorem ends_nil (args : List Argument) : Ends [] args [] := by
  refine ⟨0, ?_⟩
  intro budget left _ hleft done rest hrest
  obtain ⟨left, rfl⟩ : ∃ less, left = less + 1 :=
    Nat.exists_eq_succ_of_ne_zero (Nat.ne_zero_of_lt hleft)
  have hleave : (printLoop budget (done ++ rest).length
      ([] ++ [nul], args, done.length)).run (done ++ rest) =
        .ok (.inr done.length, done ++ rest) := by
    simp [printLoop]
  rw [run_printFrom_leave hleave, run_store_first, if_neg hrest]
  have hemit : emit (rest.length - 1) [] = .ok [] := by
    cases rest.length - 1 <;> rfl
  rw [hemit]
  simp [ended]

theorem ends_literal {c : Char} {chars : List Char} {args : List Argument}
    {parts : List Chunk} (hnul : c ≠ nul) (hpercent : c ≠ '%')
    (h : Ends chars args parts) :
    Ends (c :: chars) args (.checked [c] :: parts) := by
  obtain ⟨need, hneed⟩ := h
  refine ⟨need + 1, ?_⟩
  intro budget left hbudget hleft done rest hrest
  obtain ⟨left, rfl⟩ : ∃ less, left = less + 1 :=
    Nat.exists_eq_succ_of_ne_zero (Nat.ne_zero_of_lt hleft)
  obtain ⟨first, rest, rfl⟩ := List.exists_cons_of_ne_nil hrest
  cases rest with
  | nil =>
      rw [run_printFrom_full budget left (c :: chars) done [first] args
        (by simp), run_store_first, if_neg (by simp)]
      simp [ended, emit]
  | cons second rest =>
      have hroom : done.length < (done ++ first :: second :: rest).length -
          1 := by
        simp
      have hstore : (store done.length c).run
          (done ++ first :: second :: rest) =
            .ok ((), done ++ c :: second :: rest) :=
        (run_store_first done _ c).trans (if_neg (by simp))
      have hstep : (printLoop budget (done ++ first :: second :: rest).length
          (c :: chars ++ [nul], args, done.length)).run
            (done ++ first :: second :: rest) =
          .ok (.inl (chars ++ [nul], args, done.length + 1),
            done ++ c :: second :: rest) := by
        simp only [printLoop, List.cons_append]
        rw [run_peek_bind, if_pos ⟨hnul, hroom⟩, if_pos hpercent]
        exact run_bind_ok hstore _
      rw [run_printFrom_next hstep]
      have hrun := hneed budget left (by omega) (by omega) (done ++ [c])
        (second :: rest) (by simp)
      have hdone : (done ++ [c]).length = done.length + 1 := by simp
      have hlength : (done ++ [c] ++ second :: rest).length =
          (done ++ first :: second :: rest).length := by simp
      rw [hdone, hlength, List.append_assoc] at hrun
      have hemit : emit ((first :: second :: rest).length - 1)
          (.checked [c] :: parts) = (emit rest.length parts).map ([c] ++ ·) := by
        simp [emit]
      rw [hemit, ended_map]
      exact hrun

theorem run_printLoop_directive {chars left : List Char} {prefixed : Bool}
    {width : UInt32} {args others : List Argument} {chunk : Chunk}
    (hparse : ∀ budget out, chars.length < budget →
      (parseFormat budget (chars ++ [nul])).run out =
        .ok (parsed prefixed width left, out))
    (h : conversion prefixed width (left.headD nul) args =
      some (chunk, others)) :
    ∃ need, ∀ budget, need < budget → ∀ done rest, 2 ≤ rest.length →
      (printLoop budget (done ++ rest).length
        ('%' :: chars ++ [nul], args, done.length)).run (done ++ rest) =
          (stored done (chunk.kept (rest.length - 1)) rest).map
            fun result => (.inl ((left ++ [nul]).tail, others,
              done.length + result.1), result.2) := by
  obtain ⟨type, fmt, hleft⟩ : ∃ type fmt, left ++ [nul] = type :: fmt := by
    cases left with
    | nil => exact ⟨_, _, rfl⟩
    | cons type left => exact ⟨_, _, rfl⟩
  have htype : left.headD nul = type := by
    cases left with
    | nil => exact (List.cons.inj hleft).1
    | cons first left => exact (List.cons.inj hleft).1
  rw [htype] at h
  obtain ⟨need, hneed⟩ := run_printDirective h fmt
  refine ⟨need + chars.length, ?_⟩
  intro budget hbudget done rest hrest
  have hroom : done.length < (done ++ rest).length - 1 := by
    simp
    omega
  simp only [printLoop, List.cons_append]
  rw [run_peek_bind, if_pos ⟨by decide, hroom⟩, if_neg (by simp)]
  refine (run_bind_ok (hparse budget _ (by omega)) _).trans ?_
  have hdirective := hneed budget (by omega) done rest hrest
  simp only [parsed, htype, hleft]
  cases hstored : stored done (chunk.kept (rest.length - 1)) rest with
  | error fault =>
      rw [hstored] at hdirective
      exact run_bind_error hdirective _
  | ok result =>
      rw [hstored] at hdirective
      exact run_bind_ok hdirective _

theorem ends_incomplete {chars : List Char} (args : List Argument)
    (h : pieces .opened chars = [.incomplete]) :
    Ends ('%' :: chars) args [.incomplete] := by
  obtain ⟨prefixed, width, stop, hpieces, _, hparse⟩ := run_parseFormat chars
  obtain rfl : stop = [] := by
    cases stop with
    | nil => rfl
    | cons type rest => cases h.symm.trans hpieces
  have hconversion : conversion prefixed width nul args =
      some (.unchecked ['%', nul], args) := by
    unfold conversion
    rw [if_neg (by decide), if_neg (by decide), if_neg (by decide),
      if_neg (by decide), if_neg (by decide)]
  obtain ⟨need, hneed⟩ := run_printLoop_directive hparse hconversion
  refine ⟨need + 1, ?_⟩
  intro budget left hbudget hleft done rest hrest
  obtain ⟨left, rfl⟩ : ∃ less, left = less + 2 :=
    Nat.exists_eq_add_of_le' (by omega)
  by_cases hfull : rest.length ≤ 1
  · have hroom : rest.length - 1 = 0 := by omega
    rw [run_printFrom_full budget (left + 1) _ done rest args hfull,
      run_store_first, if_neg hrest, hroom]
    simp [ended, emit]
  · have hstep := hneed budget (by omega) done rest (by omega)
    rw [stored_of_le (by simp [Chunk.kept]; omega)] at hstep
    rw [run_printFrom_next hstep]
    obtain ⟨room, hroom⟩ : ∃ room, rest.length - 1 = room + 1 :=
      Nat.exists_eq_succ_of_ne_zero (by omega)
    rw [hroom]
    -- the loop reads behind the terminator
    exact run_printFrom_error rfl

theorem conversion_ne_incomplete {prefixed : Bool} {width : UInt32}
    {type : Char} {args others : List Argument} {chunk : Chunk}
    (h : conversion prefixed width type args = some (chunk, others)) :
    chunk ≠ .incomplete := by
  rintro rfl
  unfold conversion at h
  repeat' split at h
  all_goals cases h

theorem ended_stored {chunk : Chunk} {parts : List Chunk} {room : Nat}
    {done rest : List Char} (hrest : rest.length = room + 2)
    (hincomplete : chunk ≠ .incomplete)
    (hfits : (chunk.kept (room + 1)).length ≤ room + 1) :
    ended done rest (emit (room + 1) (chunk :: parts)) =
      ended (done ++ chunk.kept (room + 1))
        (rest.drop (chunk.kept (room + 1)).length)
        (emit ((rest.drop (chunk.kept (room + 1)).length).length - 1)
          parts) := by
  rw [← ended_map]
  cases chunk with
  | checked text =>
      have hleft : (rest.drop (text.take (room + 1)).length).length - 1 =
          room + 1 - text.length := by
        simp
        omega
      simp only [Chunk.kept, emit, hleft]
  | unchecked text =>
      have hleft : (rest.drop text.length).length - 1 =
          room + 1 - text.length := by
        simp
        omega
      simp only [Chunk.kept] at hfits
      simp only [Chunk.kept, emit, hleft, if_pos hfits]
  | incomplete => exact absurd rfl hincomplete

theorem emit_of_lt_kept {chunk : Chunk} {parts : List Chunk} {room : Nat}
    (h : room + 1 < (chunk.kept (room + 1)).length) :
    emit (room + 1) (chunk :: parts) = .error .outOfBounds := by
  cases chunk with
  | checked text => simp [Chunk.kept] at h
  | unchecked text =>
      have hlt : ¬ text.length ≤ room + 1 := Nat.not_le.mpr h
      simp only [emit, if_neg hlt]
  | incomplete => simp [Chunk.kept] at h

theorem ends_directive {chars rest : List Char} {prefixed : Bool}
    {width : UInt32} {type : Char} {args others : List Argument}
    {chunk : Chunk} {parts : List Chunk}
    (hparse : ∀ budget out, chars.length < budget →
      (parseFormat budget (chars ++ [nul])).run out =
        .ok (parsed prefixed width (type :: rest), out))
    (hconversion : conversion prefixed width type args = some (chunk, others))
    (h : Ends rest others parts) :
    Ends ('%' :: chars) args (chunk :: parts) := by
  obtain ⟨first, hfirst⟩ := run_printLoop_directive hparse hconversion
  obtain ⟨last, hlast⟩ := h
  refine ⟨first + last + 1, ?_⟩
  intro budget left hbudget hleft done space hspace
  obtain ⟨left, rfl⟩ : ∃ less, left = less + 2 :=
    Nat.exists_eq_add_of_le' (by omega)
  by_cases hfull : space.length ≤ 1
  · have hroom : space.length - 1 = 0 := by omega
    rw [run_printFrom_full budget (left + 1) _ done space args hfull,
      run_store_first, if_neg hspace, hroom]
    simp [ended, emit]
  · obtain ⟨room, hroom⟩ : ∃ room, space.length = room + 2 :=
      Nat.exists_eq_add_of_le' (by omega)
    have hstep := hfirst budget (by omega) done space (by omega)
    have hless : space.length - 1 = room + 1 := by omega
    rw [hless] at hstep ⊢
    by_cases hstored : (chunk.kept (room + 1)).length ≤ space.length
    · have hsame : (done ++ chunk.kept (room + 1) ++
          space.drop (chunk.kept (room + 1)).length).length =
            (done ++ space).length := by
        simp
        omega
      have hdone : (done ++ chunk.kept (room + 1)).length =
          done.length + (chunk.kept (room + 1)).length := by simp
      rw [stored_of_le hstored] at hstep
      rw [run_printFrom_next hstep]
      by_cases hfits : (chunk.kept (room + 1)).length ≤ room + 1
      · rw [ended_stored hroom (conversion_ne_incomplete hconversion) hfits]
        have hnonempty : space.drop (chunk.kept (room + 1)).length ≠ [] := by
          simp
          omega
        have hrun := hlast budget (left + 1) (by omega) (by omega)
          (done ++ chunk.kept (room + 1))
          (space.drop (chunk.kept (room + 1)).length) hnonempty
        rw [hsame, hdone] at hrun
        exact hrun
      · rw [emit_of_lt_kept (by omega)]
        have hnone : space.drop (chunk.kept (room + 1)).length = [] := by
          simp
          omega
        have hrun := run_printFrom_full budget left rest
          (done ++ chunk.kept (room + 1))
          (space.drop (chunk.kept (room + 1)).length) others (by simp; omega)
        rw [run_store_first, if_pos hnone, hsame, hdone] at hrun
        exact hrun
    · rw [stored_of_lt (by omega)] at hstep
      rw [emit_of_lt_kept (by omega)]
      exact run_printFrom_error hstep

theorem ends_of_chunks {chars : List Char} (hchars : nul ∉ chars)
    {args : List Argument} {parts : List Chunk}
    (h : chunks (pieces .copying chars) args = some parts) :
    Ends chars args parts := by
  induction hlength : chars.length using Nat.strong_induction_on
    generalizing chars args parts with
  | _ length ih =>
      subst hlength
      cases chars with
      | nil =>
          obtain rfl := Option.some.inj h
          exact ends_nil args
      | cons c chars =>
          have hrest : nul ∉ chars :=
            fun hmem => hchars (List.mem_cons_of_mem _ hmem)
          have hc : c ≠ nul := fun heq => hchars (by simp [heq])
          rw [pieces] at h
          split at h
          · rename_i hpercent
            subst c
            obtain ⟨prefixed, width, left, hpieces, hsuffix, hparse⟩ :=
              run_parseFormat chars
            rw [hpieces] at h
            cases left with
            | nil =>
                obtain rfl := Option.some.inj h
                exact ends_incomplete args hpieces
            | cons type rest =>
                simp only [directivePieces, chunks, Option.bind_eq_bind,
                  Option.bind_eq_some_iff] at h
                obtain ⟨⟨chunk, others⟩, hconversion, last, hlast, h⟩ := h
                obtain rfl := Option.some.inj h
                have hshorter : rest.length < ('%' :: chars).length := by
                  have hle := hsuffix.length_le
                  simp only [List.length_cons] at hle ⊢
                  omega
                have hclean : nul ∉ rest := fun hmem =>
                  hrest (hsuffix.subset (List.mem_cons_of_mem _ hmem))
                exact ends_directive hparse hconversion
                  (ih rest.length hshorter hclean hlast rfl)
          · rename_i hpercent
            simp only [chunks, Option.map_eq_some_iff] at h
            obtain ⟨last, hlast, rfl⟩ := h
            exact ends_literal hc hpercent
              (ih chars.length (by simp) hrest hlast rfl)

theorem formatString_ends (fmt : CString) {args : List Argument}
    {parts : List Chunk}
    (h : chunks (pieces .copying fmt.chars) args = some parts) :
    ∃ need, ∀ budget, need < budget → ∀ out : List Char, out ≠ [] →
      (formatString budget out.length fmt.memory args).run out =
        ended [] out (emit (out.length - 1) parts) := by
  obtain ⟨need, hneed⟩ := ends_of_chunks fmt.unterminated h
  exact ⟨need, fun budget hbudget out hout =>
    hneed budget budget hbudget hbudget [] out hout⟩

/-- `after` holds the first characters of `text`, as many as fit, and the
terminator. -/
structure Prints (after : List Char) (size : Nat) (text : List Char) :
    Prop where
  length : after.length = size
  string : ∃ rest, after = text.take (size - 1) ++ nul :: rest
  unterminated : nul ∉ text.take (size - 1)

/-- With enough budget `format_string` ends, without an access outside of
`out` or behind the terminator of `fmt`, and prints `text`. -/
def Formats (fmt : CString) (args : List Argument) (out text : List Char) :
    Prop :=
  ∃ need, ∀ budget, need < budget → ∃ after,
    (formatString budget out.length fmt.memory args).run out =
      .ok ((), after) ∧ Prints after out.length text

theorem formatString_prints_iff (fmt : CString) {args : List Argument}
    {parts : List Chunk}
    (matching : chunks (pieces .copying fmt.chars) args = some parts)
    {out : List Char} (hout : out ≠ []) :
    Formats fmt args out (rendering parts) ↔ Fits (out.length - 1) parts := by
  obtain ⟨need, hneed⟩ := formatString_ends fmt matching
  constructor
  · rintro ⟨other, hother⟩
    obtain ⟨after, hrun, _⟩ := hother (need + other + 1) (by omega)
    rw [hneed _ (by omega) out hout] at hrun
    cases hemit : emit (out.length - 1) parts with
    | error fault =>
        rw [hemit] at hrun
        cases hrun
    | ok text => exact fits_of_emit hemit
  · intro hfits
    refine ⟨need, ?_⟩
    intro budget hbudget
    have hrun := hneed budget hbudget out hout
    rw [emit_of_fits hfits] at hrun
    refine ⟨_, hrun, ?_, ⟨_, rfl⟩, ?_⟩
    · have hpos := List.length_pos_iff.mpr hout
      simp
      omega
    · exact fun hmem => nul_notMem_rendering
        (clean_of_mem_pieces fmt.unterminated .copying) matching
        (List.mem_of_mem_take hmem)

/-- `%u` with 10 in a buffer of three characters. -/
theorem formatString_prints_ten :
    Formats { chars := ['%', 'u'], unterminated := by decide }
      [.unsigned 10] [nul, nul, nul] ['1', '0'] := by
  have hmatching : chunks (pieces .copying ['%', 'u']) [.unsigned 10] =
      some [.unchecked ['1', '0']] := rfl
  exact (formatString_prints_iff
    { chars := ['%', 'u'], unterminated := by decide } hmatching
    (by simp)).mpr ⟨by decide, trivial⟩

/-- In a buffer of two characters the terminator is stored behind it. -/
theorem formatString_overruns :
    ∃ fmt args parts out,
      chunks (pieces .copying (CString.chars fmt)) args = some parts ∧
        out ≠ [] ∧ ¬ Formats fmt args out (rendering parts) := by
  have hmatching : chunks (pieces .copying ['%', 'u']) [.unsigned 10] =
      some [.unchecked ['1', '0']] := rfl
  refine ⟨{ chars := ['%', 'u'], unterminated := by decide },
    [.unsigned 10], [.unchecked ['1', '0']], [nul, nul], hmatching,
    by simp, ?_⟩
  rintro ⟨other, hother⟩
  obtain ⟨need, hneed⟩ := formatString_ends
    { chars := ['%', 'u'], unterminated := by decide } hmatching
  obtain ⟨after, hrun, _⟩ := hother (need + other + 1) (by omega)
  have hfault := hneed (need + other + 1) (by omega) [nul, nul] (by simp)
  cases hfault.symm.trans hrun

end Planetoid.Log
