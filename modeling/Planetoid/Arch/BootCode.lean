import Planetoid.Base.A64

namespace Planetoid.Arch

open A64

/-! The clearing of `.bss`, which both `boot.s` files do before they call
`kernel_main`. -/

def bssClear (start bssStart bssEnd kernelMain : Nat) : List Instruction :=
  [.literal (.x 0) bssStart,
    .literal (.x 1) bssEnd,
    -- `bss_clear`
    .cmp (.x 0) (.x 1),
    .bhs (start + 28),
    .str .xzr (.x 0) 0,
    .add (.x 0) (.x 0) 8,
    .b (start + 8),
    -- `bss_cleared`
    .bl kernelMain]

/-- The words from `first` on of which the first byte is below `last`. -/
def cleared (words : Nat → Nat) (first last : Nat) : Nat → Nat := fun word =>
  if first ≤ 8 * word ∧ 8 * word < last then 0 else words word

theorem cleared_next (words : Nat → Nat) {first last : Nat}
    (aligned : first % 8 = 0) (h : first < last) :
    cleared (Function.update words (first / 8) 0) (first + 8) last =
      cleared words first last := by
  funext word
  unfold cleared
  rw [Function.update_apply]
  by_cases hword : word = first / 8
  · rw [if_neg (by omega), if_pos hword, if_pos (by omega)]
  · rw [if_neg hword]
    have hsame : (first + 8 ≤ 8 * word ∧ 8 * word < last) ↔
        first ≤ 8 * word ∧ 8 * word < last := by omega
    simp only [hsame]

theorem cleared_done (words : Nat → Nat) {first last : Nat}
    (h : last ≤ first) : cleared words first last = words := by
  funext word
  exact if_neg (by omega)

theorem compare_carry (first second : Nat) :
    Cpu.compare first second / 2 % 2 = 1 ↔ second ≤ first := by
  unfold Cpu.compare
  dsimp only
  split <;> split <;> split <;> omega

section

variable {code : Image} {start bssStart bssEnd kernelMain : Nat}

/-- The core at `bss_clear`, with the words from `first` on to clear. -/
structure AtBssClear (start first last : Nat) (cpu : Cpu) : Prop where
  pc : cpu.pc = start + 8
  x0 : cpu.x 0 = first
  x1 : cpu.x 1 = last

theorem bssClear_compares
    (placed : Placed code start (bssClear start bssStart bssEnd kernelMain))
    {cpu : Cpu} {first last : Nat} (h : AtBssClear start first last cpu) :
    Reaches code cpu { cpu with
      nzcv := Cpu.compare first last
      pc := if last ≤ first then start + 28 else start + 16 } := by
  obtain ⟨hpc, rfl, rfl⟩ := h
  obtain ⟨_, _, hcmp, hbhs, _⟩ := placed
  have hcompared : Step code cpu { cpu with
      nzcv := Cpu.compare (cpu.x 0) (cpu.x 1), pc := start + 12 } := by
    refine .exec (hpc ▸ hcmp) ?_
    simp only [Instruction.exec, Cpu.get, Cpu.next, hpc]
  refine .trans (.single hcompared) (.single (.exec hbhs ?_))
  simp only [Instruction.exec, compare_carry, Cpu.next]
  split
  · rfl
  · rfl

theorem bssClear_round
    (placed : Placed code start (bssClear start bssStart bssEnd kernelMain))
    {cpu : Cpu} {first last : Nat} (h : AtBssClear start first last cpu)
    (aligned : first % 8 = 0) (fits : last + 8 ≤ 2 ^ 64)
    (more : first < last) :
    ∃ after, Reaches code cpu after ∧
      AtBssClear start (first + 8) last after ∧
      after.words = Function.update cpu.words (first / 8) 0 ∧
      after.sp = cpu.sp := by
  have hcompares := bssClear_compares placed h
  rw [if_neg (by omega)] at hcompares
  obtain ⟨_, rfl, rfl⟩ := h
  obtain ⟨_, _, _, _, hstr, hadd, hb, _⟩ := placed
  generalize hmiddle : ({ cpu with
    nzcv := Cpu.compare (cpu.x 0) (cpu.x 1), pc := start + 16 } : Cpu) =
      middle at hcompares
  have hx : middle.x = cpu.x := by
    subst hmiddle
    rfl
  have hstored : Step code middle { middle with
      words := Function.update cpu.words (cpu.x 0 / 8) 0
      pc := start + 20 } := by
    subst hmiddle
    refine .exec hstr ((exec_str (checked_x 0) ?_ ?_ .xzr).trans ?_)
    · exact aligned
    · show cpu.x 0 + 0 < 2 ^ 64
      omega
    · rfl
  have hadded : Step code { middle with
      words := Function.update cpu.words (cpu.x 0 / 8) 0
      pc := start + 20 } { middle with
      x := Function.update cpu.x 0 (cpu.x 0 + 8)
      words := Function.update cpu.words (cpu.x 0 / 8) 0
      pc := start + 24 } := by
    have hsum : (cpu.x 0 + 8) % 2 ^ 64 = cpu.x 0 + 8 :=
      Nat.mod_eq_of_lt (by omega)
    refine .exec hadd ?_
    simp only [Instruction.exec, Cpu.get, Cpu.set, Cpu.next, hx, hsum]
  have hlooped : Step code { middle with
      x := Function.update cpu.x 0 (cpu.x 0 + 8)
      words := Function.update cpu.words (cpu.x 0 / 8) 0
      pc := start + 24 } { middle with
      x := Function.update cpu.x 0 (cpu.x 0 + 8)
      words := Function.update cpu.words (cpu.x 0 / 8) 0
      pc := start + 8 } :=
    .exec hb rfl
  refine ⟨_, ((hcompares.tail hstored).tail hadded).tail hlooped,
    ⟨rfl, rfl, rfl⟩, rfl, ?_⟩
  subst hmiddle
  rfl

theorem bssClear_loop
    (placed : Placed code start (bssClear start bssStart bssEnd kernelMain))
    {last : Nat} (fits : last + 8 ≤ 2 ^ 64) (count : Nat) {cpu : Cpu}
    {first : Nat} (h : AtBssClear start first last cpu)
    (aligned : first % 8 = 0) (left : last ≤ first + 8 * count) :
    ∃ after, Reaches code cpu after ∧ after.pc = start + 28 ∧
      after.words = cleared cpu.words first last ∧ after.sp = cpu.sp := by
  induction count generalizing cpu first with
  | zero =>
      have hdone : last ≤ first := left
      have hcompares := bssClear_compares placed h
      rw [if_pos hdone] at hcompares
      exact ⟨_, hcompares, rfl, (cleared_done _ hdone).symm, rfl⟩
  | succ count ih =>
      by_cases more : first < last
      · obtain ⟨next, hround, hnext, hwords, hsp⟩ :=
          bssClear_round placed h aligned fits more
        obtain ⟨after, hreaches, hpc, hcleared, hlast⟩ :=
          ih hnext (by omega) (by omega)
        refine ⟨after, hround.trans hreaches, hpc, ?_, hlast.trans hsp⟩
        rw [hcleared, hwords, cleared_next _ aligned more]
      · have hdone : last ≤ first := Nat.le_of_not_lt more
        have hcompares := bssClear_compares placed h
        rw [if_pos hdone] at hcompares
        exact ⟨_, hcompares, rfl, (cleared_done _ hdone).symm, rfl⟩

/-- The boot code reaches `kernel_main` with the words of `.bss` cleared and
all others unchanged. -/
theorem bssClear_clears {cpu : Cpu}
    (placed : Placed code cpu.pc (bssClear cpu.pc bssStart bssEnd kernelMain))
    (aligned : bssStart % 8 = 0) (fits : bssEnd + 8 ≤ 2 ^ 64) :
    ∃ after, Reaches code cpu after ∧ after.pc = kernelMain ∧
      after.sp = cpu.sp ∧ ∀ word, after.words word =
        if bssStart ≤ 8 * word ∧ 8 * word < bssEnd then 0
        else cpu.words word := by
  obtain ⟨hfirst, hsecond, _, _, _, _, _, hcall, _⟩ := id placed
  generalize hloaded : ({ cpu with
    x := Function.update (Function.update cpu.x 0 bssStart) 1 bssEnd
    pc := cpu.pc + 8 } : Cpu) = loaded
  have hreaches : Reaches code cpu loaded := by
    subst hloaded
    exact .trans (.single (.exec hfirst rfl)) (.single (.exec hsecond rfl))
  have hstart : AtBssClear cpu.pc bssStart bssEnd loaded := by
    subst hloaded
    exact ⟨rfl, rfl, rfl⟩
  obtain ⟨last, hloop, hpc, hwords, hsp⟩ :=
    bssClear_loop placed fits bssEnd hstart aligned (by omega)
  have hcalled : Step code last
      { (last.set (.x 30) (last.pc + 4)) with pc := kernelMain } :=
    .exec (hpc ▸ hcall) rfl
  refine ⟨_, (hreaches.trans hloop).tail hcalled, rfl, ?_, ?_⟩
  · refine hsp.trans ?_
    subst hloaded
    rfl
  · intro word
    refine (congrFun hwords word).trans ?_
    subst hloaded
    rfl

end

/-! The code at a fixed address, and a `.bss` of three words. -/

def bootImage : Image := fun pc =>
  (bssClear 4096 8192 8216 16384)[(pc - 4096) / 4]?

def bootCpu : Cpu where
  x := fun _ => 0
  sp := 65536
  pc := 4096
  nzcv := 0
  daif := 15
  system := fun _ => 0
  words := fun word => word
  stackCheck := false

theorem bssClear_clears_small :
    ∃ after, Reaches bootImage bootCpu after ∧ after.pc = 16384 ∧
      after.sp = 65536 ∧ ∀ word, after.words word =
        if 8192 ≤ 8 * word ∧ 8 * word < 8216 then 0 else word := by
  refine bssClear_clears (placed_of_getElem? ?_) (by decide) (by decide)
  intro index instruction hindex
  show (bssClear 4096 8192 8216 16384)[(4096 + 4 * index - 4096) / 4]? = _
  rw [show (4096 + 4 * index - 4096) / 4 = index by omega]
  exact hindex

end Planetoid.Arch
