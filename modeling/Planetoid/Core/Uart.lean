import Planetoid.Base.Rely
import Planetoid.Core.Log

namespace Planetoid.Log

open Planetoid Program

/-! `drivers/uart.c`, and the device that transmits. -/

/-- The bytes that the device transmitted, and those in its FIFO. -/
structure Uart (depth : Nat) where
  sent : List (BitVec 8)
  pending : List (BitVec 8)
  room : pending.length ≤ depth
  /-- The flags, of which `UART_FLAG_TXFF` follows from the FIFO. -/
  status : BitVec 32

def uartFlagTxff : BitVec 32 := 1 <<< 5

section

variable {depth : Nat}

namespace Uart

def Full (uart : Uart depth) : Prop := uart.pending.length = depth

instance (uart : Uart depth) : Decidable uart.Full :=
  inferInstanceAs (Decidable (uart.pending.length = depth))

/-- `*flags`. -/
def flags (uart : Uart depth) : BitVec 32 :=
  if uart.Full then uart.status ||| uartFlagTxff
  else uart.status &&& ~~~uartFlagTxff

/-- `*data = value`. A byte that finds the FIFO full is lost. -/
def take (uart : Uart depth) (value : BitVec 32) : Uart depth :=
  if h : uart.Full then uart
  else { uart with
    pending := uart.pending ++ [value.setWidth 8]
    room := by
      have hlt : uart.pending.length < depth := Nat.lt_of_le_of_ne uart.room h
      rw [List.length_append]
      exact hlt }

def transmit (uart : Uart depth) : Uart depth where
  sent := uart.sent ++ uart.pending.take 1
  pending := uart.pending.tail
  room := Nat.le_trans (by simp) uart.room
  status := uart.status

inductive Device : Uart depth → Uart depth → Prop
  | transmits (uart : Uart depth) : Device uart uart.transmit
  | reports (uart : Uart depth) (status : BitVec 32) :
      Device uart { uart with status := status }

def history (uart : Uart depth) : List (BitVec 8) := uart.sent ++ uart.pending

end Uart

/-- `while (*flags & UART_FLAG_TXFF);` -/
def putcLoop : Unit → Program (Uart depth) PrintFault (Unit ⊕ Unit)
  | () => do
    let flags ← read Uart.flags
    if flags &&& uartFlagTxff ≠ 0 then pure (.inl ()) else pure (.inr ())

def uartPutc (budget : Nat) (c : Char) : Program (Uart depth) PrintFault Unit := do
  whileLoop .budgetExhausted putcLoop budget ()
  write (·.take (BitVec.ofNat 32 c.toNat))

/-- The loop of `uart_puts`, with what may still be read of the string. -/
def putsLoop (budget : Nat) :
    List Char → Program (Uart depth) PrintFault (List Char ⊕ Unit)
  | [] => fail .pastTerminator
  | c :: s =>
    if c ≠ nul then do
      uartPutc budget c
      pure (.inl s)
    else pure (.inr ())

def uartPuts (budget : Nat) (s : List Char) :
    Program (Uart depth) PrintFault Unit :=
  whileLoop .budgetExhausted (putsLoop budget) budget s

def byte (c : Char) : BitVec 8 := BitVec.ofNat 8 c.toNat

namespace Uart

variable {uart after : Uart depth}

theorem flags_and_txff : uart.flags &&& uartFlagTxff ≠ 0 ↔ uart.Full := by
  unfold flags
  split
  · rename_i hfull
    refine iff_of_true (fun hzero => ?_) hfull
    have hbit := congrArg (·.getLsbD 5) hzero
    simp [uartFlagTxff] at hbit
  · rename_i hfull
    refine iff_of_false (fun hne => hne ?_) hfull
    rw [BitVec.and_assoc]
    simp [uartFlagTxff]

theorem Device.keeps (device : Device uart after) :
    after.history = uart.history ∧ (¬ uart.Full → ¬ after.Full) := by
  cases device with
  | transmits =>
      refine ⟨?_, fun hfull => ?_⟩
      · change (uart.sent ++ uart.pending.take 1) ++ uart.pending.tail =
          uart.sent ++ uart.pending
        rw [List.append_assoc, ← List.drop_one, List.take_append_drop]
      · have hroom := uart.room
        change uart.pending.length ≠ depth at hfull
        change uart.pending.tail.length ≠ depth
        rw [List.length_tail]
        omega
  | reports => exact ⟨rfl, id⟩

theorem history_take (hroom : ¬ uart.Full) (value : BitVec 32) :
    (uart.take value).history = uart.history ++ [value.setWidth 8] := by
  unfold take
  rw [dif_neg hroom]
  exact (List.append_assoc ..).symm

end Uart

structure Shows (start : Uart depth) (line shown : List (BitVec 8))
    (uart : Uart depth) : Prop where
  isPrefix : shown <+: line
  history : uart.history = start.history ++ shown

/-- Of `line`, the device took the first bytes since `start`, and nothing
else. -/
def ShowsPart (start : Uart depth) (line : List (BitVec 8))
    (uart : Uart depth) : Prop :=
  ∃ shown, Shows start line shown uart

/-- The transmitter beside a program whose accesses come when `ready` holds. -/
def transmitter (ready : Uart depth → Prop) : Environment (Uart depth) where
  rely := Relation.ReflTransGen Uart.Device
  meets := ready
  rely_refl := fun _ => .refl
  rely_trans := fun first second => first.trans second

/-- A poll loop comes to the end of its budget at a FIFO that stays full. -/
def Waited (ready : Uart depth → Prop) (fault : PrintFault) : Prop :=
  fault = .budgetExhausted ∧ ∃ uart, ready uart ∧ uart.Full

section

variable {start uart after : Uart depth} {line shown : List (BitVec 8)}
  {ready : Uart depth → Prop}

theorem rely_keeps (h : Relation.ReflTransGen Uart.Device uart after) :
    after.history = uart.history ∧ (¬ uart.Full → ¬ after.Full) := by
  induction h with
  | refl => exact ⟨rfl, id⟩
  | tail _ device ih =>
      obtain ⟨hhistory, hroom⟩ := device.keeps
      exact ⟨hhistory.trans ih.1, hroom ∘ ih.2⟩

theorem Shows.rely (shows : Shows start line shown uart)
    (h : Relation.ReflTransGen Uart.Device uart after) :
    Shows start line shown after where
  isPrefix := shows.isPrefix
  history := (rely_keeps h).1.trans shows.history

theorem putcLoop_withstands (shows : Shows start line shown uart) :
    (putcLoop ()).Withstands (transmitter ready) (ShowsPart start line) (Waited ready)
      (fun result after => match result with
        | .inl _ => Shows start line shown after ∧
          Waited ready .budgetExhausted
        | .inr _ => Shows start line shown after ∧ ¬ after.Full) uart := by
  refine withstands_read_bind fun current hcurrent => ?_
  have hsame := shows.rely hcurrent
  refine ⟨⟨_, hsame⟩, fun hready => ?_⟩
  by_cases hfull : current.Full
  · rw [if_pos (Uart.flags_and_txff.mpr hfull)]
    exact withstands_pure fun after hafter => ⟨⟨_, hsame.rely hafter⟩,
      hsame.rely hafter, rfl, current, hready, hfull⟩
  · rw [if_neg (mt Uart.flags_and_txff.mp hfull)]
    exact withstands_pure fun after hafter => ⟨⟨_, hsame.rely hafter⟩,
      hsame.rely hafter, (rely_keeps hafter).2 hfull⟩

/-- The device only makes room, so the byte that is stored after the poll is
not lost. -/
theorem uartPutc_withstands {c : Char} (shows : Shows start line shown uart)
    (hnext : shown ++ [byte c] <+: line) {budget : Nat} (hbudget : 0 < budget) :
    (uartPutc budget c).Withstands (transmitter ready) (ShowsPart start line)
      (Waited ready) (fun _ => Shows start line (shown ++ [byte c])) uart := by
  have hpolled : (whileLoop .budgetExhausted putcLoop budget ()).Withstands
      (transmitter ready) (ShowsPart start line) (Waited ready)
      (fun _ after => Shows start line shown after ∧ ¬ after.Full) uart := by
    refine withstands_whileLoop (fun _ => Shows start line shown) (fun _ => 0)
      (fun _ polled hpolled => ?_) (.inl hbudget)
      fun current hcurrent => ⟨⟨_, shows.rely hcurrent⟩, shows.rely hcurrent⟩
    refine (putcLoop_withstands hpolled).weaken fun result after hresult => ?_
    cases result with
    | inl next => exact ⟨hresult.1, .inr hresult.2⟩
    | inr done => exact hresult
  refine withstands_bind hpolled fun _ polled h =>
    withstands_write fun current hcurrent => ?_
  obtain ⟨hshows, hroom⟩ := h.ended hcurrent
  refine ⟨⟨_, hshows⟩, fun _ after hafter => ?_⟩
  have hstored : Shows start line (shown ++ [byte c])
      (current.take (BitVec.ofNat 32 c.toNat)) := by
    refine ⟨hnext, ?_⟩
    rw [Uart.history_take hroom, hshows.history, List.append_assoc,
      BitVec.setWidth_ofNat_of_le (by decide)]
    rfl
  exact ⟨⟨_, hstored.rely hafter⟩, hstored.rely hafter⟩

theorem putsLoop_withstands {behind back : List Char} (htext : nul ∉ back)
    (shows : Shows start line shown uart)
    (hline : shown ++ back.map byte <+: line) {budget : Nat}
    (hbudget : 0 < budget) :
    (putsLoop budget (back ++ nul :: behind)).Withstands
      (transmitter ready) (ShowsPart start line) (Waited ready)
      (fun result after => match back with
        | [] => result = .inr () ∧ Shows start line shown after
        | c :: back => result = .inl (back ++ nul :: behind) ∧
          Shows start line (shown ++ [byte c]) after) uart := by
  cases back with
  | nil =>
      exact withstands_pure fun current hcurrent =>
        ⟨⟨_, shows.rely hcurrent⟩, rfl, shows.rely hcurrent⟩
  | cons c back =>
      have hc : c ≠ nul := fun heq => htext (by simp [heq])
      have hnext : shown ++ [byte c] <+: line := by
        refine List.IsPrefix.trans ?_ hline
        simp
      change Withstands _ _ _ _ (if c ≠ nul then _ else _) uart
      rw [if_pos hc]
      refine withstands_bind (uartPutc_withstands shows hnext hbudget)
        fun _ after h => withstands_pure fun current hcurrent => ?_
      have hshows := h.ended hcurrent
      exact ⟨⟨_, hshows⟩, rfl, hshows⟩

theorem uartPuts_withstands {text behind : List Char} (htext : nul ∉ text)
    (shows : Shows start line shown uart)
    (hline : shown ++ text.map byte <+: line) {budget : Nat}
    (hbudget : text.length < budget) :
    (uartPuts budget (text ++ nul :: behind)).Withstands
      (transmitter ready) (ShowsPart start line) (Waited ready)
      (fun _ => Shows start line (shown ++ text.map byte)) uart := by
  let left (s : List Char) := s.length - (behind.length + 1)
  refine withstands_whileLoop (fun s after => ∃ front back,
    front ++ back = text ∧ s = back ++ nul :: behind ∧
      Shows start line (shown ++ front.map byte) after) left ?_ ?_ ?_
  · rintro _ current ⟨front, back, rfl, rfl, hshows⟩
    rw [List.map_append, ← List.append_assoc] at hline
    refine (putsLoop_withstands (fun hmem => htext (List.mem_append_right _ hmem))
      hshows hline (by omega)).weaken fun result after h => ?_
    cases back with
    | nil =>
        obtain ⟨rfl, hafter⟩ := h
        rw [List.append_nil]
        exact hafter
    | cons c back =>
        obtain ⟨rfl, hafter⟩ := h
        refine ⟨⟨front ++ [c], back, by simp, rfl, ?_⟩, .inl ?_⟩
        · rw [List.map_append, ← List.append_assoc]
          exact hafter
        · simp [left]
          omega
  · refine .inl ?_
    simpa [left] using hbudget
  · intro current hcurrent
    refine ⟨⟨_, shows.rely hcurrent⟩, [], text, rfl, rfl, ?_⟩
    rw [List.map_nil, List.append_nil]
    exact shows.rely hcurrent

end

end

end Planetoid.Log
