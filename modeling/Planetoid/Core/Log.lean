import Planetoid.Base.Program

namespace Planetoid.Log

open Planetoid Program

/-! `core/log.cpp`: the formatted output of the kernel log. -/

def nul : Char := Char.ofNat 0

structure CString where
  chars : List Char
  unterminated : nul ∉ chars
  deriving DecidableEq

/-- The bytes from the start of a string to its terminator. -/
def CString.memory (string : CString) : List Char :=
  string.chars ++ [nul]

/-- `(null)` in place of a null pointer. -/
def nullText : CString where
  chars := ['(', 'n', 'u', 'l', 'l', ')']
  unterminated := by decide

inductive PrintFault where
  /-- An access outside of the output buffer or of a digit buffer. -/
  | outOfBounds
  | pastTerminator
  | argumentMismatch
  | budgetExhausted
  deriving DecidableEq, Repr

abbrev Printer := Program (List Char) PrintFault

/-- `out[index] = c`. -/
def store (index : Nat) (c : Char) : Printer Unit :=
  .access (·.set index c) fun out =>
    if index < out.length then .ret () else .fail .outOfBounds

def load (index : Nat) : Printer Char :=
  .access id fun out => match out[index]? with
    | some c => .ret c
    | none => .fail .outOfBounds

/-- `*fmt`, of a pointer given by the bytes that it may still read. -/
def peek : List Char → Printer Char
  | [] => fail .pastTerminator
  | c :: _ => pure c

structure FormatSpec where
  prefixed : Bool
  width : UInt32
  type : Char

def isDigit (c : Char) : Bool := '0' ≤ c && c ≤ '9'

def digitValue (c : Char) : UInt32 := UInt32.ofNat (c.toNat - '0'.toNat)

def widthLoop :
    UInt32 × List Char → Printer (UInt32 × List Char ⊕ UInt32 × List Char)
  | (width, fmt) => do
    let c ← peek fmt
    if isDigit c then
      pure (.inl (width * 10 + digitValue c, fmt.tail))
    else
      pure (.inr (width, fmt))

def parseFormat (budget : Nat) (fmt : List Char) :
    Printer (FormatSpec × List Char) := do
  let prefixed := (← peek fmt) == '#'
  let fmt := if prefixed then fmt.tail else fmt
  let (width, fmt) ← whileLoop .budgetExhausted widthLoop budget (0, fmt)
  let type ← peek fmt
  pure ({ prefixed := prefixed, width := width, type := type }, fmt)

/-- The conversions write to `buffer = out + start`. -/
def padLeft (start count width : Nat) : Printer Nat :=
  if count ≥ width then
    pure count
  else do
    let pad := width - count
    -- i goes from count down to 1
    forEach (fun step => do
      let i := count - step
      store (start + (i + pad - 1)) (← load (start + (i - 1)))) 0 count
    forEach (fun i => store (start + i) '0') 0 pad
    pure width

/-- `while (value > 0)` over the digits of `value`, the last one first, which
go to `char temp[capacity]`. -/
def digitLoop (capacity base : Nat) (digit : Nat → Char) :
    Nat × List Char → Printer (Nat × List Char ⊕ List Char)
  | (value, temp) =>
    if value > 0 then
      if temp.length < capacity then
        pure (.inl (value / base, temp ++ [digit (value % base)]))
      else
        fail .outOfBounds
    else
      pure (.inr temp)

def takeDigits (budget capacity base : Nat) (digit : Nat → Char)
    (value : Nat) : Printer (List Char) :=
  whileLoop .budgetExhausted (digitLoop capacity base digit) budget
    (value, [])

/-- `for (i = 0; i < count; i++) buffer[i] = temp[count - 1 - i]`. -/
def copyReversed (temp : List Char) (start : Nat) : Printer Unit :=
  forEach (fun i =>
    store (start + i) (temp.getD (temp.length - 1 - i) nul)) 0 temp.length

def decimalDigit (value : Nat) : Char := Char.ofNat ('0'.toNat + value)

def formatUint (budget value start : Nat) : Printer Nat :=
  if value = 0 then do
    store start '0'
    pure 1
  else do
    let temp ← takeDigits budget 20 10 decimalDigit value
    copyReversed temp start
    pure temp.length

def formatInt (budget : Nat) (value : Int) (start : Nat) : Printer Nat :=
  if value < 0 then do
    store start '-'
    let count ← formatUint budget value.natAbs (start + 1)
    pure (1 + count)
  else
    formatUint budget value.natAbs start

def reversedDigits (budget capacity base : Nat) (digit : Nat → Char)
    (value : Nat) : Printer (List Char) :=
  if value = 0 then
    pure ['0']
  else
    takeDigits budget capacity base digit value

def addPrefix (letter : Char) (start count : Nat) : Printer Nat := do
  forEach (fun step => do
    let i := count - step
    store (start + (i + 1)) (← load (start + (i - 1)))) 0 count
  store start '0'
  store (start + 1) letter
  pure (count + 2)

def formatBase (capacity base : Nat) (digit : Nat → Char) (letter : Char)
    (budget value : Nat) (prefixed : Bool) (width : UInt32) (start : Nat) :
    Printer Nat := do
  let temp ← reversedDigits budget capacity base digit value
  copyReversed temp start
  let count ← padLeft start temp.length width.toNat
  if prefixed then addPrefix letter start count else pure count

/-- `digits[value & 0xF]`. -/
def hexDigit (value : Nat) : Char :=
  ['0', '1', '2', '3', '4', '5', '6', '7', '8', '9', 'A', 'B', 'C', 'D', 'E',
    'F'].getD value nul

def binDigit (value : Nat) : Char := if value = 1 then '1' else '0'

def formatHex : Nat → Nat → Bool → UInt32 → Nat → Printer Nat :=
  formatBase 32 16 hexDigit 'x'

def formatBin : Nat → Nat → Bool → UInt32 → Nat → Printer Nat :=
  formatBase 66 2 binDigit 'b'

inductive Argument where
  | string (value : Option CString)
  | unsigned (value : UInt32)
  | int (value : Int32)
  | long (value : UInt64)
  deriving DecidableEq

def Argument.asString : Argument → Option (Option CString)
  | .string value => some value
  | _ => none

def Argument.asUnsigned : Argument → Option UInt32
  | .unsigned value => some value
  | _ => none

def Argument.asInt : Argument → Option Int32
  | .int value => some value
  | _ => none

def Argument.asLong : Argument → Option UInt64
  | .long value => some value
  | _ => none

def vaArg (view : Argument → Option α) :
    List Argument → Printer (α × List Argument)
  | [] => fail .argumentMismatch
  | first :: rest => match view first with
    | some value => pure (value, rest)
    | none => fail .argumentMismatch

/-- `while (*str && pos < out_size - 1) out[pos++] = *str++`. -/
def copyLoop (outSize : Nat) :
    List Char × Nat → Printer (List Char × Nat ⊕ Nat)
  | (string, pos) => do
    let c ← peek string
    if c ≠ nul ∧ pos < outSize - 1 then do
      store pos c
      pure (.inl (string.tail, pos + 1))
    else
      pure (.inr pos)

def printDirective (budget outSize : Nat) (spec : FormatSpec)
    (fmt : List Char) (args : List Argument) (pos : Nat) :
    Printer (List Argument × Nat) :=
  if spec.type = 's' then do
    let (string, args) ← vaArg Argument.asString args
    let pos ← whileLoop .budgetExhausted (copyLoop outSize) budget
      ((string.getD nullText).memory, pos)
    pure (args, pos)
  else if spec.type = 'u' then do
    let (value, args) ← vaArg Argument.asUnsigned args
    let count ← formatUint budget value.toNat pos
    pure (args, pos + count)
  else if spec.type = 'i' then do
    let (value, args) ← vaArg Argument.asInt args
    let count ← formatInt budget value.toInt pos
    pure (args, pos + count)
  else if spec.type = 'x' then do
    let (value, args) ← vaArg Argument.asLong args
    let count ← formatHex budget value.toNat spec.prefixed spec.width pos
    pure (args, pos + count)
  else if spec.type = 'b' then do
    let (value, args) ← vaArg Argument.asLong args
    let count ← formatBin budget value.toNat spec.prefixed spec.width pos
    pure (args, pos + count)
  else do
    store pos '%'
    store (pos + 1) (← peek fmt)
    pure (args, pos + 2)

def printLoop (budget outSize : Nat) :
    List Char × List Argument × Nat →
      Printer ((List Char × List Argument × Nat) ⊕ Nat)
  | (fmt, args, pos) => do
    let c ← peek fmt
    if c ≠ nul ∧ pos < outSize - 1 then
      if c ≠ '%' then do
        store pos c
        pure (.inl (fmt.tail, args, pos + 1))
      else do
        let (spec, fmt) ← parseFormat budget fmt.tail
        let (args, pos) ← printDirective budget outSize spec fmt args pos
        pure (.inl (fmt.tail, args, pos))
    else
      pure (.inr pos)

def formatString (budget outSize : Nat) (fmt : List Char)
    (args : List Argument) : Printer Unit := do
  let pos ← whileLoop .budgetExhausted (printLoop budget outSize) budget
    (fmt, args, 0)
  store pos nul

end Planetoid.Log
