import Mathlib.Data.Nat.Bitwise

namespace Planetoid.Arch

/-! The translation walk of AArch64 for a granule of 4 KiB and `T0SZ = 25`. -/

/-- What a walk ends with: the output address, and the entry that gave it. -/
structure Translation where
  address : Nat
  entry : Nat
  level : Nat
  deriving DecidableEq, Repr

def outputAddress (entry low : Nat) : Nat :=
  entry % 2 ^ 48 / 2 ^ low * 2 ^ low

def walkLevel3 (tables : Nat → Nat → Nat) (table virtualAddress : Nat) :
    Option Translation :=
  let entry := tables table (virtualAddress / 2 ^ 12 % 512)
  if entry % 4 = 3 then
    some ⟨outputAddress entry 12 + virtualAddress % 2 ^ 12, entry, 3⟩
  else none

def walkLevel2 (tables : Nat → Nat → Nat) (table virtualAddress : Nat) :
    Option Translation :=
  let entry := tables table (virtualAddress / 2 ^ 21 % 512)
  if entry % 4 = 3 then
    walkLevel3 tables (outputAddress entry 12) virtualAddress
  else if entry % 4 = 1 then
    some ⟨outputAddress entry 21 + virtualAddress % 2 ^ 21, entry, 2⟩
  else none

def walkLevel1 (tables : Nat → Nat → Nat) (table virtualAddress : Nat) :
    Option Translation :=
  let entry := tables table (virtualAddress / 2 ^ 30 % 512)
  if entry % 4 = 3 then
    walkLevel2 tables (outputAddress entry 12) virtualAddress
  else if entry % 4 = 1 then
    some ⟨outputAddress entry 30 + virtualAddress % 2 ^ 30, entry, 1⟩
  else none

def tableWalk (tables : Nat → Nat → Nat) (root virtualAddress : Nat) :
    Option Translation :=
  if virtualAddress < 2 ^ 39 then walkLevel1 tables root virtualAddress
  else none

/-- `AP[2]` of a block or page entry: only reads are allowed. -/
def readOnly (entry : Nat) : Bool := entry.testBit 7

def executeNever (entry : Nat) : Bool := entry.testBit 53

end Planetoid.Arch
