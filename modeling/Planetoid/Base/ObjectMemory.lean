import Mathlib.Logic.Function.Basic
import Planetoid.Base.Runs

namespace Planetoid

/-! Memories of separate objects, as the clients of an allocator see them. -/

structure StoredObject (β : Type) where
  size : Nat
  value : Nat → Option β
  bounded : ∀ offset, size ≤ offset → value offset = none

namespace StoredObject

variable {β : Type}

def fresh (size : Nat) : StoredObject β where
  size := size
  value := fun _ => none
  bounded := fun _ _ => rfl

def store (object : StoredObject β) (offset : Nat) (value : β)
    (h : offset < object.size) : StoredObject β where
  size := object.size
  value := Function.update object.value offset (some value)
  bounded := by
    intro other hother
    rw [Function.update_of_ne (by omega)]
    exact object.bounded other hother

@[simp] theorem fresh_value (size offset : Nat) :
    (fresh size : StoredObject β).value offset = none := rfl

@[simp] theorem store_size (object : StoredObject β) {offset : Nat}
    (value : β) (h : offset < object.size) :
    (object.store offset value h).size = object.size := rfl

theorem store_value (object : StoredObject β) {offset : Nat} (value : β)
    (h : offset < object.size) (other : Nat) :
    (object.store offset value h).value other =
      if other = offset then some value else object.value other :=
  Function.update_apply ..

end StoredObject

abbrev ObjectMemory (ι β : Type) := ι → Option (StoredObject β)

/-- A call of the allocator or an access of a client, with its result. -/
inductive ObjectEvent (ι β : Type) where
  | allocate (size : Nat) (result : Option ι)
  | release (name : ι)
  | store (name : ι) (offset : Nat) (value : β)
  | load (name : ι) (offset : Nat) (value : β)

variable {ι β : Type} [DecidableEq ι]

/-- A load gives the value that was stored, or any value if there is none. -/
inductive ObjectStep : ObjectMemory ι β → ObjectEvent ι β →
    ObjectMemory ι β → Prop
  | failed (memory : ObjectMemory ι β) (size : Nat) :
      ObjectStep memory (.allocate size none) memory
  | allocated {memory : ObjectMemory ι β} {name : ι} {size larger : Nat}
      (unused : memory name = none) (enough : size ≤ larger) :
      ObjectStep memory (.allocate size (some name))
        (Function.update memory name (some (.fresh larger)))
  | release {memory : ObjectMemory ι β} {name : ι} {object : StoredObject β}
      (live : memory name = some object) :
      ObjectStep memory (.release name) (Function.update memory name none)
  | store {memory : ObjectMemory ι β} {name : ι} {object : StoredObject β}
      {offset : Nat} {value : β} (live : memory name = some object)
      (inside : offset < object.size) :
      ObjectStep memory (.store name offset value)
        (Function.update memory name
          (some (object.store offset value inside)))
  | load {memory : ObjectMemory ι β} {name : ι} {object : StoredObject β}
      {offset : Nat} {value : β} (live : memory name = some object)
      (inside : offset < object.size)
      (stored : ∀ known ∈ object.value offset, value = known) :
      ObjectStep memory (.load name offset value) memory

def objectMemories (ι β : Type) [DecidableEq ι] :
    System (ObjectMemory ι β) (ObjectEvent ι β) where
  initial := fun memory => memory = fun _ => none
  step := ObjectStep

end Planetoid
