/-!
# Registries

A registry only grows. An entry is found again under the key that its insertion gave out, which is
its place in insertion order.
-/

namespace Formulary

/-- The place of an entry in a registry of `α`. -/
structure Key (α : Type) where
  index : Nat
deriving Repr

/-- Keys are told apart by their places; entries are not looked at. -/
instance {α : Type} : DecidableEq (Key α)
  | ⟨i⟩, ⟨j⟩ => if h : i = j then .isTrue (h ▸ rfl) else .isFalse fun e => h (Key.mk.inj e)

def Key.text {α : Type} (key : Key α) : String := "#" ++ toString key.index

structure Registry (α : Type) where
  entries : Array α := #[]

namespace Registry

variable {α : Type}

def size (r : Registry α) : Nat := r.entries.size

def isEmpty (r : Registry α) : Bool := r.entries.isEmpty

def toList (r : Registry α) : List α := r.entries.toList

/-- The key of the next entry. -/
def nextKey (r : Registry α) : Key α := ⟨r.size⟩

def insert (r : Registry α) (item : α) : Registry α := ⟨r.entries.push item⟩

def get? (r : Registry α) (key : Key α) : Option α := r.entries[key.index]?

/-- Every entry with its key, the oldest first. -/
def keyed (r : Registry α) : List (Key α × α) := r.toList.zipIdx.map fun (item, i) => (⟨i⟩, item)

@[simp] theorem toList_insert (r : Registry α) (item : α) :
    (r.insert item).toList = r.toList ++ [item] := by
  simp [insert, toList]

theorem get?_eq_getElem? (r : Registry α) (key : Key α) : r.get? key = r.toList[key.index]? := by
  simp [get?, toList]

theorem get?_insert_nextKey (r : Registry α) (item : α) :
    (r.insert item).get? r.nextKey = some item := by
  simp [get?, insert, nextKey, size]

end Registry

end Formulary
