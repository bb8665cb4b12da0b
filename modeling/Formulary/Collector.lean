/-!
# Collectors

A collector keeps what it receives until it is taken out, and counts all it ever received.
-/

namespace Formulary

structure Collector (α : Type) where
  held : Array α := #[]
  received : Nat := 0

namespace Collector

variable {α : Type}

def receive (c : Collector α) (item : α) : Collector α := ⟨c.held.push item, c.received + 1⟩

/-- Takes out what is held. -/
def take (c : Collector α) : List α × Collector α := (c.held.toList, { c with held := #[] })

@[simp] theorem take_receive (c : Collector α) (item : α) :
    (c.receive item).take.1 = c.take.1 ++ [item] := by
  simp [receive, take]

@[simp] theorem received_receive (c : Collector α) (item : α) :
    (c.receive item).received = c.received + 1 := rfl

end Collector

end Formulary
