import AlignedSlots.Container.Slots

/-!
# Walks and searches

A walk goes over indices in a given order and hands each index and its element to a visitor, until the
visitor fails.  The visitor has a state of its own, `ν`, which survives its failure.  In a walk that
may change elements the visitor holds the element in its state, so that what it left there is kept
also when it fails.
-/

namespace AlignedSlots

namespace Walk

variable {ε ν α : Type}

/-- Visits the elements at the given indices. -/
def visit (read : Nat → Except Fault α) (visitor : Nat → α → Prog ε ν Unit) :
    List Nat → Prog ε ν Unit
  | [] => pure ()
  | index :: rest => do
    let x ← read index
    visitor index x
    visit read visitor rest

/-- The first of the given indices whose element has the property, or `otherwise`. -/
def find (read : Nat → Except Fault α) (property : Nat → α → Prog ε ν Bool) (otherwise : Nat) :
    List Nat → Prog ε ν Nat
  | [] => pure otherwise
  | index :: rest => do
    let x ← read index
    if ← property index x then return index
    else find read property otherwise rest

/-- Visits one element in place: the visitor starts with the element, and what it leaves is stored. -/
def visitInPlace [Element α] (offset : Slots → Except Fault Nat) (visitor : Prog ε (α × ν) Unit) :
    Prog ε (Slots × ν) Unit := fun (slots, n) =>
  match offset slots with
  | .error f => .error (.fault f) (slots, n)
  | .ok offset =>
    match visitor (slots.load offset, n) with
    | .ok () (x, n) => .ok () (slots.store offset x, n)
    | .error e (x, n) => .error e (slots.store offset x, n)

/-- Visits the elements at the given indices in place. -/
def visitAllInPlace [Element α] (offset : Slots → Nat → Except Fault Nat)
    (visitor : Nat → Prog ε (α × ν) Unit) : List Nat → Prog ε (Slots × ν) Unit
  | [] => pure ()
  | index :: rest => do
    visitInPlace (fun slots => offset slots index) (visitor index)
    visitAllInPlace offset visitor rest

/-- The indices below `n` from the first to the last. -/
def forward (n : Nat) : List Nat := List.range n

/-- The indices below `n` from the last to the first. -/
def backward (n : Nat) : List Nat := (List.range n).reverse

end Walk

end AlignedSlots
