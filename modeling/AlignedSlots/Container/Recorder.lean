import AlignedSlots.Failure

/-!
# Recording visitors

Visitors that keep a record of what they were shown, and fail at a chosen index.
-/

namespace AlignedSlots

/-- Where a visitor fails, and with which error. -/
structure Recorder (ε : Type) where
  stop : Option Nat
  error : ε

namespace Recorder

variable {ε α β : Type}

/-- The outcome of a call at an index. -/
def outcome {σ : Type} (r : Recorder ε) (index : Nat) (result : β) : Prog ε σ β :=
  if r.stop = some index then Prog.fail r.error else pure result

/-- Records an element with its index. -/
def visit (r : Recorder ε) (index : Nat) (x : α) : Prog ε (Array (Nat × α)) Unit := do
  modify fun seen => seen.push (index, x)
  r.outcome index ()

/-- Records an element, and puts a value in its place. -/
def change (r : Recorder ε) (value : Nat → α → α) (index : Nat) :
    Prog ε (α × Array (Nat × α)) Unit := do
  modify fun (x, seen) => (value index x, seen.push (index, x))
  r.outcome index ()

/-- Records a pair, with the number of the call as its index. -/
def visitPair (r : Recorder ε) (a : α) (b : β) : Prog ε (Array (α × β)) Unit := do
  let calls := (← get).size
  modify fun seen => seen.push (a, b)
  r.outcome calls ()

/-- Counts calls of a property. -/
def ask (r : Recorder ε) (property : α → Bool) (index : Nat) (x : α) : Prog ε Nat Bool := do
  modify (· + 1)
  r.outcome index (property x)

end Recorder

end AlignedSlots
