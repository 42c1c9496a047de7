import Mathlib
import AlignedSlots.Proofs.Program

/-!
# Programs beside the state of visitors

A run of a container goes on with the container, the state `ν` that the visitors of all walks share, and
the host.  An operation works on one or two of the three, and the lifts below leave the rest alone.
-/

namespace AlignedSlots

namespace Hosted

variable {ε C ν β : Type}

/-- A program of the object alone. -/
def onObject (m : Hosted ε C β) : Hosted ε (C × ν) β := fun ((c, n), host) =>
  match m (c, host) with
  | .ok b (c, host) => .ok b ((c, n), host)
  | .error e (c, host) => .error e ((c, n), host)

/-- A program that has nothing to do with the host. -/
def offHost (m : Prog ε (C × ν) β) : Hosted ε (C × ν) β := fun (s, host) =>
  match m s with
  | .ok b s => .ok b (s, host)
  | .error e s => .error e (s, host)

/-- A program of the visitors that only reads the object. -/
def reading (m : C → Prog ε ν β) : Hosted ε (C × ν) β := fun ((c, n), host) =>
  match m c n with
  | .ok b n => .ok b ((c, n), host)
  | .error e n => .error e ((c, n), host)

/-- What the object answers to a question. -/
def asking (f : C → Except (Failure ε) β) : Hosted ε (C × ν) β := fun s =>
  match f s.1.1 with
  | .ok b => .ok b s
  | .error e => .error e s

variable {c : C} {n : ν} {host : Host}

theorem onObject_ok {m : Hosted ε C β} {b : β} {c' : C} {host' : Host}
    (h : m (c, host) = .ok b (c', host')) (n : ν) :
    onObject m ((c, n), host) = .ok b ((c', n), host') := by
  simp only [onObject, h]

theorem onObject_ends {m : Hosted ε C β} {Q : β → C × Host → Prop}
    {E : Failure ε → C × Host → Prop} (h : m.Ends (c, host) Q E) (n : ν) :
    (onObject m).Ends ((c, n), host) (fun b s => s.1.2 = n ∧ Q b (s.1.1, s.2))
      (fun e s => s.1.2 = n ∧ E e (s.1.1, s.2)) := by
  rcases h.run_eq with ⟨b, s, heq, hq⟩ | ⟨e, s, heq, he⟩
  · have hrun : onObject m ((c, n), host) = .ok b ((s.1, n), s.2) := by
      simp only [onObject, heq]
    exact Prog.Ends.of_ok hrun ⟨rfl, hq⟩
  · have hrun : onObject m ((c, n), host) = .error e ((s.1, n), s.2) := by
      simp only [onObject, heq]
    exact Prog.Ends.of_error hrun ⟨rfl, he⟩

theorem offHost_ends {m : Prog ε (C × ν) β} {Q : β → C × ν → Prop}
    {E : Failure ε → C × ν → Prop} (h : m.Ends (c, n) Q E) (host : Host) :
    (offHost m).Ends ((c, n), host) (fun b s => s.2 = host ∧ Q b s.1)
      (fun e s => s.2 = host ∧ E e s.1) := by
  rcases h.run_eq with ⟨b, s, heq, hq⟩ | ⟨e, s, heq, he⟩
  · have hrun : offHost m ((c, n), host) = .ok b (s, host) := by
      simp only [offHost, heq]
    exact Prog.Ends.of_ok hrun ⟨rfl, hq⟩
  · have hrun : offHost m ((c, n), host) = .error e (s, host) := by
      simp only [offHost, heq]
    exact Prog.Ends.of_error hrun ⟨rfl, he⟩

theorem reading_ends {m : C → Prog ε ν β} {Q : β → ν → Prop} {E : Failure ε → ν → Prop}
    (h : (m c).Ends n Q E) (host : Host) :
    (reading m).Ends ((c, n), host) (fun b s => s.1.1 = c ∧ s.2 = host ∧ Q b s.1.2)
      (fun e s => s.1.1 = c ∧ s.2 = host ∧ E e s.1.2) := by
  rcases h.run_eq with ⟨b, n', heq, hq⟩ | ⟨e, n', heq, he⟩
  · have hrun : reading m ((c, n), host) = .ok b ((c, n'), host) := by
      simp only [reading, heq]
    exact Prog.Ends.of_ok hrun ⟨rfl, rfl, hq⟩
  · have hrun : reading m ((c, n), host) = .error e ((c, n'), host) := by
      simp only [reading, heq]
    exact Prog.Ends.of_error hrun ⟨rfl, rfl, he⟩

/-! ## What the lifts leave -/

@[simp] theorem after_onObject (m : Hosted ε C β) (c : C) (n : ν) (host : Host) :
    (onObject m).after ((c, n), host) = (((m.after (c, host)).1, n), (m.after (c, host)).2) := by
  cases h : m (c, host) <;> simp only [Prog.after, onObject, h]

@[simp] theorem after_offHost (m : Prog ε (C × ν) β) (s : C × ν) (host : Host) :
    (offHost m).after (s, host) = (m.after s, host) := by
  cases h : m s <;> simp only [Prog.after, offHost, h]

@[simp] theorem after_reading (m : C → Prog ε ν β) (c : C) (n : ν) (host : Host) :
    (reading m).after ((c, n), host) = ((c, (m c).after n), host) := by
  cases h : m c n <;> simp only [Prog.after, reading, h]

@[simp] theorem after_asking (f : C → Except (Failure ε) β) (s : (C × ν) × Host) :
    (asking f).after s = s := by
  cases h : f s.1.1 <;> simp only [Prog.after, asking, h]

end Hosted

end AlignedSlots
