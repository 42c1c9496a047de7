import Mathlib
import AlignedSlots.Proofs.Container.SequenceLaws

/-!
# Steps of a sequence

A step is one call of an operation with its arguments.  `SequenceStep.run` makes the call on a
sequence, and `SequenceStep.onList` says what the same step does to a list.  `SequenceStep.Outcome` is
how a step ends, and `SequenceStep.run_outcome` that every step ends so: it does to the elements what it
does to the list, or the room that it needs is denied and nothing changes.
-/

namespace AlignedSlots

/-- An operation of a sequence and its arguments.  The visitors of all walks share a state `ν`. -/
inductive SequenceStep (α ν : Type) where
  | push (x : α)
  | insert (i : Nat) (x : α)
  | erase (i : Nat)
  | set (i : Nat) (x : α)
  | get (i : Nat)
  | last
  | pop
  | clear
  | reserve (capacity : UInt64)
  | extend (xs : List α)
  | index (i : Nat)
  | setIndex (i : Nat) (x : α)
  | eachInPlace (visitor : Nat → Prog ContainerError (α × ν) Unit)

/-- What a step answers. -/
inductive SequenceAnswer (α : Type) where
  | done
  | element (x : α)

namespace SequenceStep

variable {α ν β : Type}

/-! ## Steps on sequences -/

/-- A program of the sequence alone. -/
def onSequence (m : Hosted ContainerError (Sequence α) β) :
    Hosted ContainerError (Sequence α × ν) β := fun ((v, n), host) =>
  match m (v, host) with
  | .ok b (v, host) => .ok b ((v, n), host)
  | .error e (v, host) => .error e ((v, n), host)

/-- A program that has nothing to do with the host. -/
def offHost (m : Prog ContainerError (Sequence α × ν) β) :
    Hosted ContainerError (Sequence α × ν) β := fun (c, host) =>
  match m c with
  | .ok b c => .ok b (c, host)
  | .error e c => .error e (c, host)

/-- A program without an answer of its own. -/
def edit (m : Hosted ContainerError (Sequence α) Unit) :
    Hosted ContainerError (Sequence α × ν) (SequenceAnswer α) :=
  (fun _ => SequenceAnswer.done) <$> onSequence m

/-- Reads an element. -/
def read (f : Sequence α → Except (Failure ContainerError) α) :
    Hosted ContainerError (Sequence α × ν) (SequenceAnswer α) :=
  SequenceAnswer.element <$> onSequence (Sequence.ask f)

/-- Runs a step. -/
def run [Element α] :
    SequenceStep α ν → Hosted ContainerError (Sequence α × ν) (SequenceAnswer α)
  | push x => edit (Sequence.push x)
  | insert i x => edit (Sequence.insert i x)
  | erase i => edit (Sequence.erase i)
  | set i x => edit (Sequence.set i x)
  | get i => read fun v => v.get i
  | last => read Sequence.last
  | pop => SequenceAnswer.element <$> onSequence Sequence.pop
  | clear => edit Sequence.clear
  | reserve capacity => edit (Sequence.reserve capacity.toNat)
  | extend xs => edit (Sequence.extend xs)
  | index i => read fun v => v.index i
  | setIndex i x => edit (Sequence.setIndex i x)
  | eachInPlace visitor => (fun _ => SequenceAnswer.done) <$> offHost (Sequence.eachInPlace visitor)

/-! ## Steps on lists -/

/-- Answers an element, or fails where there is none. -/
def answerElement (e : Failure ContainerError) :
    Option α → Prog ContainerError (List α × ν) (SequenceAnswer α)
  | some x => pure (.element x)
  | none => fun s => .error e s

/-- Replaces the list where the position is one of its own, and fails elsewhere. -/
def editAt (index : Nat) (e : Failure ContainerError) (f : List α → List α) :
    Prog ContainerError (List α × ν) (SequenceAnswer α) := fun (l, n) =>
  if index < l.length then .ok .done (f l, n) else .error e (l, n)

/-- What a step does to a list and to the state of the visitors. -/
def onList : SequenceStep α ν → Prog ContainerError (List α × ν) (SequenceAnswer α)
  | push x => fun (l, n) => .ok .done (l ++ [x], n)
  | insert i x => fun (l, n) => .ok .done (l.insertIdx (min i l.length) x, n)
  | erase i => editAt i (.error .illegalArgument) fun l => l.eraseIdx i
  | set i x => editAt i (.error .illegalArgument) fun l => l.set i x
  | get i => fun (l, n) => answerElement (.error .illegalArgument) l[i]? (l, n)
  | last => fun (l, n) => answerElement (.error .underflow) l.getLast? (l, n)
  | pop => fun (l, n) =>
    match l.getLast? with
    | some x => .ok (.element x) (l.dropLast, n)
    | none => .error (.error .underflow) (l, n)
  | clear => fun (_, n) => .ok .done ([], n)
  | reserve _ => fun (l, n) => .ok .done (l, n)
  | extend xs => fun (l, n) => .ok .done (l ++ xs, n)
  | index i => fun (l, n) => answerElement (.fault (.indexRange i l.length)) l[i]? (l, n)
  | setIndex i x => fun (l, n) =>
    editAt i (.fault (.indexRange i l.length)) (fun l => l.set i x) (l, n)
  | eachInPlace visitor => fun (l, n) =>
    match Walk.visitList visitor 0 l n with
    | .ok () s => .ok .done s
    | .error e s => .error e s

/-- How many elements a step wants room for. -/
def demand (length : Nat) : SequenceStep α ν → Nat
  | push _ => length + 1
  | insert _ _ => length + 1
  | reserve capacity => capacity.toNat
  | extend xs => length + xs.length
  | _ => 0

/-! ## How a step ends -/

section Outcome

variable {step : SequenceStep α ν} {v : Sequence α} {n : ν} {host : Host} {l : List α}

theorem onSequence_ends {m : Hosted ContainerError (Sequence α) β} {Q : β → Sequence α × Host → Prop}
    {E : Failure ContainerError → Sequence α × Host → Prop} (h : m.Ends (v, host) Q E) (n : ν) :
    (onSequence m).Ends ((v, n), host) (fun b s => s.1.2 = n ∧ Q b (s.1.1, s.2))
      (fun e s => s.1.2 = n ∧ E e (s.1.1, s.2)) := by
  rcases h.run_eq with ⟨b, s, heq, hq⟩ | ⟨e, s, heq, he⟩
  · have hrun : onSequence m ((v, n), host) = .ok b ((s.1, n), s.2) := by
      simp only [onSequence, heq]
    exact Prog.Ends.of_ok hrun ⟨rfl, hq⟩
  · have hrun : onSequence m ((v, n), host) = .error e ((s.1, n), s.2) := by
      simp only [onSequence, heq]
    exact Prog.Ends.of_error hrun ⟨rfl, he⟩

theorem offHost_ends {m : Prog ContainerError (Sequence α × ν) β} {Q : β → Sequence α × ν → Prop}
    {E : Failure ContainerError → Sequence α × ν → Prop} (h : m.Ends (v, n) Q E) (host : Host) :
    (offHost m).Ends ((v, n), host) (fun b s => s.2 = host ∧ Q b s.1)
      (fun e s => s.2 = host ∧ E e s.1) := by
  rcases h.run_eq with ⟨b, s, heq, hq⟩ | ⟨e, s, heq, he⟩
  · have hrun : offHost m ((v, n), host) = .ok b (s, host) := by
      simp only [offHost, heq]
    exact Prog.Ends.of_ok hrun ⟨rfl, hq⟩
  · have hrun : offHost m ((v, n), host) = .error e (s, host) := by
      simp only [offHost, heq]
    exact Prog.Ends.of_error hrun ⟨rfl, he⟩

theorem grown_of_demand_eq_zero (h : step.demand v.length = 0) (heap : Heap) :
    v.Grown (step.demand v.length) heap v heap := by
  rw [h]
  exact ⟨rfl, .enough (Nat.zero_le _)⟩

variable [Element α]

/-- How a step ends, on a sequence that holds a list. -/
inductive Outcome (step : SequenceStep α ν) (v : Sequence α) (n : ν) (heap : Heap) :
    Except (Failure ContainerError) (SequenceAnswer α) → Sequence α × ν → Heap → Prop
  /-- The step does to the elements what it does to the list. -/
  | answered {a : SequenceAnswer α} {v₁ v' : Sequence α} {l : List α} {n' : ν} {heap' : Heap} :
      step.onList (v.toList, n) = .ok a (l, n') →
      v.Grown (step.demand v.length) heap v₁ heap' → Sequence.Rewritten v₁ v' l →
      Outcome step v n heap (.ok a) (v', n') heap'
  /-- The step fails as on the list.  Only a walk has changed anything by then. -/
  | failed {e : Failure ContainerError} {v' : Sequence α} {l : List α} {n' : ν} :
      step.onList (v.toList, n) = .error e (l, n') →
      Sequence.Rewritten v v' l → v'.length = v.length →
      ((∃ visitor, step = .eachInPlace visitor) ∨ (v', n') = (v, n)) →
      Outcome step v n heap (.error e) (v', n') heap
  /-- There is no room for the step. -/
  | denied {e : Failure ContainerError} {heap' : Heap} :
      v.Denied (step.demand v.length) heap heap' e →
      Outcome step v n heap (.error e) (v, n) heap'

/-- The program ends as the step does. -/
def Performs (step : SequenceStep α ν) (v : Sequence α) (n : ν) (host : Host)
    (m : Hosted ContainerError (Sequence α × ν) (SequenceAnswer α)) : Prop :=
  m.Ends ((v, n), host) (fun a s => Outcome step v n host.heap (.ok a) s.1 s.2.heap)
    fun e s => Outcome step v n host.heap (.error e) s.1 s.2.heap

/-- A step that needs room. -/
theorem performs_edit {m : Hosted ContainerError (Sequence α) Unit}
    (hlist : step.onList (v.toList, n) = .ok .done (l, n))
    (h : m.Ends (v, host)
      (fun _ s => ∃ v₁, v.Grown (step.demand v.length) host.heap v₁ s.2.heap ∧
        Sequence.Rewritten v₁ s.1 l)
      (fun e s => s.1 = v ∧ v.Denied (step.demand v.length) host.heap s.2.heap e)) :
    Performs step v n host (edit m) := by
  apply ((onSequence_ends h n).mono _ _).map
  · rintro _ ⟨⟨v', n'⟩, host'⟩ ⟨rfl, v₁, hgrown, hrewritten⟩
    exact .answered hlist hgrown hrewritten
  · rintro e ⟨⟨v', n'⟩, host'⟩ ⟨rfl, rfl, hdenied⟩
    exact .denied hdenied

/-- A step at a position of the sequence. -/
theorem performs_editAt {m : Hosted ContainerError (Sequence α) Unit} {i : Nat}
    {e₀ : Failure ContainerError} (hdemand : step.demand v.length = 0)
    (hlist : step.onList (v.toList, n) =
      if i < v.toList.length then .ok .done (l, n) else .error e₀ (v.toList, n)) (hsound : v.Sound)
    (h : m.Ends (v, host)
      (fun _ s => i < v.length ∧ Sequence.Rewritten v s.1 l ∧ s.2.heap = host.heap)
      (fun e s => v.length ≤ i ∧ e = e₀ ∧ s = (v, host))) :
    Performs step v n host (edit m) := by
  rw [Sequence.length_toList] at hlist
  apply ((onSequence_ends h n).mono _ _).map
  · rintro _ ⟨⟨v', n'⟩, host'⟩ ⟨rfl, hi, hrewritten, hheap⟩
    rw [if_pos hi] at hlist
    show Outcome step v n' host.heap _ (v', n') host'.heap
    rw [show host'.heap = host.heap from hheap]
    exact .answered hlist (grown_of_demand_eq_zero hdemand _) hrewritten
  · rintro e ⟨⟨v', n'⟩, host'⟩ ⟨rfl, hi, rfl, heq⟩
    cases heq
    rw [if_neg (Nat.not_lt.mpr hi)] at hlist
    exact .failed hlist ⟨hsound, .refl _, rfl⟩ rfl (.inr rfl)

/-- A step that reads an element. -/
theorem performs_read {f : Sequence α → Except (Failure ContainerError) α} {x : Option α}
    {e₀ : Failure ContainerError} (hdemand : step.demand v.length = 0)
    (hlist : step.onList (v.toList, n) = answerElement e₀ x (v.toList, n)) (hsound : v.Sound)
    (h : f v = Sequence.found e₀ x) : Performs step v n host (read f) := by
  have hself : Sequence.Rewritten v v v.toList := ⟨hsound, .refl _, rfl⟩
  cases x with
  | some x =>
    have hread : (Sequence.ask f).Ends (v, host) (fun y s => y = x ∧ s = (v, host))
        (fun _ _ => False) := Prog.Ends.of_ok (Sequence.ask_ok h host) ⟨rfl, rfl⟩
    apply ((onSequence_ends hread n).mono _ _).map
    · rintro y ⟨⟨v', n'⟩, host'⟩ ⟨rfl, rfl, heq⟩
      cases heq
      exact .answered hlist (grown_of_demand_eq_zero hdemand _) hself
    · exact fun _ _ hfalse => hfalse.2.elim
  | none =>
    have hread : (Sequence.ask f).Ends (v, host) (fun _ _ => False)
        (fun e s => e = e₀ ∧ s = (v, host)) :=
      Prog.Ends.of_error (Sequence.ask_error h host) ⟨rfl, rfl⟩
    apply ((onSequence_ends hread n).mono _ _).map
    · exact fun _ _ hfalse => hfalse.2.elim
    · rintro e ⟨⟨v', n'⟩, host'⟩ ⟨rfl, rfl, heq⟩
      cases heq
      exact .failed hlist hself rfl (.inr rfl)

variable [LawfulElement α]

/-- **Every step** does to a sequence what it does to the list of its elements, unless the room for it
is denied. -/
theorem run_performs (step : SequenceStep α ν) (h : v.Sound) (n : ν) (host : Host)
    (bounds : host.heap.placement.InBounds) : Performs step v n host step.run := by
  cases step with
  | push x => exact performs_edit rfl (Sequence.push_ends h x host bounds)
  | insert i x =>
    refine performs_edit ?_ (Sequence.insert_ends h i x host bounds)
    rw [← Sequence.length_toList]
    rfl
  | erase i => exact performs_editAt rfl rfl h (Sequence.erase_ends h i host)
  | set i x => exact performs_editAt rfl rfl h (Sequence.set_ends h i x host)
  | get i => exact performs_read rfl rfl h (Sequence.get_eq h i)
  | last => exact performs_read rfl rfl h (Sequence.last_eq h)
  | pop =>
    apply ((onSequence_ends (Sequence.pop_ends h host) n).mono _ _).map
    · rintro x ⟨⟨v', n'⟩, host'⟩ ⟨rfl, hlast, hrewritten, hheap⟩
      cases hheap
      refine .answered ?_ (grown_of_demand_eq_zero rfl _) hrewritten
      simp only [onList, hlast]
    · rintro e ⟨⟨v', n'⟩, host'⟩ ⟨rfl, hlast, rfl, heq⟩
      cases heq
      refine .failed ?_ ⟨h, .refl _, rfl⟩ rfl (.inr rfl)
      simp only [onList, hlast]
  | clear =>
    refine performs_edit rfl ((Sequence.clear_ends h host).mono ?_ fun _ _ hfalse => hfalse.elim)
    rintro _ ⟨v', host'⟩ ⟨hrewritten, hheap⟩
    cases hheap
    exact ⟨v, grown_of_demand_eq_zero rfl _, hrewritten⟩
  | reserve capacity =>
    have hword : capacity.toNat ≤ Word.greatest := Nat.le_sub_one_of_lt capacity.toNat_lt
    refine performs_edit rfl ((Sequence.reserve_ends h hword host bounds).mono ?_ fun _ _ he => he)
    intro _ s hgrown
    obtain ⟨hsound, hlist⟩ := hgrown.sound h bounds
    exact ⟨s.1, hgrown, hsound, .refl _, hlist⟩
  | extend xs => exact performs_edit rfl (Sequence.extend_ends h xs host bounds)
  | index i =>
    refine performs_read rfl ?_ h (Sequence.index_eq h i)
    rw [← Sequence.length_toList]
    rfl
  | setIndex i x =>
    refine performs_editAt rfl ?_ h (Sequence.setIndex_ends h i x host)
    rw [← Sequence.length_toList]
    rfl
  | eachInPlace visitor =>
    apply ((offHost_ends (Sequence.eachInPlace_ends h visitor n) host).mono _ _).map
    · rintro _ ⟨⟨v', n'⟩, host'⟩ ⟨rfl, l, hwalk, hrewritten, _⟩
      refine .answered ?_ (grown_of_demand_eq_zero rfl _) hrewritten
      simp only [onList, hwalk]
    · rintro e ⟨⟨v', n'⟩, host'⟩ ⟨rfl, l, hwalk, hrewritten, hlength⟩
      refine .failed ?_ hrewritten hlength (.inl ⟨visitor, rfl⟩)
      simp only [onList, hwalk]

end Outcome

end SequenceStep

end AlignedSlots
