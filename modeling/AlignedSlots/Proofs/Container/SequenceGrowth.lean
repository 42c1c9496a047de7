import Mathlib
import AlignedSlots.Proofs.Container.SequenceRoom

/-!
# How sequences grow

A sequence that elements are put into one at a time grows where it is full, by half its new length.  Its
capacities are then the numbers `Sequence.growthCapacity`, whatever is taken away in between, and they
grow geometrically: `Sequence.geometric_growth` counts the growths, and the slots that they carry over,
against the elements that were put in.

What a run has grown out of, the length after its last growth and its greatest length are no part of a
sequence.  They are read off the run, by `SequenceStep.outgrown`, `lastGrowth` and `peak`.
-/

namespace AlignedSlots

namespace Sequence

/-! ## Capacities -/

/-- The capacity after so many growths by one element. -/
def growthCapacity : Nat → Nat
  | 0 => 0
  | k + 1 => (3 * (growthCapacity k + 1)) ⌈/⌉ 2

/-- Each capacity is half as large again as one more than the last one, rounded up. -/
theorem two_mul_growthCapacity (k : Nat) :
    3 * growthCapacity k + 3 ≤ 2 * growthCapacity (k + 1) ∧
      2 * growthCapacity (k + 1) ≤ 3 * growthCapacity k + 4 := by
  have hceil : growthCapacity (k + 1) = (3 * (growthCapacity k + 1) + 1) / 2 := ceil_half _
  omega

/-- The capacities grow by a factor of one and a half. -/
theorem three_pow_le_growthCapacity (k : Nat) :
    3 ^ (k + 1) ≤ 2 ^ k * (growthCapacity k + 3) := by
  induction k with
  | zero => decide
  | succ k ih =>
    have hnext := (two_mul_growthCapacity k).1
    calc 3 ^ (k + 1 + 1)
      _ = 3 ^ (k + 1) * 3 := pow_succ 3 (k + 1)
      _ ≤ 2 ^ k * (growthCapacity k + 3) * 3 := Nat.mul_le_mul_right 3 ih
      _ = 2 ^ k * (3 * growthCapacity k + 9) := by ring
      _ ≤ 2 ^ k * (2 * (growthCapacity (k + 1) + 3)) := Nat.mul_le_mul_left _ (by omega)
      _ = 2 ^ (k + 1) * (growthCapacity (k + 1) + 3) := by ring

/-- All capacities up to one of them are three times as much together, at most. -/
theorem sum_growthCapacity_le (k : Nat) :
    ((List.range (k + 1)).map growthCapacity).sum ≤ 3 * growthCapacity k := by
  induction k with
  | zero => decide
  | succ k ih =>
    have hnext := (two_mul_growthCapacity k).1
    rw [List.range_succ]
    simp only [List.map_append, List.map_cons, List.map_nil, List.sum_append, List.sum_singleton]
    omega

/-- What follows where the last of `m` growths was paid for by `count` elements. -/
theorem geometric_bounds {m count : Nat} (hpos : 0 < count)
    (hpaid : 0 < m → growthCapacity (m - 1) < count) :
    3 ^ m ≤ 2 ^ (m - 1) * (count + 2) ∧
      ((List.range m).map growthCapacity).sum < 3 * count := by
  cases m with
  | zero =>
    simp
    omega
  | succ k =>
    have hpaid : growthCapacity k < count := hpaid (Nat.succ_pos k)
    constructor
    · calc 3 ^ (k + 1)
        _ ≤ 2 ^ k * (growthCapacity k + 3) := three_pow_le_growthCapacity k
        _ ≤ 2 ^ k * (count + 2) := Nat.mul_le_mul_left _ (by omega)
    · have hsum := sum_growthCapacity_le k
      omega

end Sequence

namespace SequenceStep

variable {α ν : Type}

/-! ## Single steps -/

/-- The step puts one element in. -/
def isPut : SequenceStep α ν → Bool
  | push _ => true
  | insert _ _ => true
  | _ => false

/-- How often the steps put one element in. -/
def puts (steps : List (SequenceStep α ν)) : Nat := steps.countP isPut

/-- The step wants room for one more element at most. -/
def Single : SequenceStep α ν → Prop
  | reserve _ => False
  | extend _ => False
  | _ => True

section Single

variable {step : SequenceStep α ν}

theorem Single.demand_eq (single : step.Single) (length : Nat) :
    step.demand length = if step.isPut then length + 1 else 0 := by
  cases step with
  | reserve _ => exact single.elim
  | extend _ => exact single.elim
  | _ => rfl

theorem puts_cons (step : SequenceStep α ν) (rest : List (SequenceStep α ν)) :
    puts (step :: rest) = puts rest + if step.isPut then 1 else 0 := List.countP_cons

theorem answerElement_eq_ok {e : Failure ContainerError} {x : Option α} {s s' : List α × ν}
    {a : SequenceAnswer α} (h : answerElement e x s = .ok a s') : s' = s := by
  cases x with
  | none => cases h
  | some _ =>
    cases h
    rfl

theorem editAt_eq_ok {i : Nat} {e : Failure ContainerError} {f : List α → List α}
    {s s' : List α × ν} {a : SequenceAnswer α} (h : editAt i e f s = .ok a s') :
    s' = (f s.1, s.2) := by
  have h : (if i < s.1.length then EStateM.Result.ok SequenceAnswer.done (f s.1, s.2)
      else .error e s) = .ok a s' := h
  by_cases hi : i < s.1.length
  · rw [if_pos hi] at h
    cases h
    rfl
  · rw [if_neg hi] at h
    cases h

/-- On a list, a step that puts an element in makes the list longer by one, and no other single step
makes it longer. -/
theorem Single.length_onList (single : step.Single) {s s' : List α × ν} {a : SequenceAnswer α}
    (h : step.onList s = .ok a s') :
    (step.isPut → s'.1.length = s.1.length + 1) ∧ (¬ step.isPut → s'.1.length ≤ s.1.length) := by
  cases step with
  | reserve _ => exact single.elim
  | extend _ => exact single.elim
  | push x =>
    cases h
    simp [isPut]
  | insert i x =>
    cases h
    have hle : min i s.1.length ≤ s.1.length := Nat.min_le_right i s.1.length
    simp [isPut, List.length_insertIdx_of_le_length hle]
  | clear =>
    cases h
    simp [isPut]
  | erase i =>
    refine ⟨nofun, fun _ => ?_⟩
    have hs' := editAt_eq_ok (f := fun l => l.eraseIdx i) h
    rw [hs']
    exact List.length_eraseIdx_le s.1 i
  | set i x =>
    refine ⟨nofun, fun _ => ?_⟩
    have hs' := editAt_eq_ok (f := fun l => l.set i x) h
    simp [hs']
  | setIndex i x =>
    refine ⟨nofun, fun _ => ?_⟩
    have hs' := editAt_eq_ok (f := fun l => l.set i x) h
    simp [hs']
  | get i => exact ⟨nofun, fun _ => Nat.le_of_eq (by rw [answerElement_eq_ok h])⟩
  | last => exact ⟨nofun, fun _ => Nat.le_of_eq (by rw [answerElement_eq_ok h])⟩
  | index i => exact ⟨nofun, fun _ => Nat.le_of_eq (by rw [answerElement_eq_ok h])⟩
  | pop =>
    refine ⟨nofun, fun _ => ?_⟩
    unfold onList at h
    cases hlast : s.1.getLast? with
    | none =>
      simp only [hlast] at h
      cases h
    | some x =>
      simp only [hlast] at h
      cases h
      simp
  | eachInPlace visitor =>
    refine ⟨nofun, fun _ => ?_⟩
    unfold onList at h
    cases hwalk : Walk.visitList visitor 0 s.1 s.2 with
    | error _ _ =>
      simp only [hwalk] at h
      cases h
    | ok _ t =>
      simp only [hwalk] at h
      cases h
      exact Nat.le_of_eq ((Walk.length_visitList visitor 0 s.1 s.2).1 _ _ hwalk)

end Single

/-! ## The pace of one step -/

/-- What a single step does to the length and the capacity, and how many blocks it is granted. -/
inductive Pace (put : Bool) (v : Sequence α) (heap : Heap) (v' : Sequence α) (heap' : Heap) : Prop
  | stayed : v'.capacity = v.capacity → heap'.allocations = heap.allocations →
      v'.length ≤ v.length + (if put then 1 else 0) → Pace put v heap v' heap'
  /-- Only a full sequence grows, and only for the one element that is put in. -/
  | outgrew : v.length = v.capacity → put = true → v'.length = v.length + 1 →
      v'.capacity = (3 * v'.length) ⌈/⌉ 2 → heap'.allocations = heap.allocations + 1 →
      Pace put v heap v' heap'

variable [Element α]

theorem Outcome.pace {step : SequenceStep α ν} {v v' : Sequence α} {n n' : ν} {heap heap' : Heap}
    {answer : Except (Failure ContainerError) (SequenceAnswer α)} (single : step.Single)
    (houtcome : Outcome step v n heap answer (v', n') heap') (h : v.Sound) :
    Pace step.isPut v heap v' heap' := by
  have hgrants := (Sequence.footprint_of_outcome houtcome).grants
  have hlength : v.length ≤ v.capacity := h.length_le
  cases houtcome with
  | answered hlist hgrown hrewritten =>
    have hlist := single.length_onList hlist
    rw [Sequence.length_toList, ← hrewritten.length_eq] at hlist
    obtain ⟨hput, hother⟩ := hlist
    rw [single.demand_eq] at hgrants
    cases hisPut : step.isPut with
    | true =>
      rw [hisPut, if_pos rfl] at hgrants
      have hput : v'.length = v.length + 1 := hput hisPut
      rcases hgrants with ⟨hsame, _, hallocations⟩ | ⟨hlt, hcapacity, _, hallocations⟩
      · exact .stayed hsame hallocations (Nat.le_of_eq hput)
      · refine .outgrew (by omega) rfl hput ?_ hallocations
        rw [hcapacity, hput]
    | false =>
      rw [hisPut, if_neg Bool.false_ne_true] at hgrants
      have hother : v'.length ≤ v.length := hother (by simp [hisPut])
      rcases hgrants with ⟨hsame, _, hallocations⟩ | ⟨hlt, _⟩
      · exact .stayed hsame hallocations hother
      · exact absurd hlt (Nat.not_lt_zero _)
  | failed _ hrewritten hlength _ =>
    exact .stayed hrewritten.place.capacity_eq rfl (hlength ▸ Nat.le_add_right _ _)
  | denied _ =>
    rcases hgrants with ⟨hsame, _, hallocations⟩ | ⟨_, _, hlt, _⟩
    · exact .stayed hsame hallocations (Nat.le_add_right _ _)
    · exact absurd hlt (Nat.lt_irrefl _)

/-! ## Runs -/

/-- The capacities that the sequence outgrows along a run, in their order. -/
def outgrown : List (SequenceStep α ν) → (Sequence α × ν) × Host → List Nat
  | [], _ => []
  | step :: rest, s =>
    let s' := step.run.after s
    if s.1.1.capacity < s'.1.1.capacity then s.1.1.capacity :: outgrown rest s' else outgrown rest s'

/-- The length right after the last step of a run that made the sequence grow, or `length` if none
did. -/
def lastGrowth (length : Nat) : List (SequenceStep α ν) → (Sequence α × ν) × Host → Nat
  | [], _ => length
  | step :: rest, s =>
    let s' := step.run.after s
    lastGrowth (if s.1.1.capacity < s'.1.1.capacity then s'.1.1.length else length) rest s'

/-- The greatest length along a run, at its start and after each step. -/
def peak : List (SequenceStep α ν) → (Sequence α × ν) × Host → Nat
  | [], s => s.1.1.length
  | step :: rest, s => max s.1.1.length (peak rest (step.run.after s))

theorem length_le_peak (steps : List (SequenceStep α ν)) (s : (Sequence α × ν) × Host) :
    s.1.1.length ≤ peak steps s := by
  cases steps with
  | nil => exact Nat.le_refl _
  | cons _ _ => exact Nat.le_max_left _ _

theorem lastGrowth_le (length : Nat) (steps : List (SequenceStep α ν))
    (s : (Sequence α × ν) × Host) : lastGrowth length steps s ≤ max length (peak steps s) := by
  induction steps generalizing length s with
  | nil => exact Nat.le_max_left _ _
  | cons step rest ih =>
    have hnext := length_le_peak rest (step.run.after s)
    simp only [lastGrowth, peak]
    by_cases hgrows : s.1.1.capacity < (step.run.after s).1.1.capacity
    · have hih := ih (step.run.after s).1.1.length (step.run.after s)
      rw [if_pos hgrows]
      omega
    · have hih := ih length (step.run.after s)
      rw [if_neg hgrows]
      omega

/-- A run of single steps that starts with the capacity after `k` growths, the last of them to
`length` elements, and makes the sequence grow `m` times more. -/
structure Growths (steps : List (SequenceStep α ν)) (s : (Sequence α × ν) × Host)
    (length k m : Nat) : Prop where
  outgrown_eq : outgrown steps s = (List.range' k m).map Sequence.growthCapacity
  capacity_eq : (Prog.session run steps s).2.1.1.capacity = Sequence.growthCapacity (k + m)
  allocations_eq : (Prog.session run steps s).2.2.heap.allocations = s.2.heap.allocations + m
  /-- The last growth is paid for by the elements that were put in before it. -/
  paid : 0 < m → Sequence.growthCapacity (k + m - 1) < s.1.1.length + puts steps
  last_eq : (Prog.session run steps s).2.1.1.capacity = (3 * lastGrowth length steps s) ⌈/⌉ 2

variable [LawfulElement α]

/-- **Every run of single steps** goes through the capacities one after the other. -/
theorem session_growths (steps : List (SequenceStep α ν)) (single : ∀ step ∈ steps, step.Single)
    {v : Sequence α} {host : Host} {length k : Nat} (h : v.Sound)
    (bounds : host.heap.placement.InBounds) (hcapacity : v.capacity = Sequence.growthCapacity k)
    (hlast : v.capacity = (3 * length) ⌈/⌉ 2) (n : ν) :
    ∃ m, Growths steps ((v, n), host) length k m := by
  induction steps generalizing v n host length k with
  | nil => exact ⟨0, rfl, hcapacity, rfl, fun hpos => absurd hpos (Nat.lt_irrefl 0), hlast⟩
  | cons step rest ih =>
    have houtcome := run_outcome step h n host bounds
    have hpace := houtcome.pace (single step List.mem_cons_self) h
    have hsound := houtcome.sound h
    have hbounds := houtcome.placement_eq ▸ bounds
    have hrest : ∀ step ∈ rest, step.Single := fun s hs => single s (List.mem_cons_of_mem _ hs)
    generalize hafter : step.run.after ((v, n), host) = s' at hpace hsound hbounds
    obtain ⟨⟨v', n'⟩, host'⟩ := s'
    cases hpace with
    | stayed hsame hallocations hlength =>
      have hsame : v'.capacity = v.capacity := hsame
      have hlength : v'.length ≤ v.length + if step.isPut then 1 else 0 := hlength
      have hkept : ¬ v.capacity < v'.capacity := by omega
      obtain ⟨m, hm⟩ := ih hrest hsound hbounds (hsame.trans hcapacity) (hsame.trans hlast) n'
      refine ⟨m, ?_, ?_, ?_, fun hpos => ?_, ?_⟩
      · simp only [outgrown, hafter, if_neg hkept, hm.outgrown_eq]
      · simp only [Prog.session_cons, hafter, hm.capacity_eq]
      · simp only [Prog.session_cons, hafter, hm.allocations_eq]
        rw [hallocations]
      · have hpaid := hm.paid hpos
        rw [puts_cons]
        simp only at hpaid ⊢
        omega
      · simp only [Prog.session_cons, lastGrowth, hafter, if_neg hkept, hm.last_eq]
    | outgrew hfull hput hlength hgrown hallocations =>
      have hfull : v.length = v.capacity := hfull
      have hlength : v'.length = v.length + 1 := hlength
      have hgrown : v'.capacity = (3 * v'.length) ⌈/⌉ 2 := hgrown
      have hnext : v'.capacity = Sequence.growthCapacity (k + 1) := by
        rw [hgrown, hlength, hfull, hcapacity]
        rfl
      have hlt : v.capacity < v'.capacity := by
        rw [hgrown, ceil_half]
        omega
      obtain ⟨m, hm⟩ := ih hrest hsound hbounds hnext hgrown n'
      refine ⟨m + 1, ?_, ?_, ?_, fun _ => ?_, ?_⟩
      · simp only [outgrown, hafter, if_pos hlt, hm.outgrown_eq]
        rw [hcapacity, List.range'_succ, List.map_cons]
      · simp only [Prog.session_cons, hafter, hm.capacity_eq, Nat.add_assoc, Nat.add_comm 1 m]
      · simp only [Prog.session_cons, hafter, hm.allocations_eq]
        rw [hallocations, Nat.add_assoc, Nat.add_comm 1 m]
      · rw [puts_cons, if_pos hput]
        simp only
        rcases Nat.eq_zero_or_pos m with rfl | hpos
        · rw [show k + (0 + 1) - 1 = k from rfl, ← hcapacity]
          omega
        · have hpaid := hm.paid hpos
          rw [show k + (m + 1) - 1 = k + 1 + m - 1 by omega]
          simp only at hpaid
          omega
      · simp only [Prog.session_cons, lastGrowth, hafter, if_pos hlt, hm.last_eq]

end SequenceStep

namespace Sequence

variable {α ν : Type} [Element α] [LawfulElement α] {v : Sequence α} {host : Host}

/-- **Sequences grow geometrically**: in every run of steps that put in or take away one element at a
time, on a new sequence.  The heap may refuse some of the growths.

* The heap has granted one block for each growth, and the capacity and all those before it are the
  numbers `growthCapacity`.
* There are few growths, and the slots that were carried over in all of them are less than three times
  as many as the elements that were put in.
* The capacity is half as large again as the length was right after the last growth, rounded up, and so
  not larger than the greatest length calls for. -/
theorem geometric_growth (hempty : Sequence.empty α = .ok v)
    (bounds : host.heap.placement.InBounds) (n : ν) (steps : List (SequenceStep α ν))
    (single : ∀ step ∈ steps, step.Single) {s : (Sequence α × ν) × Host}
    (hsession : (Prog.session SequenceStep.run steps ((v, n), host)).2 = s) :
    ∃ m, s.2.heap.allocations = host.heap.allocations + m ∧ s.1.1.capacity = growthCapacity m ∧
      SequenceStep.outgrown steps ((v, n), host) = (List.range m).map growthCapacity ∧
      (0 < SequenceStep.puts steps →
        3 ^ m ≤ 2 ^ (m - 1) * (SequenceStep.puts steps + 2) ∧
        (SequenceStep.outgrown steps ((v, n), host)).sum < 3 * SequenceStep.puts steps) ∧
      s.1.1.capacity = (3 * SequenceStep.lastGrowth 0 steps ((v, n), host)) ⌈/⌉ 2 ∧
      s.1.1.capacity ≤ (3 * SequenceStep.peak steps ((v, n), host)) ⌈/⌉ 2 := by
  obtain ⟨hsound, hnil⟩ := sound_of_empty hempty
  have hlength : v.length = 0 := by
    rw [← length_toList, hnil]
    rfl
  have hcapacity : v.capacity = growthCapacity 0 := by
    have hnone := hsound.ready.isSome_base_iff
    show v.slots.capacity = 0
    simpa [base_of_empty hempty] using hnone
  have hlast : v.capacity = (3 * 0) ⌈/⌉ 2 := hcapacity
  obtain ⟨m, hm⟩ := SequenceStep.session_growths steps single hsound bounds hcapacity hlast n
  have hcapacity' := hm.capacity_eq
  have houtgrown := hm.outgrown_eq
  have hlast := hm.last_eq
  rw [Nat.zero_add] at hcapacity'
  rw [← List.range_eq_range'] at houtgrown
  rw [hsession] at hcapacity' hlast
  refine ⟨m, ?_, hcapacity', houtgrown, fun hputs => ?_, hlast, ?_⟩
  · rw [← hsession]
    exact hm.allocations_eq
  · rw [houtgrown]
    refine geometric_bounds hputs fun hpos => ?_
    simpa [hlength] using hm.paid hpos
  · have hle := SequenceStep.lastGrowth_le 0 steps ((v, n), host)
    rw [hlast, ceil_half, ceil_half]
    omega

/-- Seven elements are put in and one is taken away: the sequence grows at the first, the third and the
last one, and carries over seven slots. -/
theorem geometric_growth_seven :
    ∃ (v : Sequence (FixedInt ⟨32, true⟩)) (s : (Sequence (FixedInt ⟨32, true⟩) × Unit) × Host),
      let steps : List (SequenceStep (FixedInt ⟨32, true⟩) Unit) :=
        List.replicate 5 (.push (.ofInt _ 1)) ++ [.erase 1, .insert 9 (.ofInt _ 2), .push (.ofInt _ 3)]
      Sequence.empty (FixedInt ⟨32, true⟩) = .ok v ∧ Host.ordinary.heap.placement.InBounds ∧
      (∀ step ∈ steps, step.Single) ∧
      (Prog.session SequenceStep.run steps ((v, ()), Host.ordinary)).2 = s ∧
      s.1.1.capacity = 9 ∧ s.2.heap.allocations = Host.ordinary.heap.allocations + 3 ∧
      SequenceStep.outgrown steps ((v, ()), Host.ordinary) = [0, 2, 5] ∧
      3 ^ 3 ≤ 2 ^ 2 * (SequenceStep.puts steps + 2) ∧
      s.1.1.capacity = (3 * SequenceStep.lastGrowth 0 steps ((v, ()), Host.ordinary)) ⌈/⌉ 2 := by
  let steps : List (SequenceStep (FixedInt ⟨32, true⟩) Unit) :=
    List.replicate 5 (.push (.ofInt _ 1)) ++ [.erase 1, .insert 9 (.ofInt _ 2), .push (.ofInt _ 3)]
  have hempty : Sequence.empty (FixedInt ⟨32, true⟩) = .ok ⟨Slots.empty 4 8, 0⟩ := rfl
  have single : ∀ step ∈ steps, step.Single := by simp [steps, SequenceStep.Single]
  obtain ⟨s, hs, hcount⟩ : ∃ s, (Prog.session SequenceStep.run steps
      ((⟨Slots.empty 4 8, 0⟩, ()), Host.ordinary)).2 = s ∧
      s.2.heap.allocations = Host.ordinary.heap.allocations + 3 := ⟨_, rfl, by decide +kernel⟩
  obtain ⟨m, hallocations, hcapacity, houtgrown, hbounds, hlast, _⟩ :=
    geometric_growth hempty Host.ordinary_sound.inBounds () steps single hs
  obtain rfl : m = 3 := by omega
  exact ⟨_, s, hempty, Host.ordinary_sound.inBounds, single, hs, hcapacity, hallocations, houtgrown,
    (hbounds (by decide)).1, hlast⟩

end Sequence

end AlignedSlots
