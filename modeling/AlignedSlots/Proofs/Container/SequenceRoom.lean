import Mathlib
import AlignedSlots.Proofs.Container.ReserveOutcome
import AlignedSlots.Proofs.Container.SequenceSessions

/-!
# The room of a sequence

`Sequence.Footprint` is what one call does to the place of the slots and to the heap: nothing, one
refused growth, or one growth that is met.  From it follow what holds of every history, that the capacity
never shrinks and that the address changes in growths only.

Room that was made stays.  A run of steps that never wants more of it is `Within` it, and
`SequenceStep.Undisturbed` says that such a run does what it does to a list, in the same slots and without
the heap.
-/

namespace AlignedSlots

/-! ## What a step wants -/

namespace SequenceStep

variable {α ν : Type} {step : SequenceStep α ν} {s s' : List α × ν} {e : Failure ContainerError}

/-- A step that fails on a list wants no room. -/
theorem demand_eq_zero_of_error (h : step.onList s = .error e s') (length : Nat) :
    step.demand length = 0 := by
  cases step with
  | push _ => cases h
  | insert _ _ => cases h
  | reserve _ => cases h
  | extend _ => cases h
  | _ => rfl

/-- On a list there is no lack of room: a step answers so only where its visitor does. -/
theorem badAlloc_of_onList (h : step.onList s = .error (.error .badAlloc) s') :
    ∃ visitor, step = .eachInPlace visitor ∧ Walk.RaisesInPlace visitor (.error .badAlloc) := by
  cases step with
  | eachInPlace visitor =>
    unfold onList at h
    cases hwalk : Walk.visitList visitor 0 s.1 s.2 with
    | ok _ _ =>
      simp only [hwalk] at h
      cases h
    | error e' t =>
      simp only [hwalk] at h
      cases h
      exact ⟨visitor, rfl, Walk.raises_of_visitList hwalk⟩
  | push _ => cases h
  | insert _ _ => cases h
  | reserve _ => cases h
  | extend _ => cases h
  | _ => exact nomatch fails_of_onList h trivial

/-- Along a run on a list no step wants room for more than `room` elements. -/
def Within (room : Nat) : List (SequenceStep α ν) → List α × ν → Prop
  | [], _ => True
  | step :: rest, s => step.demand s.1.length ≤ room ∧ Within room rest (step.onList.after s)

instance instDecidableWithin (room : Nat) :
    (steps : List (SequenceStep α ν)) → (s : List α × ν) → Decidable (Within room steps s)
  | [], _ => .isTrue trivial
  | step :: rest, s =>
    haveI : Decidable (Within room rest (step.onList.after s)) :=
      instDecidableWithin room rest (step.onList.after s)
    inferInstanceAs (Decidable (_ ∧ _))

theorem Within.take {room : Nat} {steps : List (SequenceStep α ν)} (h : Within room steps s)
    (k : Nat) : Within room (steps.take k) s := by
  induction steps generalizing s k with
  | nil => simpa using h
  | cons step rest ih =>
    cases k with
    | zero => trivial
    | succ k => exact ⟨h.1, ih h.2 k⟩

end SequenceStep

/-- How many elements a call wants room for. -/
def SequenceCall.demand {α ν : Type} (length : Nat) : SequenceCall α ν → Nat
  | step s => s.demand length
  | rearrange _ => 0
  | each _ => 0
  | eachReverse _ => 0
  | search _ => 0

/-! ## One call -/

theorem Slots.Denied.unmoved {s : Slots} {requested : Nat} {heap heap' : Heap} {e : Failure Refusal}
    (h : s.Denied requested heap heap' e) : heap.Unmoved heap' := by
  cases h with
  | refused _ hrefuses => exact hrefuses.unmoved
  | oversized _ _ => exact .inl rfl
  | misaligned _ _ => exact .inl rfl

namespace Sequence

variable {α ν : Type}

/-- What one call does to the place of the slots and to the heap, if it wants room for `demand`
elements. -/
inductive Footprint (demand : Nat) (v : Sequence α) (heap : Heap) (v' : Sequence α) (heap' : Heap) :
    Prop
  /-- There is room: the slots stay where they are, and the heap is not asked. -/
  | kept : demand ≤ v.capacity → Slots.SamePlace v.slots v'.slots → heap' = heap →
      Footprint demand v heap v' heap'
  /-- There is no room, and none is made. -/
  | denied : v.capacity < demand → v' = v → heap.Unmoved heap' → Footprint demand v heap v' heap'
  /-- The heap is asked once, for half as many slots again as are wanted, and takes the old block back
  after it has granted the new one. -/
  | grown (base : Nat) : v.capacity < demand → v'.capacity = (3 * demand) ⌈/⌉ 2 →
      v'.slots.base = some base →
      heap' = heap.after (v.slots.base.toList.map HeapEvent.freed ++
        [.granted (v.slots.growthSize demand) base]) →
      Footprint demand v heap v' heap'

section Footprint

variable {demand : Nat} {v v₁ v' : Sequence α} {heap heap' : Heap}

theorem Grown.footprint (hgrown : v.Grown demand heap v₁ heap')
    (hplace : Slots.SamePlace v₁.slots v'.slots) : Footprint demand v heap v' heap' := by
  by_cases hroom : demand ≤ v.slots.capacity
  · obtain ⟨rfl, hheap⟩ := hgrown.eq_self hroom
    exact .kept hroom hplace hheap
  · have hreserved := hgrown.reserved
    generalize hslots : v₁.slots = slots at hreserved hplace
    cases hreserved with
    | enough hle => exact absurd hle hroom
    | grown base new hlt _ hgrant =>
      refine .grown base hlt ?_ ?_ ?_
      · show v'.slots.capacity = _
        rw [hplace.capacity_eq, Slots.capacity_regrown, Slots.grown_eq_ceilDiv]
      · rw [hplace.base_eq, Slots.base_regrown, Slots.base_of_grants hgrant]
      · rw [Slots.totalSize_grown, Slots.releaseEvents_eq]

/-- **No call** makes the capacity smaller. -/
theorem Footprint.capacity_le (h : Footprint demand v heap v' heap') : v.capacity ≤ v'.capacity := by
  cases h with
  | kept _ hplace _ => exact Nat.le_of_eq hplace.capacity_eq.symm
  | denied _ hsame _ => rw [hsame]
  | grown _ hlt hcapacity _ _ =>
    rw [hcapacity, ← Slots.grown_eq_ceilDiv]
    exact Nat.le_trans (Nat.le_of_lt hlt) (Slots.le_grown demand)

/-- A block is granted exactly where the capacity gets greater, and then it is one. -/
theorem Footprint.grants (h : Footprint demand v heap v' heap') :
    (v'.capacity = v.capacity ∧ v'.address = v.address ∧ heap'.allocations = heap.allocations) ∨
      v.capacity < demand ∧ v'.capacity = (3 * demand) ⌈/⌉ 2 ∧ v.capacity < v'.capacity ∧
        heap'.allocations = heap.allocations + 1 := by
  cases h with
  | kept _ hplace hheap =>
    exact .inl ⟨hplace.capacity_eq, hplace.address_eq, congrArg Heap.allocations hheap⟩
  | denied _ hsame hunmoved =>
    refine .inl ⟨congrArg capacity hsame, congrArg address hsame, ?_⟩
    obtain rfl | ⟨size, rfl⟩ := hunmoved
    · rfl
    · exact List.countP_cons_of_neg Bool.false_ne_true
  | grown base hlt hcapacity _ hheap =>
    refine .inr ⟨hlt, hcapacity, ?_, ?_⟩
    · rw [hcapacity, ← Slots.grown_eq_ceilDiv]
      exact Nat.lt_of_lt_of_le hlt (Slots.le_grown demand)
    · rw [hheap]
      cases v.slots.base <;> simp [Heap.allocations, List.countP_cons, HeapEvent.isGrant]

variable [Element α]

/-- A step that has ended. -/
theorem footprint_of_outcome {step : SequenceStep α ν} {n n' : ν}
    {answer : Except (Failure ContainerError) (SequenceAnswer α)}
    (h : SequenceStep.Outcome step v n heap answer (v', n') heap') :
    Footprint (step.demand v.length) v heap v' heap' := by
  cases h with
  | answered _ hgrown hrewritten => exact hgrown.footprint hrewritten.place
  | failed hlist hrewritten _ _ =>
    refine .kept ?_ hrewritten.place rfl
    rw [SequenceStep.demand_eq_zero_of_error hlist]
    exact Nat.zero_le _
  | denied hdenied =>
    obtain ⟨hlt, _, _, hslots⟩ := hdenied
    exact .denied hlt rfl hslots.unmoved

variable [LawfulElement α]

/-- **Every call** leaves the footprint of one growth at most. -/
theorem call_footprint (c : SequenceCall α ν) (h : v.Sound) (n : ν) (host : Host)
    (bounds : host.heap.placement.InBounds) :
    Footprint (c.demand v.length) v host.heap (c.run.after ((v, n), host)).1.1
      (c.run.after ((v, n), host)).2.heap := by
  -- A call that is no step wants no room and asks the heap for nothing.
  have hself : Footprint 0 v host.heap v host.heap := .kept (Nat.zero_le _) (.refl _) rfl
  cases c with
  | step step =>
    simp only [SequenceCall.run, Prog.after_map]
    exact footprint_of_outcome (step.run_outcome h n host bounds)
  | rearrange f =>
    simp only [SequenceCall.run, Hosted.after_onObject]
    obtain ⟨_, ⟨v', host'⟩, hrun, _, hplace, hheap⟩ :=
      (rearrange_ends (ε := ContainerError) h f host).exists_ok
    rw [Prog.after_of_ok hrun]
    exact .kept (Nat.zero_le _) hplace (congrArg Host.heap hheap)
  | each visitor => simpa [SequenceCall.run, SequenceCall.demand] using hself
  | eachReverse visitor => simpa [SequenceCall.run, SequenceCall.demand] using hself
  | search property => simpa [SequenceCall.run, SequenceCall.demand] using hself

end Footprint

end Sequence

/-! ## Runs within the room -/

namespace SequenceStep

variable {α ν : Type}

/-- A run on a list answers that there is no room only where a visitor does. -/
theorem badAlloc_of_session {steps : List (SequenceStep α ν)} {s : List α × ν}
    {step : SequenceStep α ν}
    (h : (step, Except.error (.error .badAlloc)) ∈ (Prog.session onList steps s).1) :
    ∃ visitor, step = .eachInPlace visitor ∧ Walk.RaisesInPlace visitor (.error .badAlloc) := by
  induction steps generalizing s with
  | nil => exact (List.not_mem_nil h).elim
  | cons first rest ih =>
    rw [Prog.session_cons, List.mem_cons] at h
    rcases h with hfirst | hrest
    · obtain ⟨rfl, hanswer⟩ := Prod.mk.inj hfirst
      cases hrun : step.onList s with
      | ok a t =>
        rw [Prog.answer_of_ok hrun] at hanswer
        cases hanswer
      | error e t =>
        rw [Prog.answer_of_error hrun] at hanswer
        cases hanswer
        exact badAlloc_of_onList hrun
    · exact ih hrest

variable [Element α] {v : Sequence α} {n : ν} {host : Host} {room : Nat}

/-- A run that does what it does to a list, in the slots where it started and without the heap. -/
structure Undisturbed (steps : List (SequenceStep α ν)) (s : (Sequence α × ν) × Host) : Prop where
  answers_eq : (Prog.session run steps s).1 = (Prog.session onList steps (s.1.1.toList, s.1.2)).1
  list_eq : (Prog.session run steps s).2.1.1.toList =
    (Prog.session onList steps (s.1.1.toList, s.1.2)).2.1
  visitors_eq : (Prog.session run steps s).2.1.2 =
    (Prog.session onList steps (s.1.1.toList, s.1.2)).2.2
  /-- The heap is not asked for anything. -/
  heap_eq : (Prog.session run steps s).2.2.heap = s.2.heap
  capacity_eq : (Prog.session run steps s).2.1.1.capacity = s.1.1.capacity
  address_eq : (Prog.session run steps s).2.1.1.address = s.1.1.address

variable [LawfulElement α]

/-- A step that finds its room. -/
theorem run_of_room (step : SequenceStep α ν) (h : v.Sound) (n : ν) (host : Host)
    (bounds : host.heap.placement.InBounds) (hroom : step.demand v.length ≤ v.capacity) :
    step.run.answer ((v, n), host) = step.onList.answer (v.toList, n) ∧
      Sequence.Rewritten v (step.run.after ((v, n), host)).1.1 (step.onList.after (v.toList, n)).1 ∧
      (step.run.after ((v, n), host)).1.2 = (step.onList.after (v.toList, n)).2 ∧
      (step.run.after ((v, n), host)).2.heap = host.heap := by
  have houtcome := run_outcome step h n host bounds
  generalize step.run.answer ((v, n), host) = answer,
    step.run.after ((v, n), host) = s' at houtcome ⊢
  obtain ⟨⟨v', n'⟩, ⟨heap', log⟩⟩ := s'
  cases houtcome with
  | answered hlist hgrown hrewritten =>
    obtain ⟨rfl, hheap⟩ := hgrown.eq_self hroom
    rw [Prog.answer_of_ok hlist, Prog.after_of_ok hlist]
    exact ⟨rfl, hrewritten, rfl, hheap⟩
  | failed hlist hrewritten _ _ =>
    rw [Prog.answer_of_error hlist, Prog.after_of_error hlist]
    exact ⟨rfl, hrewritten, rfl, rfl⟩
  | denied hdenied => exact absurd hroom (Nat.not_le.mpr hdenied.1)

/-- **A run within its room** is undisturbed, whatever the heap would answer. -/
theorem undisturbed_of_within (steps : List (SequenceStep α ν)) (h : v.Sound)
    (bounds : host.heap.placement.InBounds) (hroom : room ≤ v.capacity)
    (hwithin : Within room steps (v.toList, n)) : Undisturbed steps ((v, n), host) := by
  induction steps generalizing v n host with
  | nil => exact ⟨rfl, rfl, rfl, rfl, rfl, rfl⟩
  | cons step rest ih =>
    obtain ⟨hdemand, hrest⟩ := hwithin
    rw [Sequence.length_toList] at hdemand
    obtain ⟨hanswer, hrewritten, hvisitors, hheap⟩ :=
      run_of_room step h n host bounds (Nat.le_trans hdemand hroom)
    generalize hafter : step.run.after ((v, n), host) = s' at hrewritten hvisitors hheap
    obtain ⟨⟨v', n'⟩, host'⟩ := s'
    have hcapacity : v'.capacity = v.capacity := hrewritten.place.capacity_eq
    have hnext : (v'.toList, n') = step.onList.after (v.toList, n) :=
      Prod.ext hrewritten.toList_eq hvisitors
    rw [← hnext] at hrest
    have hih : Undisturbed rest ((v', n'), host') := by
      refine ih hrewritten.sound ?_ ?_ hrest
      · rw [show host'.heap = host.heap from hheap]
        exact bounds
      · rw [hcapacity]
        exact hroom
    constructor
    · simp only [Prog.session_cons, hafter, hanswer, ← hnext, hih.answers_eq]
    · simp only [Prog.session_cons, hafter, ← hnext, hih.list_eq]
    · simp only [Prog.session_cons, hafter, ← hnext, hih.visitors_eq]
    · simp only [Prog.session_cons, hafter, hih.heap_eq]
      exact hheap
    · simp only [Prog.session_cons, hafter, hih.capacity_eq]
      exact hcapacity
    · simp only [Prog.session_cons, hafter, hih.address_eq]
      exact hrewritten.place.address_eq

/-- A call for room that is met leaves a sound sequence with that room. -/
theorem room_of_reserve {capacity : UInt64} {a : SequenceAnswer α} {s : (Sequence α × ν) × Host}
    (h : v.Sound) (bounds : host.heap.placement.InBounds)
    (hrun : (SequenceStep.reserve capacity).run ((v, n), host) = .ok a s) :
    s.1.1.Sound ∧ capacity.toNat ≤ s.1.1.capacity := by
  have houtcome := Prog.Ends.of_run_ok (run_performs (.reserve capacity) h n host bounds) hrun
  obtain ⟨⟨v', n'⟩, host'⟩ := s
  generalize host'.heap = heap' at houtcome
  cases houtcome with
  | answered _ hgrown hrewritten =>
    refine ⟨hrewritten.sound, ?_⟩
    show _ ≤ v'.slots.capacity
    rw [hrewritten.place.capacity_eq]
    exact hgrown.reserved.requested_le

end SequenceStep

namespace Sequence

variable {α ν : Type} [Element α] [LawfulElement α] {v : Sequence α} {host : Host}

/-- A run of calls makes the capacity no smaller. -/
theorem capacity_le_session (calls : List (SequenceCall α ν)) (h : v.Sound) (n : ν)
    (bounds : host.heap.placement.InBounds) :
    v.capacity ≤ (Prog.session SequenceCall.run calls ((v, n), host)).2.1.1.capacity := by
  induction calls generalizing v n host with
  | nil => exact Nat.le_refl _
  | cons c rest ih =>
    obtain ⟨hsound, hturn⟩ := (tended α ν).run_after c h n bounds
    have hnext := (call_footprint c h n host bounds).capacity_le
    exact Nat.le_trans hnext (ih hsound _ (hturn.placement_eq ▸ bounds))

/-- **Room that was made stays**, in every sequence that a run of calls has led to.

* After a call for room has been met, every run of steps that never wants more room than that does what
  it does to a list, in the same slots and without the heap, at its end and after each of its steps.
  This is so with any heap from then on.  A lack of room is answered only by a visitor of its own accord.
* The capacity never gets smaller, and the next call, whichever it is, leaves the address as it is unless
  it makes the capacity greater.
* Elements that are put at the end together make the sequence grow once at most. -/
theorem reserved_room_stays (hempty : Sequence.empty α = .ok v)
    (bounds : host.heap.placement.InBounds) (n : ν) (calls : List (SequenceCall α ν))
    {s : (Sequence α × ν) × Host}
    (hsession : (Prog.session SequenceCall.run calls ((v, n), host)).2 = s) :
    (∀ (room : UInt64) (s₁ : (Sequence α × ν) × Host),
      (SequenceStep.reserve room).run s = .ok .done s₁ →
      ∀ (later : Host), later.heap.placement.InBounds → ∀ (steps : List (SequenceStep α ν)),
        SequenceStep.Within room.toNat steps (s₁.1.1.toList, s₁.1.2) →
        (∀ k, SequenceStep.Undisturbed (steps.take k) (s₁.1, later)) ∧
        ∀ step, (step, .error (.error .badAlloc)) ∈
            (Prog.session SequenceStep.run steps (s₁.1, later)).1 →
          ∃ visitor, step = .eachInPlace visitor ∧
            Walk.RaisesInPlace visitor (.error .badAlloc)) ∧
    (∀ more : List (SequenceCall α ν),
      s.1.1.capacity ≤ (Prog.session SequenceCall.run more s).2.1.1.capacity) ∧
    (∀ c : SequenceCall α ν, (c.run.after s).1.1.address ≠ s.1.1.address →
      s.1.1.capacity < (c.run.after s).1.1.capacity) ∧
    ∀ xs : List α, Footprint (s.1.1.length + xs.length) s.1.1 s.2.heap
      ((SequenceStep.extend xs).run.after s).1.1 ((SequenceStep.extend xs).run.after s).2.heap := by
  obtain ⟨hsound, hbounds⟩ := session_sound hempty bounds n calls
  rw [hsession] at hsound hbounds
  obtain ⟨⟨v', n'⟩, host'⟩ := s
  refine ⟨?_, fun more => capacity_le_session more hsound n' hbounds, fun c hmoved => ?_,
    fun xs => footprint_of_outcome (SequenceStep.run_outcome (.extend xs) hsound n' host' hbounds)⟩
  · intro room s₁ hreserve later hlater steps hwithin
    obtain ⟨hsound₁, hroom⟩ := SequenceStep.room_of_reserve hsound hbounds hreserve
    have hall : ∀ k, SequenceStep.Undisturbed (steps.take k) (s₁.1, later) := fun k =>
      SequenceStep.undisturbed_of_within (steps.take k) hsound₁ hlater hroom (hwithin.take k)
    refine ⟨hall, fun step hmem => ?_⟩
    have hwhole := hall steps.length
    rw [List.take_length] at hwhole
    rw [hwhole.answers_eq] at hmem
    exact SequenceStep.badAlloc_of_session hmem
  · rcases (call_footprint c hsound n' host' hbounds).grants with ⟨_, hsame, _⟩ | ⟨_, _, hlt, _⟩
    · exact absurd hsame hmoved
    · exact hlt

/-- Room for nine elements is enough for eight at once, and again for nine after a few were taken away,
on a heap that refuses everything. -/
theorem reserved_room_stays_nine :
    ∃ (v : Sequence (FixedInt ⟨32, true⟩)) (s s₁ : (Sequence (FixedInt ⟨32, true⟩) × Unit) × Host),
      let later : Host := ⟨Heap.ofPlacement (fun _ _ => none) 0, s₁.2.log⟩
      let steps : List (SequenceStep (FixedInt ⟨32, true⟩) Unit) :=
        [.extend (List.replicate 8 (.ofInt _ 2)), .erase 0, .pop, .insert 3 (.ofInt _ 7),
          .reserve 9, .push (.ofInt _ 1)]
      Sequence.empty (FixedInt ⟨32, true⟩) = .ok v ∧ Host.ordinary.heap.placement.InBounds ∧
      (Prog.session SequenceCall.run [.step (.push (.ofInt _ 1))] ((v, ()), Host.ordinary)).2 = s ∧
      (SequenceStep.reserve 9).run s = .ok .done s₁ ∧ later.heap.placement.InBounds ∧
      SequenceStep.Within 9 steps (s₁.1.1.toList, s₁.1.2) ∧ s₁.1.1.capacity = 14 ∧
      SequenceStep.Undisturbed steps (s₁.1, later) := by
  have hempty : Sequence.empty (FixedInt ⟨32, true⟩) = .ok ⟨Slots.empty 4 8, 0⟩ := rfl
  obtain ⟨s, hs⟩ : ∃ s, (Prog.session SequenceCall.run [.step (.push (.ofInt _ 1))]
      (((⟨Slots.empty 4 8, 0⟩ : Sequence (FixedInt ⟨32, true⟩)), ()), Host.ordinary)).2 = s :=
    ⟨_, rfl⟩
  let steps : List (SequenceStep (FixedInt ⟨32, true⟩) Unit) :=
    [.extend (List.replicate 8 (.ofInt _ 2)), .erase 0, .pop, .insert 3 (.ofInt _ 7),
      .reserve 9, .push (.ofInt _ 1)]
  obtain ⟨s₁, hs₁, hlist, hcapacity⟩ : ∃ s₁, (SequenceStep.reserve 9).run s = .ok .done s₁ ∧
      s₁.1.1.toList = [.ofInt _ 1] ∧ s₁.1.1.capacity = 14 := by
    rw [← hs]
    exact ⟨_, rfl, by decide +kernel, by decide +kernel⟩
  let later : Host := ⟨Heap.ofPlacement (fun _ _ => none) 0, s₁.2.log⟩
  have hlater : later.heap.placement.InBounds := nofun
  have hwithin : SequenceStep.Within 9 steps (s₁.1.1.toList, s₁.1.2) := by
    rw [hlist]
    show SequenceStep.Within 9 steps ([.ofInt _ 1], ())
    decide +kernel
  obtain ⟨hroom, _⟩ := reserved_room_stays hempty Host.ordinary_sound.inBounds () _ hs
  have hundisturbed := (hroom 9 s₁ hs₁ later hlater steps hwithin).1 steps.length
  rw [List.take_length] at hundisturbed
  exact ⟨_, s, s₁, hempty, Host.ordinary_sound.inBounds, hs, hs₁, hlater, hwithin, hcapacity,
    hundisturbed⟩

end Sequence

end AlignedSlots
