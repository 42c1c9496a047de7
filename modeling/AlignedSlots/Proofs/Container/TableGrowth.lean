import Mathlib
import AlignedSlots.Proofs.Container.TableRefusals

/-!
# How tables grow

A table asks the heap for a block only to double its slots, and doubles them only for a step that stores
something where half of them are taken.  `ProbeTable.Footprint` says so for one call, with the calls to
the heap, and `ProbeTable.session_growth` draws the conclusions for whole runs: the doublings can be
counted in the history of the heap, and the capacity is bounded by the greatest length so far, however
many entries were overwritten or erased on the way.

Nothing is asked of the keying: sameness may be any function, and keys may have the hash 0.
-/

namespace AlignedSlots

/-- A call that stores something. -/
def TableCall.Stores {κ ν σ : Type} : TableCall κ ν σ → Prop
  | step s => s.Stores
  | _ => False

namespace ProbeTable

open Row

variable {κ ν σ : Type} [Element κ] [Element ν] {t t' t₁ : ProbeTable κ ν} {host host' : Host}
  {keying : Keying κ} {stores : Prop}

/-- The raw block that a growth asks for: twice as many slots as there are, and the header. -/
def growthSize (t : ProbeTable κ ν) : Nat :=
  2 * t.capacity * Element.size (Entry κ ν) + blockAlign κ ν + 1

theorem totalSize_bytesOf (t : ProbeTable κ ν) :
    Parcel.totalSize (blockAlign κ ν) (bytesOf κ ν (t.capacity * 2)) = t.growthSize := by
  unfold Parcel.totalSize bytesOf growthSize
  rw [Nat.mul_comm t.capacity 2, Nat.add_assoc]

/-- What one call does to the heap and to the capacity.  `stores` says that it stores something. -/
inductive Footprint (stores : Prop) (t : ProbeTable κ ν) (heap : Heap) (t' : ProbeTable κ ν)
    (heap' : Heap) : Prop
  /-- A call that stores nothing, or finds less than half of the slots taken, asks the heap for
  nothing. -/
  | quiet : ¬ (stores ∧ t.capacity / 2 ≤ t.length) → t'.capacity = t.capacity →
      t'.slots.base = t.slots.base → heap' = heap → Footprint stores t heap t' heap'
  /-- Twice as many slots take more bytes than a word can count: the heap is not asked. -/
  | unasked : stores → t.capacity / 2 ≤ t.length → Word.greatest < t.growthSize → t' = t →
      heap' = heap → Footprint stores t heap t' heap'
  /-- The heap is asked once, and refuses. -/
  | refused : stores → t.capacity / 2 ≤ t.length → t.growthSize ≤ Word.greatest →
      heap.placement heap.history t.growthSize = none → t' = t →
      heap' = heap.after [.refused t.growthSize] → Footprint stores t heap t' heap'
  /-- The heap is asked once, and takes the old block back after it has granted the new one. -/
  | doubled (old new : Nat) : stores → t.capacity / 2 ≤ t.length → t.growthSize ≤ Word.greatest →
      heap.placement heap.history t.growthSize ≠ none → t'.capacity = 2 * t.capacity →
      t.slots.base = some old → t'.slots.base = some new →
      heap' = heap.after [.freed old, .granted t.growthSize new] → Footprint stores t heap t' heap'

/-- The greatest length that a table has along a run of calls, at its start and after each call. -/
def peak : List (TableCall κ ν σ) → (ProbeTable κ ν × σ) × Host → Nat
  | [], s => s.1.1.length
  | c :: rest, s => max s.1.1.length (peak rest (c.run.after s))

/-! ## One call -/

/-- Room that was made is room that the heap had. -/
theorem MadeRoom.footprint (hroom : MadeRoom t host t₁ host') (hstores : stores)
    (hcapacity : t'.capacity = t₁.capacity) (hbase : t'.slots.base = t₁.slots.base)
    (hgiven : t.capacity / 2 ≤ t.length → ¬ Unavailable κ ν host.heap (t.capacity * 2)) :
    Footprint stores t host.heap t' host'.heap := by
  rcases hroom with ⟨hhalf, rfl, hheap⟩ | ⟨hhalf, hdoubled, old, new, hold, hnew, hheap⟩
  · exact .quiet (fun h => of_decide_eq_false hhalf h.2) hcapacity hbase hheap
  · have hhalf : t.capacity / 2 ≤ t.length := of_decide_eq_true hhalf
    have hgiven := hgiven hhalf
    unfold Unavailable at hgiven
    rw [totalSize_bytesOf] at hheap hgiven
    refine .doubled old new hstores hhalf (Nat.not_lt.mp fun hlarge => hgiven (.inl hlarge))
      (fun hnone => hgiven (.inr hnone)) ?_ hold (hbase.trans hnew) hheap
    rw [hcapacity, hdoubled.capacity_eq, Nat.mul_comm]

section Call

variable [LawfulElement κ] [LawfulElement ν]

theorem GrowthRefused.footprint (hrefused : GrowthRefused t host host') (hstores : stores)
    (h : t.Sound) : Footprint stores t host.heap t host'.heap := by
  obtain ⟨hhalf, hrefuses⟩ := hrefused
  have hhalf : t.capacity / 2 ≤ t.length := of_decide_eq_true hhalf
  have hpos : 0 < bytesOf κ ν (t.capacity * 2) :=
    Nat.mul_pos (Nat.mul_pos h.fitted.capacity_pos (by decide)) (size_pos κ ν)
  rcases hrefuses with ⟨hzero | hlarge, hheap⟩ | ⟨_, hword, hnone, hheap⟩
  · omega
  · rw [totalSize_bytesOf] at hlarge
    exact .unasked hstores hhalf hlarge rfl hheap
  · rw [totalSize_bytesOf] at hword hnone hheap
    exact .refused hstores hhalf hword hnone rfl hheap

/-- **Every step** leaves the footprint of one growth at most, whatever the hash of its key is. -/
theorem step_footprint (step : TableStep κ ν) (h : t.Sound) (host : Host)
    (bounds : host.heap.placement.InBounds) :
    Footprint step.Stores t host.heap (step.run.after (t, host)).1
      (step.run.after (t, host)).2.heap := by
  -- A growth that is needed and not refused is given.
  have hgiven : step.Stores → step.run.answer (t, host) ≠ .error (.error .badAlloc) →
      t.capacity / 2 ≤ t.length → ¬ Unavailable κ ν host.heap (t.capacity * 2) :=
    fun hstores hanswer hhalf hnone =>
      hanswer ((answer_badAlloc_iff hstores h host bounds).mpr ⟨hhalf, hnone⟩)
  by_cases hkey : t.keying.hash step.key = 0
  · obtain ⟨_, _, heq, hstopped⟩ := (zero_stops step h hkey host bounds).exists_error
    rw [Prog.answer_of_error heq] at hgiven
    rw [Prog.after_of_error heq]
    cases hstopped with
    | storing hstores hroom => exact hroom.footprint hstores rfl rfl (hgiven hstores nofun)
    | refused hstores hrefused => exact hrefused.footprint hstores h
    | other hother => exact .quiet (fun hneeds => hother hneeds.1) rfl rfl rfl
  · rcases (step.run_ends h hkey host bounds).run_eq with
      ⟨_, ⟨t', host'⟩, heq, _, _, heffect⟩ | ⟨_, ⟨t', host'⟩, heq, _, hstores, rfl, hrefused⟩
    · rw [Prog.answer_of_ok heq] at hgiven
      rw [Prog.after_of_ok heq]
      generalize haction : step.action = action at heffect
      cases heffect with
      | stored hroom hstored =>
        have hstores : step.Stores := ⟨_, haction⟩
        exact hroom.footprint hstores hstored.capacity_eq hstored.base_eq (hgiven hstores nofun)
      | erased _ herased hheap =>
        have hother := TableStep.not_stores (.inl haction)
        exact .quiet (fun hneeds => hother hneeds.1) herased.capacity_eq herased.base_eq hheap
      | absent _ hheap =>
        have hother := TableStep.not_stores (.inl haction)
        exact .quiet (fun hneeds => hother hneeds.1) rfl rfl hheap
      | found _ =>
        have hother := TableStep.not_stores (.inr haction)
        exact .quiet (fun hneeds => hother hneeds.1) rfl rfl rfl
      | missing _ =>
        have hother := TableStep.not_stores (.inr haction)
        exact .quiet (fun hneeds => hother hneeds.1) rfl rfl rfl
    · rw [Prog.after_of_error heq]
      exact hrefused.footprint hstores h

/-- **Every call** leaves the footprint of one growth at most. -/
theorem call_footprint (c : TableCall κ ν σ) (h : t.Sound) (n : σ) (host : Host)
    (bounds : host.heap.placement.InBounds) :
    Footprint c.Stores t host.heap (c.run.after ((t, n), host)).1.1
      (c.run.after ((t, n), host)).2.heap := by
  cases c with
  | step step =>
    simp only [TableCall.run, Prog.after_map, Hosted.after_onObject]
    exact step_footprint step h host bounds
  | each visitor =>
    simp only [TableCall.run, Hosted.after_reading]
    exact .quiet And.left rfl rfl rfl
  | list =>
    simp only [TableCall.run, Prog.after_map, Hosted.after_asking]
    exact .quiet And.left rfl rfl rfl

end Call

/-! ## What a footprint leaves behind -/

/-- The table was doubled as often as the heap has granted a block since its first one, before which the
heap had granted `start` blocks. -/
def Paced (start : Nat) (t : ProbeTable κ ν) (heap : Heap) : Prop :=
  ∃ k, t.capacity = firstCapacity * 2 ^ k ∧ heap.allocations = start + 1 + k

variable {heap heap' : Heap} {start : Nat}

/-- Blocks are granted for doublings only. -/
theorem Footprint.grants (h : Footprint stores t heap t' heap') :
    t'.capacity = t.capacity ∧ heap'.allocations = heap.allocations ∨
      t'.capacity = 2 * t.capacity ∧ heap'.allocations = heap.allocations + 1 := by
  cases h with
  | quiet _ hcapacity _ hheap => exact .inl ⟨hcapacity, congrArg Heap.allocations hheap⟩
  | unasked _ _ _ htable hheap =>
    exact .inl ⟨congrArg capacity htable, congrArg Heap.allocations hheap⟩
  | refused _ _ _ _ htable hheap => exact .inl ⟨congrArg capacity htable, hheap ▸ rfl⟩
  | doubled _ _ _ _ _ _ hcapacity _ _ hheap =>
    refine .inr ⟨hcapacity, ?_⟩
    rw [hheap]
    exact (List.countP_cons_of_neg Bool.false_ne_true).trans (List.countP_cons_of_pos rfl)

theorem Footprint.paced (h : Footprint stores t heap t' heap') (hpaced : Paced start t heap) :
    Paced start t' heap' := by
  obtain ⟨k, hcapacity, hallocations⟩ := hpaced
  rcases h.grants with ⟨hsame, hgranted⟩ | ⟨hdouble, hgranted⟩
  · exact ⟨k, hsame.trans hcapacity, hgranted.trans hallocations⟩
  · refine ⟨k + 1, ?_, ?_⟩
    · rw [hdouble, hcapacity, Nat.pow_succ']
      exact Nat.mul_left_comm 2 firstCapacity (2 ^ k)
    · rw [hgranted, hallocations, Nat.add_assoc]

/-- A table that was doubled was half full, so that its new capacity is four times its length. -/
theorem Footprint.capacity_le (hfoot : Footprint stores t heap t' heap') (h : t.Sound) :
    t'.capacity ≤ max t.capacity (4 * t.length) := by
  cases hfoot with
  | quiet _ hcapacity _ _ => exact hcapacity ▸ le_max_left _ _
  | unasked _ _ _ htable _ => exact htable ▸ le_max_left _ _
  | refused _ _ _ _ htable _ => exact htable ▸ le_max_left _ _
  | doubled _ _ _ hhalf _ _ hcapacity _ _ _ =>
    obtain ⟨k, hk⟩ := h.capacity_eq
    have heven : t.capacity = 16 * 2 ^ k := hk
    refine le_max_of_le_right ?_
    omega

/-! ## Runs -/

section Runs

variable [LawfulElement κ] [LawfulElement ν]

/-- A run that starts with a sound table reaches no others, and never takes more slots than four times
the greatest length needs. -/
theorem session_capacity_le (calls : List (TableCall κ ν σ)) {s : (ProbeTable κ ν × σ) × Host}
    (h : s.1.1.Sound) (bounds : s.2.heap.placement.InBounds) :
    (Prog.session TableCall.run calls s).2.1.1.capacity ≤
      max s.1.1.capacity (4 * peak calls s) := by
  induction calls generalizing s with
  | nil => exact le_max_left _ _
  | cons c rest ih =>
    obtain ⟨⟨t, n⟩, host⟩ := s
    obtain ⟨hsound, hturn⟩ := (tended t.keying ν σ).run_after c h n bounds
    calc (Prog.session TableCall.run (c :: rest) ((t, n), host)).2.1.1.capacity
      _ ≤ max (c.run.after ((t, n), host)).1.1.capacity
            (4 * peak rest (c.run.after ((t, n), host))) := ih hsound (hturn.placement_eq ▸ bounds)
      _ ≤ max (max t.capacity (4 * t.length)) (4 * peak rest (c.run.after ((t, n), host))) :=
          max_le_max_right _ ((call_footprint c h n host bounds).capacity_le h)
      _ = max t.capacity (4 * peak (c :: rest) ((t, n), host)) := by
          rw [max_assoc, Nat.mul_max_mul_left]
          rfl

/-- Whatever a run did, its doublings can be counted in the heap. -/
theorem session_paced (calls : List (TableCall κ ν σ)) {s : (ProbeTable κ ν × σ) × Host}
    (h : s.1.1.Sound) (bounds : s.2.heap.placement.InBounds) (hpaced : Paced start s.1.1 s.2.heap) :
    let last := (Prog.session TableCall.run calls s).2
    last.1.1.Sound ∧ last.2.heap.placement.InBounds ∧ Paced start last.1.1 last.2.heap := by
  refine Prog.session_induct (fun s : (ProbeTable κ ν × σ) × Host =>
    s.1.1.Sound ∧ s.2.heap.placement.InBounds ∧ Paced start s.1.1 s.2.heap) ?_ calls
    ⟨h, bounds, hpaced⟩
  rintro c ⟨⟨t, n⟩, host⟩ ⟨h, bounds, hpaced⟩
  obtain ⟨hsound, hturn⟩ := (tended t.keying ν σ).run_after c h n bounds
  exact ⟨hsound, hturn.placement_eq ▸ bounds, (call_footprint c h n host bounds).paced hpaced⟩

/-- **How tables grow**, in every run of calls that starts with a new table.  Keys may have the hash 0, and
the heap may refuse some of the growths.

* The heap has granted one block for the new table, and one for each doubling of the first capacity.
* At most half of the slots are taken, and there are at most four times as many slots as entries were
  there at once, or as many as in a new table.
* The next call, whichever it is, leaves the footprint of one growth at most. -/
theorem session_growth {host host' : Host} (bounds : host.heap.placement.InBounds)
    (hcreate : create keying ν host = .ok t host') (n : σ) (calls : List (TableCall κ ν σ))
    {s : (ProbeTable κ ν × σ) × Host}
    (hsession : (Prog.session TableCall.run calls ((t, n), host')).2 = s) :
    (∃ k, s.1.1.capacity = firstCapacity * 2 ^ k) ∧
    s.2.heap.allocations = host.heap.allocations + (1 + Nat.log2 (s.1.1.capacity / firstCapacity)) ∧
    2 * s.1.1.length ≤ s.1.1.capacity ∧
    s.1.1.capacity ≤ max firstCapacity (4 * peak calls ((t, n), host')) ∧
    ∀ c : TableCall κ ν σ,
      Footprint c.Stores s.1.1 s.2.heap (c.run.after s).1.1 (c.run.after s).2.heap := by
  obtain ⟨hnew, _, _, _, hfirst, base, _, hheap⟩ :=
    (create_ends keying host (valid_of_create_eq_ok hcreate) bounds).of_run_ok hcreate
  have hbounds : host'.heap.placement.InBounds := by
    rw [hheap, Heap.placement_after]
    exact bounds
  have hstart : Paced host.heap.allocations t host'.heap := by
    refine ⟨0, hfirst, ?_⟩
    rw [hheap]
    exact List.countP_cons_of_pos rfl
  obtain ⟨h, hbounds', k, hcapacity, hallocations⟩ :=
    session_paced calls (s := ((t, n), host')) hnew hbounds hstart
  have hpeak := session_capacity_le calls (s := ((t, n), host')) hnew hbounds
  rw [hsession] at h hbounds' hcapacity hallocations hpeak
  refine ⟨⟨k, hcapacity⟩, ?_, ?_, hfirst ▸ hpeak, fun c => ?_⟩
  · rw [hcapacity, Nat.mul_div_cancel_left _ (by decide), Nat.log2_two_pow, ← Nat.add_assoc]
    exact hallocations
  · have hlength := h.length_le
    omega
  · obtain ⟨⟨t', n'⟩, host''⟩ := s
    exact call_footprint c h n' host'' hbounds'

/-- Eight keys are put, and the first one again: the table is doubled although it gets no longer, and the
bound on its capacity is reached. -/
theorem session_growth_overwritten :
    ∃ (t : ProbeTable (FixedInt ⟨8, false⟩) Unit) (host : Host)
      (s : (ProbeTable (FixedInt ⟨8, false⟩) Unit × Unit) × Host),
      let calls : List (TableCall (FixedInt ⟨8, false⟩) Unit Unit) :=
        (List.range 8 ++ [0]).map fun i => .step (.put (.ofInt _ (i + 1)) ())
      create ⟨fun key => key.bits.toNat.toUInt64, (· == ·)⟩ _ Host.ordinary = .ok t host ∧
      (Prog.session TableCall.run calls ((t, ()), host)).2 = s ∧
      s.1.1.capacity = 32 ∧ peak calls ((t, ()), host) = 8 ∧
      s.1.1.capacity ≤ max firstCapacity (4 * peak calls ((t, ()), host)) ∧
      s.2.heap.allocations = 2 := by
  let calls : List (TableCall (FixedInt ⟨8, false⟩) Unit Unit) :=
    (List.range 8 ++ [0]).map fun i => .step (.put (.ofInt _ (i + 1)) ())
  obtain ⟨t, host, s, hcreate, hsession, hcapacity, hpeak⟩ :
      ∃ (t : ProbeTable (FixedInt ⟨8, false⟩) Unit) (host : Host)
        (s : (ProbeTable (FixedInt ⟨8, false⟩) Unit × Unit) × Host),
        create ⟨fun key => key.bits.toNat.toUInt64, (· == ·)⟩ _ Host.ordinary = .ok t host ∧
        (Prog.session TableCall.run calls ((t, ()), host)).2 = s ∧ s.1.1.capacity = 32 ∧
        peak calls ((t, ()), host) = 8 :=
    ⟨_, _, _, rfl, rfl, by decide +kernel, by decide +kernel⟩
  obtain ⟨_, hallocations, _, hle, _⟩ :=
    session_growth Host.ordinary_sound.inBounds hcreate () calls hsession
  rw [hcapacity] at hallocations
  exact ⟨t, host, s, hcreate, hsession, hcapacity, hpeak, hle, hallocations⟩

end Runs

end ProbeTable

end AlignedSlots
