import Mathlib
import AlignedSlots.Proofs.Container.TableReach

/-!
# Steps of a table that fail

A step fails in two ways.  The heap may not give the larger slots that a put needs, and a key may have the
hash 0.  A put makes room before it looks at the hash, so that it may fail in the first way with any key,
and in the second way after the table has grown.

`ProbeTable.session_failures` says of every table that a run reaches when a step fails and how, and that
nothing is half done then: the table is as it was, or it has been doubled and holds the same entries.
-/

namespace AlignedSlots

/-- A step that stores something is a put. -/
theorem TableStep.Stores.exists_run_eq {κ ν : Type} [Element κ] [Element ν] {step : TableStep κ ν}
    (h : step.Stores) : ∃ value, step.run = TableAnswer.value <$> ProbeTable.put step.key value := by
  obtain ⟨value, hvalue⟩ := h
  cases step with
  | put key value => exact ⟨value, rfl⟩
  | update key value =>
    cases value with
    | some value => exact ⟨value, rfl⟩
    | none => cases hvalue
  | erase key => cases hvalue
  | get key => cases hvalue
  | contains key => cases hvalue

namespace ProbeTable

open Row

variable {κ ν : Type} [Element κ] [Element ν] [LawfulElement κ] [LawfulElement ν]
  {t : ProbeTable κ ν} {host : Host} {keying : Keying κ}

/-! ## When a step answers the refusal -/

/-- A step that answers an error stores something, and the growth that it needs is refused. -/
theorem refused_of_answer (step : TableStep κ ν) (h : t.Sound) (host : Host)
    (bounds : host.heap.placement.InBounds)
    (hanswer : step.run.answer (t, host) = .error (.error .badAlloc)) :
    step.Stores ∧ ∃ host', step.run.after (t, host) = (t, host') ∧ GrowthRefused t host host' := by
  by_cases hkey : t.keying.hash step.key = 0
  · obtain ⟨_, _, heq, hstopped⟩ := (zero_stops step h hkey host bounds).exists_error
    rw [Prog.answer_of_error heq] at hanswer
    cases hanswer
    cases hstopped with
    | refused hstores hrefused => exact ⟨hstores, _, Prog.after_of_error heq, hrefused⟩
  · rcases (step.run_ends h hkey host bounds).run_eq with
      ⟨_, _, heq, _⟩ | ⟨_, ⟨t', host'⟩, heq, _, hstores, rfl, hrefused⟩
    · rw [Prog.answer_of_ok heq] at hanswer
      cases hanswer
    · exact ⟨hstores, host', Prog.after_of_error heq, hrefused⟩

/-- **A step that stores something** is refused exactly where the table is half full and the heap does not
give twice as many slots, whatever the key is. -/
theorem answer_badAlloc_iff {step : TableStep κ ν} (hstores : step.Stores) (h : t.Sound) (host : Host)
    (bounds : host.heap.placement.InBounds) :
    step.run.answer (t, host) = .error (.error .badAlloc) ↔
      t.capacity / 2 ≤ t.length ∧ Unavailable κ ν host.heap (t.capacity * 2) := by
  constructor
  · intro hanswer
    obtain ⟨_, _, _, hhalf, hrefuses⟩ := refused_of_answer step h host bounds hanswer
    have hpos : 0 < t.capacity * 2 := Nat.mul_pos h.fitted.capacity_pos (by decide)
    exact ⟨of_decide_eq_true hhalf, unavailable_of_refuses hpos hrefuses⟩
  · rintro ⟨hhalf, hnone⟩
    obtain ⟨value, hrun⟩ := hstores.exists_run_eq
    rcases (grow_ends h host bounds).run_eq with ⟨_, _, _, hgiven, _⟩ | ⟨_, s', hgrow, rfl, _⟩
    · exact absurd hnone hgiven
    · have hput : put step.key value (t, host) = .error (.error .badAlloc) s' :=
        (put_eq_grow (decide_eq_true hhalf) value).trans (Prog.bind_error hgrow)
      rw [hrun]
      exact Prog.answer_of_error (Prog.map_error hput _)

/-! ## What still works -/

/-- A key that is there can be erased, and any key that has a hash can be put then.  Neither calls the
heap. -/
def Recovers (s : ProbeTable κ ν × Host) : Prop :=
  ∀ gone, s.1.contains gone = .ok true → ∀ key value, s.1.keying.hash key ≠ 0 →
    ∃ old s₁ found s₂, s.1.get gone = .ok (some old) ∧ erase gone s = .ok (some old) s₁ ∧
      put key value s₁ = .ok found s₂ ∧ s₁.2.heap = s.2.heap ∧ s₂.2.heap = s.2.heap

/-- **Every table recovers**, however full it is. -/
theorem Sound.recovers (h : t.Sound) (host : Host) : Recovers (t, host) := by
  intro gone hgone key value hkey
  have hhash : t.keying.hash gone ≠ 0 := by
    intro hzero
    rw [contains_zero hzero] at hgone
    cases hgone
  rcases get_lands h hhash with ⟨q, hlands, hget⟩ | ⟨_, _, hget⟩
  · obtain ⟨answer, s₁, herase, hheap, ⟨_, hlands', _⟩ | ⟨_, hlands', hanswer, herased⟩⟩ :=
      (erase_ends (ν := ν) h hhash host).exists_ok
    · cases hlands.unique hlands'
    · cases hlands.unique hlands'
      subst hanswer
      obtain ⟨hq, hfull, _⟩ := hlands
      obtain ⟨t₁, host₁⟩ := s₁
      have hsound : t₁.Sound := herased.sound h hq hfull
      -- The table was half full at most, and has one entry less.
      have hhalf : t₁.isHalfFull = false := by
        have hlength : t₁.length = t.length - 1 := herased.length_eq
        have hcapacity : t₁.capacity = t.capacity := herased.capacity_eq
        have hpos := h.length_pos hq hfull
        have hle := h.length_le
        exact decide_eq_false (by omega)
      obtain ⟨found, s₂, hput, hhost, _⟩ := (stash_ends hsound
        (Nat.not_le.mp (of_decide_eq_false hhalf)) (herased.keying_eq ▸ hkey) value host₁).exists_ok
      exact ⟨_, _, found, s₂, hget, herase, (put_eq_stash hhalf value).trans hput, hheap,
        hhost ▸ hheap⟩
  · rw [contains_eq_of_get h hhash hget] at hgone
    cases hgone

/-! ## What a failed step leaves -/

/-- The table is as it was, and no block was given back.  The heap was asked for one block at most. -/
structure Unharmed (s s' : ProbeTable κ ν × Host) : Prop where
  table_eq : s'.1 = s.1
  heap_eq : s'.2.heap = s.2.heap ∨ s'.2.heap = s.2.heap.after
    [.refused (Parcel.totalSize (blockAlign κ ν) (bytesOf κ ν (s.1.capacity * 2)))]
  recovers : Recovers s'

/-- The table holds the entries that it did, in the same slots or in twice as many. -/
structure OnlyGrown (s s' : ProbeTable κ ν × Host) : Prop where
  pairs_perm : ∃ pairs pairs', s.1.toList = .ok pairs ∧ s'.1.toList = .ok pairs' ∧ pairs'.Perm pairs
  length_eq : s'.1.length = s.1.length
  keying_eq : s'.1.keying = s.1.keying
  represented : s'.1.Represented
  /-- A growth is complete: the table has its new block, and the old one is given back. -/
  grown : s.1.length < s.1.capacity / 2 ∧ s'.1 = s.1 ∧ s'.2.heap = s.2.heap ∨
    s.1.capacity / 2 ≤ s.1.length ∧ s'.1.capacity = s.1.capacity * 2 ∧
      ∃ old new, s.1.slots.base = some old ∧ s'.1.slots.base = some new ∧
        s'.2.heap = s.2.heap.after [.freed old, .granted
          (Parcel.totalSize (blockAlign κ ν) (bytesOf κ ν (s.1.capacity * 2))) new]

theorem GrowthRefused.unharmed {host' : Host} (hrefused : GrowthRefused t host host') (h : t.Sound) :
    Unharmed (t, host) (t, host') := by
  refine ⟨rfl, ?_, h.recovers host'⟩
  rcases hrefused.2 with ⟨_, hheap⟩ | ⟨_, _, _, hheap⟩
  · exact .inl hheap
  · exact .inr hheap

omit [LawfulElement κ] [LawfulElement ν] in
theorem MadeRoom.onlyGrown {t' : ProbeTable κ ν} {host' : Host} (hroom : MadeRoom t host t' host')
    (h : t.Tidy) (hsymm : ∀ a b, t.keying.same a b = t.keying.same b a) :
    OnlyGrown (t, host) (t', host') := by
  obtain ⟨htidy, hperm⟩ := hroom.tidy h hsymm
  refine ⟨⟨_, _, toList_eq h.toSound, toList_eq htidy.toSound, hperm.map _⟩, ?_,
    (hroom.sound h.toSound).2.2, htidy.represented, ?_⟩
  · rw [← htidy.length_eq, ← h.length_eq]
    exact hperm.length_eq
  · rcases hroom with ⟨hhalf, heq, hheap⟩ | ⟨hhalf, hdoubled, hblocks⟩
    · exact .inl ⟨Nat.not_le.mp (of_decide_eq_false hhalf), heq, hheap⟩
    · exact .inr ⟨of_decide_eq_true hhalf, hdoubled.capacity_eq, hblocks⟩

/-! ## Runs -/

/-- **A step that fails leaves nothing half done**, in every state that a run reaches.  Keys may have the
hash 0, and the run may have had steps that failed.

* A step that stores something answers `ContainerError.badAlloc` exactly where the table is half full and
  the heap does not give twice as many slots.  The table is as it was then, and goes on to work.
* With a key that has the hash 0, any other step stops before it changes anything.
* A step that stores something under such a key stops where it is not refused.  Only the growth for it may
  have happened by then. -/
theorem session_failures {s : ProbeTable κ ν × Host}
    (hsymm : ∀ a b, keying.same a b = keying.same b a) (hrun : Reached keying s)
    (step : TableStep κ ν) :
    (step.Stores → (step.run.answer s = .error (.error .badAlloc) ↔
      s.1.capacity / 2 ≤ s.1.length ∧ Unavailable κ ν s.2.heap (s.1.capacity * 2))) ∧
    (step.run.answer s = .error (.error .badAlloc) → step.Stores ∧ Unharmed s (step.run.after s)) ∧
    (keying.hash step.key = 0 → ¬ step.Stores → step.run s = .error (.fault .zeroHash) s) ∧
    (keying.hash step.key = 0 → step.Stores → step.run.answer s ≠ .error (.error .badAlloc) →
      step.run.answer s = .error (.fault .zeroHash) ∧ OnlyGrown s (step.run.after s)) := by
  obtain ⟨_, hkeying, bounds⟩ := hrun.sound
  have htidy := hrun.tidy_of_symm hsymm
  obtain ⟨t, host⟩ := s
  subst hkeying
  have h : t.Sound := htidy.toSound
  refine ⟨fun hstores => answer_badAlloc_iff hstores h host bounds, fun hanswer => ?_,
    fun hzero hother => ?_, fun hzero hstores hanswer => ?_⟩
  · obtain ⟨hstores, host', hafter, hrefused⟩ := refused_of_answer step h host bounds hanswer
    rw [hafter]
    exact ⟨hstores, hrefused.unharmed h⟩
  · obtain ⟨_, _, heq, hstopped⟩ := (zero_stops step h hzero host bounds).exists_error
    cases hstopped with
    | storing hstores _ => exact absurd hstores hother
    | refused hstores _ => exact absurd hstores hother
    | other _ => exact heq
  · obtain ⟨_, _, heq, hstopped⟩ := (zero_stops step h hzero host bounds).exists_error
    rw [Prog.answer_of_error heq] at hanswer ⊢
    rw [Prog.after_of_error heq]
    cases hstopped with
    | storing _ hroom => exact ⟨rfl, hroom.onlyGrown htidy hsymm⟩
    | refused _ _ => exact absurd rfl hanswer
    | other hother => exact absurd hstores hother

/-- Half of the slots are taken, and the heap has no second block to give.  The key 0 has the hash 0: it
could not be put before, and is not asked for its hash now. -/
theorem session_failures_full :
    ∃ (t : ProbeTable (FixedInt ⟨8, false⟩) Unit) (host : Host)
      (s : ProbeTable (FixedInt ⟨8, false⟩) Unit × Host),
      create ⟨fun key => key.bits.toNat.toUInt64, (· == ·)⟩ _
          ⟨Heap.ofPlacement (.withBudget 1 (.checked .plain)) 0, {}⟩ = .ok t host ∧
      (Prog.session TableStep.run ((List.range 9).map fun i => .put (.ofInt _ i) ()) (t, host)).2 = s ∧
      (∀ key, (TableStep.put key ()).run.answer s = .error (.error .badAlloc) ∧
        Unharmed s ((TableStep.put key ()).run.after s)) ∧
      (TableStep.get (.ofInt _ 0)).run s = .error (.fault .zeroHash) s := by
  let steps : List (TableStep (FixedInt ⟨8, false⟩) Unit) :=
    (List.range 9).map fun i => .put (.ofInt _ i) ()
  obtain ⟨t, host, s, hcreate, hsession, hhalf, hnone⟩ :
      ∃ (t : ProbeTable (FixedInt ⟨8, false⟩) Unit) (host : Host)
        (s : ProbeTable (FixedInt ⟨8, false⟩) Unit × Host),
        create ⟨fun key => key.bits.toNat.toUInt64, (· == ·)⟩ _
          ⟨Heap.ofPlacement (.withBudget 1 (.checked .plain)) 0, {}⟩ = .ok t host ∧
        (Prog.session TableStep.run steps (t, host)).2 = s ∧ s.1.capacity / 2 ≤ s.1.length ∧
        s.2.heap.placement s.2.heap.history (Parcel.totalSize (blockAlign (FixedInt ⟨8, false⟩) Unit)
          (bytesOf (FixedInt ⟨8, false⟩) Unit (s.1.capacity * 2))) = none :=
    ⟨_, _, _, rfl, rfl, by decide +kernel, by decide +kernel⟩
  have hreached : Reached ⟨fun key => key.bits.toNat.toUInt64, (· == ·)⟩ s :=
    ⟨_, host, t, steps, Host.ordinary_sound.inBounds.withBudget 1, hcreate, hsession⟩
  have hfailures := session_failures (fun _ _ => BEq.comm) hreached
  refine ⟨t, host, s, hcreate, hsession, fun key => ?_, ?_⟩
  · have hanswer := ((hfailures (.put key ())).1 ⟨(), rfl⟩).mpr ⟨hhalf, .inr hnone⟩
    exact ⟨hanswer, ((hfailures (.put key ())).2.1 hanswer).2⟩
  · exact (hfailures (.get (.ofInt _ 0))).2.2.1 (by decide) nofun

end ProbeTable

end AlignedSlots
