import Mathlib
import AlignedSlots.Proofs.Container.Lifecycle
import AlignedSlots.Proofs.Container.SlotOwnership
import AlignedSlots.Proofs.Container.TableSteps
import AlignedSlots.Proofs.Container.WalkLaws

/-!
# The lifecycle of a table

A call of a table is a step with any key, or one of the walks over all entries.  A step whose key has the
hash 0 stops at the assertion about it; only a put has done something by then, which is to make room.

`ProbeTable.tended` is what every call keeps, how it turns over the block of slots, and how it fails.
Nothing is asked of the sameness of keys for that.
-/

namespace AlignedSlots

/-! ## Calls -/

namespace TableStep

variable {κ ν : Type}

/-- The faults that a step stops with on a table. -/
def Panics (t : ProbeTable κ ν) (step : TableStep κ ν) (f : Fault) : Prop :=
  t.keying.hash step.key = 0 ∧ f = .zeroHash

/-- The errors that a step answers. -/
def Answers (step : TableStep κ ν) (e : ContainerError) : Prop := step.Stores ∧ e = .badAlloc

/-- The step fails as documented. -/
def Fails (t : ProbeTable κ ν) (step : TableStep κ ν) (e : Failure ContainerError) : Prop :=
  e.Within step.Answers (step.Panics t)

end TableStep

/-- A call of a table. -/
inductive TableCall (κ ν σ : Type) where
  | step (step : TableStep κ ν)
  | each (visitor : κ → ν → Prog ContainerError σ Unit)
  | list

namespace TableCall

variable {κ ν σ : Type}

/-- Runs a call. -/
def run [Element κ] [Element ν] :
    TableCall κ ν σ → Hosted ContainerError (ProbeTable κ ν × σ) Unit
  | step s => (fun _ => ()) <$> Hosted.onObject s.run
  | each visitor => Hosted.reading fun t => t.each visitor
  | list => (fun _ => ()) <$> Hosted.asking fun t => Failure.ofChecked t.toList

/-- The visitor fails so on some entry. -/
def Raises (visitor : κ → ν → Prog ContainerError σ Unit) (e : Failure ContainerError) : Prop :=
  ∃ key value, (visitor key value).Raises e

/-- The errors that a call answers. -/
def Answers : TableCall κ ν σ → ContainerError → Prop
  | step s, e => s.Answers e
  | each visitor, e => Raises visitor (.error e)
  | list, _ => False

/-- The faults that a call stops with on a table. -/
def Panics (t : ProbeTable κ ν) : TableCall κ ν σ → Fault → Prop
  | step s, f => s.Panics t f
  | _, _ => False

/-- No visitor of the call faults by itself. -/
def Calm : TableCall κ ν σ → Prop
  | each visitor => ∀ f, ¬ Raises visitor (.fault f)
  | _ => True

/-- The walk over the slots hands the visitor the entries. -/
theorem raises_of_each {visitor : κ → ν → Prog ContainerError σ Unit} {e : Failure ContainerError}
    (h : Walk.Raises (fun _ (entry : Entry κ ν) =>
      if entry.hash ≠ 0 then visitor entry.key entry.value else pure ()) e) :
    Raises visitor e := by
  obtain ⟨_, entry, hraises⟩ := h
  have hraises : Prog.Raises
      (if entry.hash ≠ 0 then visitor entry.key entry.value else pure ()) e := hraises
  by_cases hfull : entry.hash ≠ 0
  · rw [if_pos hfull] at hraises
    exact ⟨entry.key, entry.value, hraises⟩
  · rw [if_neg hfull] at hraises
    obtain ⟨_, _, hpure⟩ := hraises
    cases hpure

end TableCall

namespace ProbeTable

/-- Tables with a keying, as they are seen from the heap. -/
def lifecycle {κ : Type} [Element κ] (keying : Keying κ) (ν σ : Type) [Element ν] : Lifecycle where
  Object := ProbeTable κ ν
  Visitors := σ
  Call := TableCall κ ν σ
  Error := ContainerError
  make := create keying ν
  run := TableCall.run
  drop := drop
  owned t := t.slots.base
  Stores t := t.capacity ≠ 0
  MakeAnswers e := e = .badAlloc
  Answers := TableCall.Answers
  Panics t c := c.Panics t
  Calm := TableCall.Calm

/-! ## Keys whose hash is 0 -/

section Zero

variable {κ ν : Type} {t : ProbeTable κ ν} {key : κ}

theorem hashOf_zero (hkey : t.keying.hash key = 0) : t.hashOf key = .error .zeroHash := by
  unfold hashOf
  exact if_neg (not_not.mpr hkey)

theorem ask_fault {β : Type} {f : ProbeTable κ ν → Except Fault β} {e : Fault} (h : f t = .error e)
    (host : Host) :
    (ask fun t => Failure.ofChecked (f t) : Hosted ContainerError (ProbeTable κ ν) β) (t, host) =
      .error (.fault e) (t, host) := by
  unfold ask
  simp only [h]
  rfl

variable [Element κ]

theorem locate_zero (hkey : t.keying.hash key = 0) : t.locate key = .error .zeroHash := by
  unfold locate
  rw [hashOf_zero hkey]
  rfl

theorem contains_zero (hkey : t.keying.hash key = 0) : t.contains key = .error .zeroHash := by
  unfold contains
  rw [locate_zero hkey]
  rfl

variable [Element ν]

theorem get_zero (hkey : t.keying.hash key = 0) : t.get key = .error .zeroHash := by
  unfold get
  rw [locate_zero hkey]
  rfl

theorem erase_zero (hkey : t.keying.hash key = 0) (host : Host) :
    (erase key : Hosted ContainerError (ProbeTable κ ν) (Option ν)) (t, host) =
      .error (.fault .zeroHash) (t, host) := by
  unfold erase
  exact Prog.bind_error (ask_fault (f := fun t => t.locate key) (locate_zero hkey) host)

theorem stash_zero (hkey : t.keying.hash key = 0) (value : ν) (host : Host) :
    stash key value (t, host) = .error (.fault .zeroHash) (t, host) := by
  unfold stash
  exact Prog.bind_error (ask_fault (f := fun t => t.hashOf key) (hashOf_zero hkey) host)

variable [LawfulElement κ] [LawfulElement ν]

/-- A put makes room before it looks at the hash. -/
theorem put_zero_ends (h : t.Sound) (hkey : t.keying.hash key = 0) (value : ν) (host : Host)
    (bounds : host.heap.placement.InBounds) :
    (put key value).Ends (t, host) (fun _ _ => False)
      (fun e s => e = .fault .zeroHash ∧ MadeRoom t host s.1 s.2 ∨
        e = .error .badAlloc ∧ s.1 = t ∧ GrowthRefused t host s.2) := by
  cases hhalf : t.isHalfFull with
  | false =>
    apply Prog.Ends.of_error ((put_eq_stash hhalf value).trans (stash_zero hkey value host))
    exact .inl ⟨rfl, .inl ⟨hhalf, rfl, rfl⟩⟩
  | true =>
    -- The larger table stays, although the put then stops.
    have hgrow : (grow >>= fun _ => stash key value).Ends (t, host) (fun _ _ => False)
        (fun e s => e = .fault .zeroHash ∧ MadeRoom t host s.1 s.2 ∨
          e = .error .badAlloc ∧ s.1 = t ∧ GrowthRefused t host s.2) := by
      apply (grow_ends h host bounds).bind
      · rintro _ ⟨t', host'⟩ ⟨_, hdoubled, hheap⟩
        have hkey' : t'.keying.hash key = 0 := by
          rw [hdoubled.keying_eq]
          exact hkey
        apply Prog.Ends.of_error (stash_zero hkey' value host')
        exact .inl ⟨rfl, .inr ⟨hhalf, hdoubled, hheap⟩⟩
      · rintro e s ⟨rfl, hs, hrefuses⟩
        exact .inr ⟨rfl, hs, hhalf, hrefuses⟩
    obtain ⟨e, s, heq, he⟩ := hgrow.exists_error
    exact Prog.Ends.of_error ((put_eq_grow hhalf value).trans heq) he

end Zero

/-! ## What a call does -/

section Turnovers

variable {κ ν : Type} [Element κ] [Element ν] {t t' : ProbeTable κ ν} {host host' : Host}

theorem MadeRoom.turnover (hroom : MadeRoom t host t' host') :
    Turnover host.heap t.slots.base t'.slots.base host'.heap := by
  rcases hroom with ⟨_, rfl, hheap⟩ | ⟨_, _, old, new, hold, hnew, hheap⟩
  · exact .of_eq rfl hheap
  · rw [hold, hnew, hheap]
    exact .moved _ _ _

theorem GrowthRefused.turnover (h : GrowthRefused t host host') :
    Turnover host.heap t.slots.base t.slots.base host'.heap :=
  .of_refuses h.2 _

theorem Effect.turnover {key : κ} {action : TableAction ν} {found : Option ν}
    (h : Effect t host key action found t' host') :
    Turnover host.heap t.slots.base t'.slots.base host'.heap := by
  cases h with
  | stored hroom hstored =>
    rw [hstored.base_eq]
    exact hroom.turnover
  | erased _ herased hheap => exact .of_eq herased.base_eq hheap
  | absent _ hheap => exact .of_eq rfl hheap
  | found _ => exact .kept _
  | missing _ => exact .kept _

end Turnovers

section Calls

variable {κ ν σ : Type} [Element κ] [Element ν] {t : ProbeTable κ ν} {host : Host}

variable [LawfulElement κ] [LawfulElement ν]

/-- How a step stops whose key has the hash 0.  One that stores something makes room first. -/
inductive Stopped (t : ProbeTable κ ν) (host : Host) (step : TableStep κ ν) :
    Failure ContainerError → ProbeTable κ ν × Host → Prop
  | storing {t' : ProbeTable κ ν} {host' : Host} : step.Stores → MadeRoom t host t' host' →
      Stopped t host step (.fault .zeroHash) (t', host')
  | refused {host' : Host} : step.Stores → GrowthRefused t host host' →
      Stopped t host step (.error .badAlloc) (t, host')
  | other : ¬ step.Stores → Stopped t host step (.fault .zeroHash) (t, host)

/-- A step whose key has the hash 0. -/
theorem zero_stops (step : TableStep κ ν) (h : t.Sound) (hkey : t.keying.hash step.key = 0)
    (host : Host) (bounds : host.heap.placement.InBounds) :
    step.run.Ends (t, host) (fun _ _ => False) (Stopped t host step) := by
  have hput : ∀ value, step.Stores → (put step.key value).Ends (t, host) (fun _ _ => False)
      (Stopped t host step) := by
    intro value hstores
    apply (put_zero_ends h hkey value host bounds).mono
    · exact fun _ _ hfalse => hfalse
    · rintro e ⟨t', host'⟩ (⟨rfl, hroom⟩ | ⟨rfl, rfl, hrefused⟩)
      · exact .storing hstores hroom
      · exact .refused hstores hrefused
  cases step with
  | put key value => exact (hput value ⟨value, rfl⟩).map
  | erase key =>
    have hother : ¬ (TableStep.erase key : TableStep κ ν).Stores :=
      TableStep.not_stores (.inl rfl)
    exact (Prog.Ends.of_error (erase_zero hkey host) (.other hother)).map
  | update key value =>
    cases value with
    | some value => exact (hput value ⟨value, rfl⟩).map
    | none =>
      have hother : ¬ (TableStep.update key none : TableStep κ ν).Stores :=
        TableStep.not_stores (.inl rfl)
      exact (Prog.Ends.of_error (erase_zero hkey host) (.other hother)).map
  | get key =>
    have hask := ask_fault (f := fun t : ProbeTable κ ν => t.get key) (get_zero hkey) host
    exact (Prog.Ends.of_error hask (.other (TableStep.not_stores (.inr rfl)))).map
  | contains key =>
    have hask := ask_fault (f := fun t : ProbeTable κ ν => t.contains key) (contains_zero hkey) host
    exact (Prog.Ends.of_error hask (.other (TableStep.not_stores (.inr rfl)))).map

/-- How a step ends, whatever the hash of its key is. -/
theorem step_ends (step : TableStep κ ν) (h : t.Sound) (host : Host)
    (bounds : host.heap.placement.InBounds) :
    step.run.Ends (t, host)
      (fun _ s => s.1.Sound ∧ Turnover host.heap t.slots.base s.1.slots.base s.2.heap)
      (fun e s => s.1.Sound ∧ Turnover host.heap t.slots.base s.1.slots.base s.2.heap ∧
        step.Fails t e) := by
  by_cases hkey : t.keying.hash step.key = 0
  · apply (zero_stops step h hkey host bounds).mono
    · exact fun _ _ hfalse => hfalse.elim
    · intro e s hstopped
      cases hstopped with
      | storing _ hroom => exact ⟨(hroom.sound h).1, hroom.turnover, hkey, rfl⟩
      | refused hstores hrefused => exact ⟨h, hrefused.turnover, hstores, rfl⟩
      | other _ => exact ⟨h, .kept _, hkey, rfl⟩
  · apply (step.run_ends h hkey host bounds).mono
    · rintro _ s ⟨_, _, heffect⟩
      exact ⟨heffect.sound h hkey, heffect.turnover⟩
    · rintro e ⟨_, host'⟩ ⟨rfl, hstores, rfl, hrefused⟩
      exact ⟨h, hrefused.turnover, hstores, rfl⟩

/-- The layouts of keys and values are such that slots can be aligned for them. -/
theorem validAlign_blockAlign (hkey : Element.align κ ≤ greatestAlign)
    (hvalue : Element.align ν ≤ greatestAlign) : ValidAlign (blockAlign κ ν) := by
  have hentry : ValidAlign (Element.align (Entry κ ν)) := by
    refine ⟨isPowerOfTwo_max ⟨3, rfl⟩ (isPowerOfTwo_max LawfulElement.align_isPowerOfTwo
      LawfulElement.align_isPowerOfTwo), ?_⟩
    exact max_le (by decide) (max_le hkey hvalue)
  unfold blockAlign
  by_cases hlarge : cacheLine < Element.align (Entry κ ν)
  · rw [if_pos hlarge]
    exact hentry
  · rw [if_neg hlarge]
    decide

/-- **Every call** keeps a table sound, and turns over the block of its slots. -/
theorem run_tends (keying : Keying κ) (supported : Prop) (c : TableCall κ ν σ) (h : t.Sound) (n : σ)
    (host : Host) (bounds : host.heap.placement.InBounds) :
    c.run.Tends (fun t => t.slots.base) Sound
      (fun e => supported → c.Calm → (lifecycle keying ν σ).Fails t c e) t n host := by
  cases c with
  | step s =>
    apply Hosted.Tends.map
    apply Hosted.Tends.onObject
    apply (step_ends s h host bounds).mono
    · exact fun _ _ hok => hok
    · exact fun _ _ ⟨hsound, hturn, hfails⟩ => ⟨hsound, hturn, fun _ _ => hfails⟩
  | each visitor =>
    have hread : ∀ i ∈ Walk.forward t.capacity,
        ∃ entry : Entry κ ν, entryAt t.slots i = .ok entry := fun i hi =>
      ⟨_, entryAt_eq h.fitted (Walk.lt_of_mem_forward hi)⟩
    refine Hosted.Tends.reading (m := fun t : ProbeTable κ ν => t.each visitor) h
      (Walk.visit_ends hread _ n) ?_
    exact fun _ hraises _ calm => Failure.within_of_calm (TableCall.raises_of_each hraises) calm
  | list =>
    apply Hosted.Tends.map
    refine Hosted.Tends.asking h fun e he _ _ => ?_
    rw [toList_eq h] at he
    cases he

omit [LawfulElement κ] [LawfulElement ν] in
/-- **Dropping** a table gives its block back. -/
theorem drop_ends (h : t.Sound) (host : Host) :
    drop.Ends (t, host)
      (fun _ s => s.2.heap = host.heap.after (t.slots.base.toList.map HeapEvent.freed))
      (fun _ _ => False) := by
  obtain ⟨_, s, heq, hheap⟩ :=
    (Slots.release_ends (ε := ContainerError) h.fitted.ready host).exists_ok
  have hrun : drop (t, host) = .ok () ({ t with slots := s.1 }, s.2) := by
    unfold drop
    simp only [heq]
  exact Prog.Ends.of_ok hrun hheap

/-- **What a table keeps**, whatever is done with it. -/
theorem tended (keying : Keying κ) (ν σ : Type) [Element ν] [LawfulElement ν] :
    (lifecycle keying ν σ).Tended
      (Element.align κ ≤ greatestAlign ∧ Element.align ν ≤ greatestAlign) Sound where
  make_ends host bounds := by
    by_cases hvalid : ValidAlign (blockAlign κ ν)
    · apply (create_ends keying host hvalid bounds).mono
      · rintro t host' ⟨hsound, _, _, _, _, base, hbase, hheap⟩
        refine ⟨hsound, ?_⟩
        show Turnover host.heap none t.slots.base host'.heap
        rw [hbase, hheap]
        exact .first _ _
      · rintro e host' ⟨rfl, hrefuses⟩
        exact ⟨.of_refuses hrefuses none, fun _ => rfl⟩
    · apply (create_of_not_valid keying host hvalid).mono
      · exact fun _ _ hfalse => hfalse.elim
      · rintro e host' hheap
        refine ⟨.of_eq rfl hheap, fun ⟨hkey, hvalue⟩ => ?_⟩
        exact absurd (validAlign_blockAlign hkey hvalue) hvalid
  run_tends c t n host h bounds := run_tends keying _ c h n host bounds
  drop_ends t host h := drop_ends h host
  stores_iff t h := h.fitted.ready.isSome_base_iff

end Calls

end ProbeTable

end AlignedSlots
