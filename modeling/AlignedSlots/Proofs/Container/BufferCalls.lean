import Mathlib
import AlignedSlots.Proofs.Container.BufferSteps
import AlignedSlots.Proofs.Container.Lifecycle
import AlignedSlots.Proofs.Container.SlotOwnership

/-!
# The lifecycle of a buffer

A call of a buffer is a step, or one of the walks over the visible slots that only read.
`Buffer.tended` is what every call keeps, how it turns over the block of slots, and how it fails.  Nothing
but a visitor makes a buffer stop at a fault.
-/

namespace AlignedSlots

namespace BufferStep

variable {α ν : Type}

/-! ## How steps fail -/

/-- The errors that a step answers. -/
def Answers : BufferStep α ν → ContainerError → Prop
  | reserve _, e => e = .badAlloc
  | emplace, e => e = .badAlloc
  | push _, e => e = .badAlloc
  | get _, e => e = .overflow
  | replace _ _, e => e = .overflow
  | fillSlot _ _, e => e = .overflow
  | last, e => e = .underflow
  | replaceLast _, e => e = .underflow
  | eachInPlace visitor, e => Walk.RaisesInPlace visitor (.error e)
  | setLimit _, _ => False
  | clear, _ => False

/-- No visitor of the step faults by itself. -/
def Calm : BufferStep α ν → Prop
  | eachInPlace visitor => ∀ f, ¬ Walk.RaisesInPlace visitor (.fault f)
  | _ => True

/-- The step fails as documented. -/
def Fails (step : BufferStep α ν) (e : Failure ContainerError) : Prop :=
  e.Within step.Answers fun _ => False

variable {step : BufferStep α ν} {e : Failure ContainerError} {w' : Window α} {s s' : Window α × ν}

theorem answerElement_eq_error {e₀ : ContainerError} {x : Option α}
    (h : answerElement e₀ w' x s = .error e s') : e = .error e₀ := by
  cases x with
  | some _ => cases h
  | none =>
    cases h
    rfl

/-- On a window, a step fails as documented. -/
theorem fails_of_onWindow [Element α] [Initial α] (h : step.onWindow s = .error e s')
    (calm : step.Calm) : step.Fails e := by
  cases step with
  | reserve _ => cases h
  | emplace => cases h
  | push _ => cases h
  | setLimit _ => cases h
  | clear => cases h
  | get i =>
    obtain rfl := answerElement_eq_error h
    rfl
  | last =>
    obtain rfl := answerElement_eq_error h
    rfl
  | replace i x =>
    obtain rfl := answerElement_eq_error h
    rfl
  | replaceLast x =>
    obtain rfl := answerElement_eq_error h
    rfl
  | fillSlot i value =>
    unfold onWindow at h
    by_cases hi : i < s.1.limit
    · simp only [if_pos hi] at h
      cases h
    · simp only [if_neg hi] at h
      cases h
      rfl
  | eachInPlace visitor =>
    unfold onWindow at h
    cases hwalk : Walk.visitList visitor 0 s.1.visible s.2 with
    | ok _ _ =>
      simp only [hwalk] at h
      cases h
    | error e' t =>
      simp only [hwalk] at h
      cases h
      exact Failure.within_of_calm (Walk.raises_of_visitList hwalk) calm

/-- A step that needs room answers that there is none. -/
theorem answers_badAlloc {limit : Nat} (h : 0 < step.demand limit) : step.Answers .badAlloc := by
  cases step with
  | reserve _ => rfl
  | emplace => rfl
  | push _ => rfl
  | _ => exact (Nat.lt_irrefl 0 h).elim

end BufferStep

/-! ## Calls -/

/-- A call of a buffer. -/
inductive BufferCall (α ν : Type) where
  | step (step : BufferStep α ν)
  | each (visitor : Nat → α → Prog ContainerError ν Unit)
  | eachReverse (visitor : Nat → α → Prog ContainerError ν Unit)
  | search (property : Nat → α → Prog ContainerError ν Bool)
  | list

namespace BufferCall

variable {α ν : Type}

/-- Runs a call. -/
def run [Element α] [Initial α] : BufferCall α ν → Hosted ContainerError (Buffer α × ν) Unit
  | step s => (fun _ => ()) <$> s.run
  | each visitor => Hosted.reading fun b => b.each visitor
  | eachReverse visitor => Hosted.reading fun b => b.eachReverse visitor
  | search property => (fun _ => ()) <$> Hosted.reading fun b => b.search property
  | list => (fun _ => ()) <$> Hosted.asking fun b => Failure.ofChecked b.toList

/-- The errors that a call answers. -/
def Answers : BufferCall α ν → ContainerError → Prop
  | step s, e => s.Answers e
  | each visitor, e => Walk.Raises visitor (.error e)
  | eachReverse visitor, e => Walk.Raises visitor (.error e)
  | search property, e => Walk.Raises property (.error e)
  | list, _ => False

/-- No visitor of the call faults by itself. -/
def Calm : BufferCall α ν → Prop
  | step s => s.Calm
  | each visitor => ∀ f, ¬ Walk.Raises visitor (.fault f)
  | eachReverse visitor => ∀ f, ¬ Walk.Raises visitor (.fault f)
  | search property => ∀ f, ¬ Walk.Raises property (.fault f)
  | list => True

end BufferCall

namespace Buffer

/-- Buffers whose slots have at least an alignment, as they are seen from the heap. -/
def lifecycle (α ν : Type) [Element α] [Initial α] (align : Nat) : Lifecycle where
  Object := Buffer α
  Visitors := ν
  Call := BufferCall α ν
  Error := ContainerError
  make := Prog.ofChecked (empty α align)
  run := BufferCall.run
  drop := drop
  owned b := b.slots.base
  Stores b := b.capacity ≠ 0
  MakeAnswers _ := False
  Answers := BufferCall.Answers
  Panics _ _ _ := False
  Calm := BufferCall.Calm

variable {α ν : Type} [Element α] {b b' : Buffer α} {align : Nat}

variable [LawfulElement α]

/-- A buffer of supported elements can be made with a supported alignment. -/
theorem exists_empty (h : Supported α) (valid : ValidAlign align) :
    ∃ b, Buffer.empty α align = .ok b := by
  unfold Buffer.empty
  rw [if_neg (not_not.mpr valid)]
  show ∃ b, (Slots.strideOf (Element.size α) (max align (Element.align α)) >>= _) = _
  rw [Slots.strideOf_eq_ok h.size_lt (h.validAlign_max valid)]
  exact ⟨_, rfl⟩

/-- The buffer holds some window, in slots that are aligned as asked. -/
def Sound (align : Nat) (b : Buffer α) : Prop := ∃ w, b.Holds (max align (Element.align α)) w

/-! ## What a call does -/

variable [Initial α]

/-- A step that has ended. -/
theorem tends_of_outcome {step : BufferStep α ν} {n n' : ν} {heap heap' : Heap} {w : Window α}
    {answer : Except (Failure ContainerError) (BufferAnswer α)}
    (h : BufferStep.Outcome (max align (Element.align α)) step b w n heap answer (b', n') heap')
    (hholds : b.Holds (max align (Element.align α)) w) :
    b'.Sound align ∧ Turnover heap b.slots.base b'.slots.base heap' ∧
      ∀ e, answer = .error e → Supported α ∧ ValidAlign align → step.Calm → step.Fails e := by
  cases h with
  | answered _ hholds' hgrown =>
    obtain ⟨slots, hreserved, hplace⟩ := hgrown
    refine ⟨⟨_, hholds'⟩, ?_, nofun⟩
    rw [hplace.base_eq]
    exact hreserved.turnover
  | failed hwindow hholds' hplace _ _ =>
    refine ⟨⟨_, hholds'⟩, .of_eq hplace.base_eq rfl, ?_⟩
    rintro e ⟨⟩ _ calm
    exact BufferStep.fails_of_onWindow hwindow calm
  | denied hdenied =>
    -- A supported alignment passes the assertion of the allocator, so the heap has refused.
    have hlt : b.slots.capacity < step.demand w.limit := hdenied.1
    obtain ⟨_, _, hslots⟩ := hdenied.2
    refine ⟨⟨w, hholds⟩, hslots.turnover, ?_⟩
    rintro e ⟨⟩ ⟨supported, valid⟩ _
    have hvalid : ValidAlign b.slots.align := hholds.align_eq ▸ supported.validAlign_max valid
    rcases hdenied.failure with rfl | ⟨hinvalid, _⟩
    · exact BufferStep.answers_badAlloc (Nat.zero_lt_of_lt hlt)
    · exact absurd hvalid hinvalid

omit [Initial α] [LawfulElement α] in
/-- Every visible slot can be read. -/
theorem Holds.exists_read {w : Window α} (h : b.Holds align w) {i : Nat} (hi : i < b.limit) :
    ∃ x, b.read i = .ok x :=
  ⟨_, h.read_eq (Nat.lt_of_lt_of_le hi h.limit_le)⟩

/-- **Every call** keeps a buffer sound, and turns over the block of its slots. -/
theorem run_tends (c : BufferCall α ν) (h : b.Sound align) (n : ν) (host : Host)
    (bounds : host.heap.placement.InBounds) :
    c.run.Tends (fun b => b.slots.base) (Sound align)
      (fun e => Supported α ∧ ValidAlign align → c.Calm → (lifecycle α ν align).Fails b c e) b n
      host := by
  have ⟨w, hholds⟩ := h
  have hforward : ∀ i ∈ Walk.forward b.limit, ∃ x, b.read i = .ok x := fun i hi =>
    hholds.exists_read (Walk.lt_of_mem_forward hi)
  have hbackward : ∀ i ∈ Walk.backward b.limit, ∃ x, b.read i = .ok x := fun i hi =>
    hholds.exists_read (Walk.lt_of_mem_backward hi)
  cases c with
  | step s =>
    apply Hosted.Tends.map
    apply (s.run_performs hholds n host bounds).mono
    · intro _ _ houtcome
      obtain ⟨hsound, hturn, _⟩ := tends_of_outcome houtcome hholds
      exact ⟨hsound, hturn⟩
    · intro e _ houtcome
      obtain ⟨hsound, hturn, hfails⟩ := tends_of_outcome houtcome hholds
      exact ⟨hsound, hturn, hfails e rfl⟩
  | each visitor =>
    refine Hosted.Tends.reading (m := fun b : Buffer α => b.each visitor) h
      (Walk.visit_ends hforward visitor n) ?_
    exact fun _ hraises _ calm => Failure.within_of_calm hraises calm
  | eachReverse visitor =>
    refine Hosted.Tends.reading (m := fun b : Buffer α => b.eachReverse visitor) h
      (Walk.visit_ends hbackward visitor n) ?_
    exact fun _ hraises _ calm => Failure.within_of_calm hraises calm
  | search property =>
    apply Hosted.Tends.map
    refine Hosted.Tends.reading (m := fun b : Buffer α => b.search property) h
      (Walk.find_ends hforward property b.limit n) ?_
    exact fun _ hraises _ calm => Failure.within_of_calm hraises calm
  | list =>
    apply Hosted.Tends.map
    refine Hosted.Tends.asking h fun e he _ _ => ?_
    rw [toList_eq hholds] at he
    cases he

/-- **What a buffer keeps**, whatever is done with it. -/
theorem tended (α ν : Type) [Element α] [LawfulElement α] [Initial α] (align : Nat) :
    (lifecycle α ν align).Tended (Supported α ∧ ValidAlign align) (Sound align) where
  make_ends host _ := by
    show (Prog.ofChecked (empty α align)).Ends host _ _
    cases hempty : Buffer.empty α align with
    | ok b =>
      have hholds := holds_of_empty hempty
      refine Prog.Ends.of_ok rfl ⟨⟨_, hholds⟩, .of_eq ?_ rfl⟩
      exact hholds.ready.base_eq_none hholds.capacity_eq
    | error f =>
      refine Prog.Ends.of_error rfl ⟨.kept _, fun ⟨supported, valid⟩ => ?_⟩
      obtain ⟨b, hb⟩ := exists_empty supported valid
      rw [hempty] at hb
      cases hb
  run_tends c b n host h bounds := run_tends c h n host bounds
  drop_ends b host h := by
    obtain ⟨w, hholds⟩ := h
    apply (onSlots_ends (Slots.release_ends hholds.ready host)).mono
    · exact fun _ _ hreleased => hreleased.2
    · exact fun _ _ ⟨_, _, _, hfalse⟩ => hfalse
  stores_iff b h := by
    obtain ⟨w, hholds⟩ := h
    exact hholds.ready.isSome_base_iff

end Buffer

end AlignedSlots
