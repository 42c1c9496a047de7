import Mathlib
import AlignedSlots.Proofs.Container.Lifecycle
import AlignedSlots.Proofs.Container.SequenceSteps
import AlignedSlots.Proofs.Container.SlotOwnership

/-!
# The lifecycle of a sequence

A call of a sequence is a step, or one of the operations that a list does not say anything new about: the
walks that only read, the search, and the rearrangement of all elements where they lie.
`Sequence.tended` is what every call keeps, how it turns over the block of slots, and how it fails.
-/

namespace AlignedSlots

namespace SequenceStep

variable {α ν : Type}

/-! ## How steps fail -/

/-- The errors that a step answers. -/
def Answers : SequenceStep α ν → ContainerError → Prop
  | push _, e => e = .badAlloc
  | insert _ _, e => e = .badAlloc
  | reserve _, e => e = .badAlloc
  | extend _, e => e = .badAlloc
  | erase _, e => e = .illegalArgument
  | set _ _, e => e = .illegalArgument
  | get _, e => e = .illegalArgument
  | last, e => e = .underflow
  | pop, e => e = .underflow
  | eachInPlace visitor, e => Walk.RaisesInPlace visitor (.error e)
  | clear, _ => False
  | index _, _ => False
  | setIndex _ _, _ => False

/-- The faults that a step stops with on a sequence of a length. -/
def Panics (length : Nat) : SequenceStep α ν → Fault → Prop
  | index i, f => length ≤ i ∧ f = .indexRange i length
  | setIndex i _, f => length ≤ i ∧ f = .indexRange i length
  | _, _ => False

/-- No visitor of the step faults by itself. -/
def Calm : SequenceStep α ν → Prop
  | eachInPlace visitor => ∀ f, ¬ Walk.RaisesInPlace visitor (.fault f)
  | _ => True

/-- The step fails as documented. -/
def Fails (length : Nat) (step : SequenceStep α ν) (e : Failure ContainerError) : Prop :=
  e.Within step.Answers (step.Panics length)

variable {step : SequenceStep α ν} {e e₀ : Failure ContainerError} {s s' : List α × ν}

theorem answerElement_eq_error {x : Option α} (h : answerElement e₀ x s = .error e s') :
    x = none ∧ e = e₀ := by
  cases x with
  | some _ => cases h
  | none =>
    cases h
    exact ⟨rfl, rfl⟩

theorem editAt_eq_error {i : Nat} {f : List α → List α} (h : editAt i e₀ f s = .error e s') :
    s.1.length ≤ i ∧ e = e₀ := by
  have h : (if i < s.1.length then EStateM.Result.ok SequenceAnswer.done (f s.1, s.2)
      else .error e₀ s) = .error e s' := h
  by_cases hi : i < s.1.length
  · rw [if_pos hi] at h
    cases h
  · rw [if_neg hi] at h
    cases h
    exact ⟨Nat.le_of_not_lt hi, rfl⟩

/-- On a list, a step fails as documented. -/
theorem fails_of_onList (h : step.onList s = .error e s') (calm : step.Calm) :
    step.Fails s.1.length e := by
  cases step with
  | push _ => cases h
  | insert _ _ => cases h
  | clear => cases h
  | reserve _ => cases h
  | extend _ => cases h
  | erase i =>
    have h : editAt i (.error .illegalArgument) (fun l => l.eraseIdx i) s = .error e s' := h
    obtain ⟨_, rfl⟩ := editAt_eq_error h
    rfl
  | set i x =>
    have h : editAt i (.error .illegalArgument) (fun l => l.set i x) s = .error e s' := h
    obtain ⟨_, rfl⟩ := editAt_eq_error h
    rfl
  | get i =>
    obtain ⟨_, rfl⟩ := answerElement_eq_error h
    rfl
  | last =>
    obtain ⟨_, rfl⟩ := answerElement_eq_error h
    rfl
  | pop =>
    unfold onList at h
    cases hlast : s.1.getLast? with
    | some _ =>
      simp only [hlast] at h
      cases h
    | none =>
      simp only [hlast] at h
      cases h
      rfl
  | index i =>
    obtain ⟨hnone, rfl⟩ := answerElement_eq_error h
    exact ⟨List.getElem?_eq_none_iff.mp hnone, rfl⟩
  | setIndex i x =>
    have h : editAt i (.fault (.indexRange i s.1.length)) (fun l => l.set i x) s = .error e s' := h
    obtain ⟨hi, rfl⟩ := editAt_eq_error h
    exact ⟨hi, rfl⟩
  | eachInPlace visitor =>
    unfold onList at h
    cases hwalk : Walk.visitList visitor 0 s.1 s.2 with
    | ok _ _ =>
      simp only [hwalk] at h
      cases h
    | error e' t =>
      simp only [hwalk] at h
      cases h
      exact Failure.within_of_calm (Walk.raises_of_visitList hwalk) calm

/-- A step that needs room answers that there is none. -/
theorem answers_badAlloc {length : Nat} (h : 0 < step.demand length) : step.Answers .badAlloc := by
  cases step with
  | push _ => rfl
  | insert _ _ => rfl
  | reserve _ => rfl
  | extend _ => rfl
  | _ => exact (Nat.lt_irrefl 0 h).elim

end SequenceStep

/-! ## Calls -/

/-- A call of a sequence. -/
inductive SequenceCall (α ν : Type) where
  | step (step : SequenceStep α ν)
  | rearrange (f : List α → List α)
  | each (visitor : Nat → α → Prog ContainerError ν Unit)
  | eachReverse (visitor : Nat → α → Prog ContainerError ν Unit)
  | search (property : Nat → α → Prog ContainerError ν Bool)

namespace SequenceCall

variable {α ν : Type}

/-- Runs a call. -/
def run [Element α] : SequenceCall α ν → Hosted ContainerError (Sequence α × ν) Unit
  | step s => (fun _ => ()) <$> s.run
  | rearrange f => Hosted.onObject (Sequence.rearrange f)
  | each visitor => Hosted.reading fun v => v.each visitor
  | eachReverse visitor => Hosted.reading fun v => v.eachReverse visitor
  | search property => (fun _ => ()) <$> Hosted.reading fun v => v.search property

/-- The errors that a call answers. -/
def Answers : SequenceCall α ν → ContainerError → Prop
  | step s, e => s.Answers e
  | rearrange _, _ => False
  | each visitor, e => Walk.Raises visitor (.error e)
  | eachReverse visitor, e => Walk.Raises visitor (.error e)
  | search property, e => Walk.Raises property (.error e)

/-- The faults that a call stops with on a sequence of a length. -/
def Panics (length : Nat) : SequenceCall α ν → Fault → Prop
  | step s, f => s.Panics length f
  | _, _ => False

/-- No visitor of the call faults by itself. -/
def Calm : SequenceCall α ν → Prop
  | step s => s.Calm
  | rearrange _ => True
  | each visitor => ∀ f, ¬ Walk.Raises visitor (.fault f)
  | eachReverse visitor => ∀ f, ¬ Walk.Raises visitor (.fault f)
  | search property => ∀ f, ¬ Walk.Raises property (.fault f)

end SequenceCall

namespace Sequence

/-- Sequences, as they are seen from the heap. -/
def lifecycle (α ν : Type) [Element α] : Lifecycle where
  Object := Sequence α
  Visitors := ν
  Call := SequenceCall α ν
  Error := ContainerError
  make := Prog.ofChecked (empty α)
  run := SequenceCall.run
  drop := drop
  owned v := v.slots.base
  Stores v := v.capacity ≠ 0
  MakeAnswers _ := False
  Answers := SequenceCall.Answers
  Panics v c := c.Panics v.length
  Calm := SequenceCall.Calm

variable {α ν : Type} [Element α] {v v' : Sequence α}

/-- A new sequence owns nothing. -/
theorem base_of_empty (h : Sequence.empty α = .ok v) : v.slots.base = none := by
  unfold Sequence.empty at h
  cases hstride : Slots.strideOf (Element.size α) (Element.align α) with
  | error e =>
    rw [hstride] at h
    cases h
  | ok stride =>
    rw [hstride] at h
    cases h
    rfl

variable [LawfulElement α]

theorem validAlign_blockAlign (h : Supported α) : ValidAlign (blockAlign α) := by
  unfold blockAlign
  by_cases hlarge : addressAlign < Element.align α
  · rw [if_pos hlarge]
    exact h.validAlign
  · rw [if_neg hlarge]
    decide

/-- A sequence of supported elements can be made. -/
theorem exists_empty (h : Supported α) : ∃ v, Sequence.empty α = .ok v := by
  unfold Sequence.empty
  rw [Slots.strideOf_eq_ok h.size_lt h.validAlign]
  exact ⟨_, rfl⟩

/-! ## What a call does -/

/-- A step that has ended. -/
theorem tends_of_outcome {step : SequenceStep α ν} {n n' : ν} {heap heap' : Heap}
    {answer : Except (Failure ContainerError) (SequenceAnswer α)}
    (h : SequenceStep.Outcome step v n heap answer (v', n') heap') (hsound : v.Sound) :
    v'.Sound ∧ Turnover heap v.slots.base v'.slots.base heap' ∧
      ∀ e, answer = .error e → Supported α → step.Calm → step.Fails v.length e := by
  cases h with
  | answered _ hgrown hrewritten =>
    refine ⟨hrewritten.sound, ?_, nofun⟩
    rw [hrewritten.place.base_eq]
    exact hgrown.reserved.turnover
  | failed hlist hrewritten _ _ =>
    refine ⟨hrewritten.sound, .of_eq hrewritten.place.base_eq rfl, ?_⟩
    rintro e ⟨⟩ _ calm
    rw [← length_toList]
    exact SequenceStep.fails_of_onList hlist calm
  | denied hdenied =>
    -- A supported alignment passes the assertion of the allocator, so the heap has refused.
    have hlt : v.slots.capacity < step.demand v.length := hdenied.1
    obtain ⟨_, _, hslots⟩ := hdenied.2
    refine ⟨hsound, hslots.turnover, ?_⟩
    rintro e ⟨⟩ supported _
    have hvalid : ValidAlign v.slots.align := hsound.align_eq ▸ validAlign_blockAlign supported
    rcases hdenied.cases with rfl | ⟨hinvalid, _⟩
    · exact SequenceStep.answers_badAlloc (Nat.zero_lt_of_lt hlt)
    · exact absurd hvalid hinvalid

/-- **Every call** keeps a sequence sound, and turns over the block of its slots. -/
theorem run_tends (c : SequenceCall α ν) (h : v.Sound) (n : ν) (host : Host)
    (bounds : host.heap.placement.InBounds) :
    c.run.Tends (fun v => v.slots.base) Sound
      (fun e => Supported α → c.Calm → (lifecycle α ν).Fails v c e) v n host := by
  cases c with
  | step s =>
    apply Hosted.Tends.map
    apply (s.run_performs h n host bounds).mono
    · intro _ _ houtcome
      obtain ⟨hsound, hturn, _⟩ := tends_of_outcome houtcome h
      exact ⟨hsound, hturn⟩
    · intro e _ houtcome
      obtain ⟨hsound, hturn, hfails⟩ := tends_of_outcome houtcome h
      exact ⟨hsound, hturn, hfails e rfl⟩
  | rearrange f =>
    refine Hosted.Tends.onObject (m := rearrange f) ?_
    apply (rearrange_ends h f host).mono
    · rintro _ ⟨_, _⟩ ⟨hsound, hplace, rfl⟩
      exact ⟨hsound, .of_eq hplace.base_eq rfl⟩
    · exact fun _ _ hfalse => hfalse.elim
  | each visitor =>
    refine Hosted.Tends.reading (m := fun v => v.each visitor) h
      (Walk.visit_ends (fun i _ => ⟨v.peek i, rfl⟩) visitor n) ?_
    exact fun _ hraises _ calm => Failure.within_of_calm hraises calm
  | eachReverse visitor =>
    refine Hosted.Tends.reading (m := fun v => v.eachReverse visitor) h
      (Walk.visit_ends (fun i _ => ⟨v.peek i, rfl⟩) visitor n) ?_
    exact fun _ hraises _ calm => Failure.within_of_calm hraises calm
  | search property =>
    apply Hosted.Tends.map
    refine Hosted.Tends.reading (m := fun v => v.search property) h
      (Walk.find_ends (fun i _ => ⟨v.peek i, rfl⟩) property v.length n) ?_
    exact fun _ hraises _ calm => Failure.within_of_calm hraises calm

/-- **What a sequence keeps**, whatever is done with it. -/
theorem tended (α ν : Type) [Element α] [LawfulElement α] :
    (lifecycle α ν).Tended (Supported α) Sound where
  make_ends host _ := by
    show (Prog.ofChecked (empty α)).Ends host _ _
    cases hempty : Sequence.empty α with
    | ok v =>
      refine Prog.Ends.of_ok rfl ⟨(sound_of_empty hempty).1, .of_eq ?_ rfl⟩
      exact base_of_empty hempty
    | error f =>
      refine Prog.Ends.of_error rfl ⟨.kept _, fun supported => ?_⟩
      obtain ⟨v, hv⟩ := exists_empty supported
      rw [hempty] at hv
      cases hv
  run_tends c v n host h bounds := run_tends c h n host bounds
  drop_ends v host h := by
    apply (onSlots_ends (Slots.release_ends h.ready host)).mono
    · exact fun _ _ hreleased => hreleased.2
    · exact fun _ _ ⟨_, _, _, hfalse⟩ => hfalse
  stores_iff v h := h.ready.isSome_base_iff

end Sequence

end AlignedSlots
