import Mathlib
import AlignedSlots.Proofs.Container.SequenceSteps

/-!
# Runs of a sequence

`Sequence.session_refines_list`: after any run of steps from a new sequence, with a heap that may refuse
any request, the answers and the elements are those of a list.  Growths that are denied change nothing,
and neither does any other step that fails, except for a walk in place: a visitor that fails has changed
the elements that it was given, and these changes are kept.
-/

namespace AlignedSlots

/-- What a growth that is denied answers: the error of the allocator, or its assertion where the
alignment of the elements is not supported. -/
def GrowthFailure (α : Type) [Element α] (e : Failure ContainerError) : Prop :=
  e = .error .badAlloc ∨ ¬ ValidAlign (Sequence.blockAlign α) ∧
    e = .fault (.blockAlignment (Sequence.blockAlign α) greatestAlign)

/-- A run of steps on a list, with the state of the visitors.  Every step answers what it answers on the
list, or is refused the room that it needs, and then leaves the list as it is. -/
inductive ListRun {α ν : Type} [Element α] : List α × ν →
    List (Prog.Record ContainerError (SequenceStep α ν) (SequenceAnswer α)) → List α × ν → Prop
  | nil (s : List α × ν) : ListRun s [] s
  | answered {s t : List α × ν}
      {rest : List (Prog.Record ContainerError (SequenceStep α ν) (SequenceAnswer α))}
      (step : SequenceStep α ν) :
      ListRun (step.onList.after s) rest t → ListRun s ((step, step.onList.answer s) :: rest) t
  | refused {s t : List α × ν} {step : SequenceStep α ν} {e : Failure ContainerError}
      {rest : List (Prog.Record ContainerError (SequenceStep α ν) (SequenceAnswer α))} :
      0 < step.demand s.1.length → GrowthFailure α e →
      ListRun s rest t → ListRun s ((step, .error e) :: rest) t

namespace SequenceStep

variable {α ν : Type} [Element α] {step : SequenceStep α ν} {v : Sequence α} {n : ν} {host : Host}
  {heap heap' : Heap} {r : Except (Failure ContainerError) (SequenceAnswer α)}
  {s : Sequence α × ν}

/-! ## What a step leaves -/

theorem Outcome.placement_eq (h : Outcome step v n heap r s heap') :
    heap'.placement = heap.placement := by
  cases h with
  | answered _ hgrown _ => exact hgrown.reserved.placement_eq
  | failed _ _ _ _ => rfl
  | denied hdenied =>
    obtain ⟨_, _, _, hdenied⟩ := hdenied
    exact hdenied.placement_eq

theorem Outcome.sound (houtcome : Outcome step v n heap r s heap') (h : v.Sound) : s.1.Sound := by
  cases houtcome with
  | answered _ _ hrewritten => exact hrewritten.sound
  | failed _ hrewritten _ _ => exact hrewritten.sound
  | denied _ => exact h

/-- The step of a sequence is a step of the list. -/
theorem Outcome.listRun (houtcome : Outcome step v n heap r s heap') (h : v.Sound) {t : List α × ν}
    {rest : List (Prog.Record ContainerError (SequenceStep α ν) (SequenceAnswer α))}
    (hrest : ListRun (s.1.toList, s.2) rest t) : ListRun (v.toList, n) ((step, r) :: rest) t := by
  cases houtcome with
  | answered hlist _ hrewritten =>
    rw [← Prog.answer_of_ok hlist]
    apply ListRun.answered
    rw [Prog.after_of_ok hlist, ← hrewritten.toList_eq]
    exact hrest
  | failed hlist hrewritten _ _ =>
    rw [← Prog.answer_of_error hlist]
    apply ListRun.answered
    rw [Prog.after_of_error hlist, ← hrewritten.toList_eq]
    exact hrest
  | denied hdenied =>
    have hdemand : 0 < step.demand v.toList.length := by
      rw [Sequence.length_toList]
      exact Nat.zero_lt_of_lt hdenied.1
    have hrefusal : GrowthFailure α _ := h.align_eq ▸ hdenied.cases
    exact .refused hdemand hrefusal hrest

/-- A step that has failed, on a sequence in `s`, and left it as in `s'`. -/
structure Failed (step : SequenceStep α ν) (s s' : (Sequence α × ν) × Host)
    (e : Failure ContainerError) : Prop where
  /-- The step fails on the list as well, or there is no room and none can be made. -/
  cause : step.onList.answer (s.1.1.toList, s.1.2) = .error e ∨
    s.1.1.Denied (step.demand s.1.1.length) s.2.heap s'.2.heap e
  length_eq : s'.1.1.length = s.1.1.length
  capacity_eq : s'.1.1.capacity = s.1.1.capacity
  address_eq : s'.1.1.address = s.1.1.address
  /-- Only a walk in place changes the elements before it fails. -/
  unchanged : (∀ visitor, step ≠ .eachInPlace visitor) → s'.1 = s.1

theorem Outcome.failure {e : Failure ContainerError} {host' : Host}
    (h : Outcome step v n host.heap (.error e) s host'.heap) :
    Failed step ((v, n), host) (s, host') e := by
  generalize hheap : host'.heap = heap' at h
  cases h with
  | failed hlist hrewritten hlength hchanged =>
    refine ⟨.inl (Prog.answer_of_error hlist), hlength, hrewritten.place.capacity_eq,
      hrewritten.place.address_eq, fun hwalk => ?_⟩
    rcases hchanged with ⟨visitor, hvisit⟩ | heq
    · exact absurd hvisit (hwalk visitor)
    · exact heq
  | denied hdenied => exact ⟨.inr (hheap ▸ hdenied), rfl, rfl, rfl, fun _ => rfl⟩

variable [LawfulElement α]

theorem run_outcome (step : SequenceStep α ν) (h : v.Sound) (n : ν) (host : Host)
    (bounds : host.heap.placement.InBounds) :
    Outcome step v n host.heap (step.run.answer ((v, n), host)) (step.run.after ((v, n), host)).1
      (step.run.after ((v, n), host)).2.heap := by
  rcases Prog.Ends.cases (run_performs step h n host bounds) with
    ⟨a, hanswer, houtcome⟩ | ⟨e, hanswer, houtcome⟩
  · rw [hanswer]
    exact houtcome
  · rw [hanswer]
    exact houtcome

/-- A run from a sound sequence is a run of the list of its elements. -/
theorem session_listRun (steps : List (SequenceStep α ν)) (h : v.Sound) (n : ν)
    (bounds : host.heap.placement.InBounds) :
    ∃ records v' m host', Prog.session run steps ((v, n), host) = (records, (v', m), host') ∧
      ListRun (v.toList, n) records (v'.toList, m) ∧ v'.Sound ∧ host'.heap.placement.InBounds := by
  induction steps generalizing v n host with
  | nil => exact ⟨[], v, n, host, rfl, .nil _, h, bounds⟩
  | cons step rest ih =>
    have houtcome := run_outcome step h n host bounds
    have hbounds : (step.run.after ((v, n), host)).2.heap.placement.InBounds :=
      houtcome.placement_eq ▸ bounds
    obtain ⟨records, v', m, host', hrest, hrun, hsound, hbounds'⟩ := ih (houtcome.sound h) _ hbounds
    refine ⟨(step, step.run.answer ((v, n), host)) :: records, v', m, host', ?_,
      houtcome.listRun h hrun, hsound, hbounds'⟩
    rw [Prog.session_cons, hrest]

end SequenceStep

namespace Sequence

variable {α ν : Type} [Element α] {v : Sequence α} {host : Host}

/-- What a sequence with the elements of a list answers to every read. -/
structure Shows (v : Sequence α) (l : List α) : Prop where
  toList_eq : v.toList = l
  length_eq : v.length = l.length
  length_le : v.length ≤ v.capacity
  get_eq : ∀ i, v.get i = found (.error .illegalArgument) l[i]?
  index_eq : ∀ i, v.index i = found (.fault (.indexRange i l.length)) l[i]?
  peek_eq : ∀ i (h : i < l.length), v.peek i = l[i]

variable [LawfulElement α]

theorem Sound.shows (h : v.Sound) : v.Shows v.toList := by
  have hlength : v.length = v.toList.length := (length_toList v).symm
  refine ⟨rfl, hlength, h.length_le, get_eq h, fun i => ?_, fun i hi => ?_⟩
  · rw [← hlength]
    exact index_eq h i
  · simp only [toList, List.getElem_map, List.getElem_range]

/-- **A sequence is a list**: after any run of steps from a new one, every answer is explained by the
list and every read shows it.  A step that fails next leaves the sequence as it is, apart from a walk in
place, which leaves it where it is and keeps what the visitor has changed. -/
theorem session_refines_list (hempty : Sequence.empty α = .ok v)
    (bounds : host.heap.placement.InBounds) (n : ν) (steps : List (SequenceStep α ν)) :
    ∃ records s l, Prog.session SequenceStep.run steps ((v, n), host) = (records, s) ∧
      ListRun ([], n) records (l, s.1.2) ∧ s.1.1.Shows l ∧
      ∀ (step : SequenceStep α ν) (e : Failure ContainerError), step.run.answer s = .error e →
        SequenceStep.Failed step s (step.run.after s) e := by
  obtain ⟨hsound, hnil⟩ := sound_of_empty hempty
  obtain ⟨records, v', m, host', hsession, hrun, hsound', hbounds⟩ :=
    SequenceStep.session_listRun steps hsound n bounds
  rw [hnil] at hrun
  refine ⟨records, ((v', m), host'), v'.toList, hsession, hrun, hsound'.shows, ?_⟩
  intro step e he
  have houtcome := SequenceStep.run_outcome step hsound' m host' hbounds
  rw [he] at houtcome
  exact houtcome.failure

/-- Two elements are put in and one is taken away, after a position past the end was refused. -/
theorem session_refines_list_int :
    ∃ (v : Sequence (FixedInt ⟨32, true⟩)) (s : (Sequence (FixedInt ⟨32, true⟩) × Unit) × Host),
      Sequence.empty (FixedInt ⟨32, true⟩) = .ok v ∧ Host.ordinary.heap.placement.InBounds ∧
      (Prog.session SequenceStep.run
        [.push (.ofInt _ 1), .insert 9 (.ofInt _ 2), .erase 2, .erase 0] ((v, ()), Host.ordinary)).2 =
          s ∧ s.1.1.Shows [.ofInt _ 2] := by
  let steps : List (SequenceStep (FixedInt ⟨32, true⟩) Unit) :=
    [.push (.ofInt _ 1), .insert 9 (.ofInt _ 2), .erase 2, .erase 0]
  have hempty : Sequence.empty (FixedInt ⟨32, true⟩) = .ok ⟨Slots.empty 4 8, 0⟩ := rfl
  obtain ⟨records, s, l, hsession, _, hshows, _⟩ :=
    session_refines_list hempty Host.ordinary_sound.inBounds () steps
  have hlist : (Prog.session SequenceStep.run steps
      ((⟨Slots.empty 4 8, 0⟩, ()), Host.ordinary)).2.1.1.toList = [.ofInt _ 2] := by decide +kernel
  rw [hsession, hshows.toList_eq] at hlist
  exact ⟨_, s, hempty, Host.ordinary_sound.inBounds, by rw [hsession], hlist ▸ hshows⟩

/-- A visitor that changes an element and then fails: the walk answers an error, and the sequence is not
as it was. -/
theorem failed_walk_changes_elements :
    ∃ (v : Sequence (FixedInt ⟨32, true⟩)) (s : (Sequence (FixedInt ⟨32, true⟩) × Unit) × Host)
      (visitor : Nat → Prog ContainerError (FixedInt ⟨32, true⟩ × Unit) Unit),
      Sequence.empty (FixedInt ⟨32, true⟩) = .ok v ∧
      (Prog.session SequenceStep.run [.push (.ofInt _ 1)] ((v, ()), Host.ordinary)).2 = s ∧
      (SequenceStep.eachInPlace visitor).run.answer s = .error (.error .illegalArgument) ∧
      s.1.1.toList = [.ofInt _ 1] ∧
      ((SequenceStep.eachInPlace visitor).run.after s).1.1.toList = [.ofInt _ 7] :=
  ⟨⟨Slots.empty 4 8, 0⟩, _, fun _ s => .error (.error .illegalArgument) (.ofInt _ 7, s.2), rfl, rfl,
    rfl, by decide +kernel, by decide +kernel⟩

end Sequence

end AlignedSlots
