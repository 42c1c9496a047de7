import Mathlib
import AlignedSlots.Proofs.Container.BufferSteps

/-!
# Runs of a buffer

`Buffer.session_refines_window`: after any run of steps from a new buffer, with a heap that may refuse
any request, the answers and the slots are those of a window.  Hidden slots keep what they hold over any
number of growths and show it again, a step changes no slot that it does not write to, and a growth that
is denied changes nothing at all.
-/

namespace AlignedSlots

/-- A run of steps on a window, with the state of the visitors.  Every step answers what it answers on
the window, or is refused the room that the window lacks, and then leaves the window as it is. -/
inductive WindowRun {α ν : Type} [Element α] [Initial α] (align : Nat) : Window α × ν →
    List (Prog.Record ContainerError (BufferStep α ν) (BufferAnswer α)) → Window α × ν → Prop
  | nil (s : Window α × ν) : WindowRun align s [] s
  | answered {s t : Window α × ν}
      {rest : List (Prog.Record ContainerError (BufferStep α ν) (BufferAnswer α))}
      (step : BufferStep α ν) : WindowRun align (step.onWindow.after s) rest t →
      WindowRun align s ((step, step.onWindow.answer s) :: rest) t
  | refused {s t : Window α × ν} {step : BufferStep α ν} {e : Failure ContainerError}
      {rest : List (Prog.Record ContainerError (BufferStep α ν) (BufferAnswer α))} :
      s.1.slots.length < step.demand s.1.limit → Buffer.GrowthFailure align e →
      WindowRun align s rest t → WindowRun align s ((step, .error e) :: rest) t

namespace BufferStep

variable {α ν : Type} {step : BufferStep α ν} {w : Window α} {i : Nat}

/-! ## Steps on windows -/

theorem getElem?_answerElement {e : ContainerError} {w' : Window α} {x : Option α}
    (hkept : ∀ y, x = some y → w'.slots[i]? = w.slots[i]?) (n : ν) :
    ((answerElement e w' x).after (w, n)).1.slots[i]? = w.slots[i]? := by
  cases x with
  | none => rfl
  | some y => exact hkept y rfl

theorem answer_answerElement {e : ContainerError} {w' : Window α} {x : Option α} (n : ν) :
    (answerElement e w' x).answer (w, n) = .error (.error e) ↔ x = none := by
  cases x with
  | none => exact iff_of_true rfl rfl
  | some y => exact iff_of_false nofun nofun

section Frame

variable [Element α] [Initial α]

/-- **No other slot** of a window is changed by a step. -/
theorem getElem?_onWindow (hi : i < w.slots.length) (hwrites : ¬ step.Writes w.limit i) (n : ν) :
    (step.onWindow.after (w, n)).1.slots[i]? = w.slots[i]? := by
  -- Making room moves no slot, so only the steps that put something into a slot need an argument.
  cases step with
  | reserve capacity => exact w.getElem?_reserve_of_lt hi
  | emplace => exact w.getElem?_reserve_of_lt hi
  | push x =>
    show ((w.reserve (w.limit + 1)).slots.set w.limit x)[i]? = _
    rw [List.getElem?_set_ne (Ne.symm hwrites)]
    exact w.getElem?_reserve_of_lt hi
  | setLimit limit => rfl
  | clear => rfl
  | get j => exact getElem?_answerElement (fun _ _ => rfl) n
  | last => exact getElem?_answerElement (fun _ _ => rfl) n
  | replace j x =>
    exact getElem?_answerElement (fun _ _ => List.getElem?_set_ne (Ne.symm hwrites)) n
  | replaceLast x =>
    refine getElem?_answerElement (fun y hlast => ?_) n
    have hpos : 0 < w.visible.length := by
      refine List.length_pos_iff.mpr fun hnil => ?_
      rw [hnil] at hlast
      cases hlast
    have hother : ¬ i + 1 = w.limit := hwrites
    rw [w.length_visible] at hpos
    exact List.getElem?_set_ne (by omega)
  | fillSlot j value =>
    by_cases hj : j < w.limit
    · have hrun : (fillSlot j value : BufferStep α ν).onWindow (w, n) =
          .ok .done (w.set j (Slots.uniform α value), n) := if_pos hj
      rw [Prog.after_of_ok hrun]
      exact List.getElem?_set_ne (Ne.symm hwrites)
    · have hrun : (fillSlot j value : BufferStep α ν).onWindow (w, n) =
          .error (.error .overflow) (w, n) := if_neg hj
      rw [Prog.after_of_error hrun]
  | eachInPlace visitor =>
    have hout : w.limit ≤ i := Nat.le_of_not_lt hwrites
    obtain ⟨hok, herror⟩ := Walk.length_visitList visitor 0 w.visible n
    cases hwalk : Walk.visitList visitor 0 w.visible n with
    | ok _ t =>
      have hrun : (eachInPlace visitor).onWindow (w, n) = .ok .done (w.overwrite t.1, t.2) := by
        simp only [onWindow, hwalk]
      rw [Prog.after_of_ok hrun]
      exact w.getElem?_overwrite_of_le (hok _ _ hwalk) hout
    | error e t =>
      have hrun : (eachInPlace visitor).onWindow (w, n) = .error e (w.overwrite t.1, t.2) := by
        simp only [onWindow, hwalk]
      rw [Prog.after_of_error hrun]
      exact w.getElem?_overwrite_of_le (herror _ _ _ hwalk) hout

/-- A slot at or past the limit is out of reach, and no other one. -/
theorem At.answer_onWindow (h : step.At i) (n : ν) :
    step.onWindow.answer (w, n) = .error (.error .overflow) ↔ w.limit ≤ i := by
  have hnone : w.visible[i]? = none ↔ w.limit ≤ i := by
    rw [List.getElem?_eq_none_iff, w.length_visible]
  cases step with
  | get j =>
    cases h
    exact (answer_answerElement n).trans hnone
  | replace j x =>
    cases h
    exact (answer_answerElement n).trans hnone
  | fillSlot j value =>
    cases h
    by_cases hi : i < w.limit
    · have hrun : (fillSlot i value : BufferStep α ν).onWindow (w, n) =
          .ok .done (w.set i (Slots.uniform α value), n) := if_pos hi
      rw [Prog.answer_of_ok hrun]
      exact iff_of_false nofun (Nat.not_le.mpr hi)
    · have hrun : (fillSlot i value : BufferStep α ν).onWindow (w, n) =
          .error (.error .overflow) (w, n) := if_neg hi
      rw [Prog.answer_of_error hrun]
      exact iff_of_true rfl (Nat.le_of_not_lt hi)
  | _ => exact h.elim

/-- There is no last slot where none is visible. -/
theorem AtLast.answer_onWindow (h : step.AtLast) (n : ν) :
    step.onWindow.answer (w, n) = .error (.error .underflow) ↔ w.limit = 0 := by
  have hnone : w.visible.getLast? = none ↔ w.limit = 0 := by
    rw [List.getLast?_eq_none_iff, ← List.length_eq_zero_iff, w.length_visible]
  cases step with
  | last => exact (answer_answerElement n).trans hnone
  | replaceLast x => exact (answer_answerElement n).trans hnone
  | _ => exact h.elim

end Frame

/-! ## What a step leaves -/

section Left

variable [Element α] [Initial α] {align : Nat} {b : Buffer α} {n : ν} {host : Host}
  {heap heap' : Heap} {s : Buffer α × ν} {r : Except (Failure ContainerError) (BufferAnswer α)}

theorem Outcome.placement_eq (h : Outcome align step b w n heap r s heap') :
    heap'.placement = heap.placement := by
  cases h with
  | answered _ _ hgrown => exact hgrown.placement_eq
  | failed _ _ _ _ => rfl
  | denied hdenied =>
    obtain ⟨_, _, _, hdenied⟩ := hdenied
    exact hdenied.placement_eq

/-- The step of a buffer is a step of the window that it holds. -/
theorem Outcome.exists_window (houtcome : Outcome align step b w n heap r s heap')
    (h : b.Holds align w) :
    ∃ w', s.1.Holds align w' ∧
      (∀ i < w.slots.length, ¬ step.Writes w.limit i → w'.slots[i]? = w.slots[i]?) ∧
      ∀ rest t, WindowRun align (w', s.2) rest t → WindowRun align (w, n) ((step, r) :: rest) t := by
  cases houtcome with
  | answered hwindow hholds _ =>
    refine ⟨_, hholds, fun i hi hwrites => ?_, fun rest t hrest => ?_⟩
    · rw [← getElem?_onWindow hi hwrites n, Prog.after_of_ok hwindow]
    · rw [← Prog.answer_of_ok hwindow]
      exact .answered step (by rwa [Prog.after_of_ok hwindow])
  | failed hwindow hholds _ _ _ =>
    refine ⟨_, hholds, fun i hi hwrites => ?_, fun rest t hrest => ?_⟩
    · rw [← getElem?_onWindow hi hwrites n, Prog.after_of_error hwindow]
    · rw [← Prog.answer_of_error hwindow]
      exact .answered step (by rwa [Prog.after_of_error hwindow])
  | denied hdenied =>
    refine ⟨w, h, fun _ _ _ => rfl, fun rest t hrest => ?_⟩
    exact .refused (h.capacity_eq ▸ hdenied.1) (h.align_eq ▸ hdenied.failure) hrest

/-- A step that needs no room answers what it answers on the window. -/
theorem Outcome.answer_eq (houtcome : Outcome align step b w n heap r s heap')
    (hdemand : step.demand w.limit = 0) : r = step.onWindow.answer (w, n) := by
  cases houtcome with
  | answered hwindow _ _ => exact (Prog.answer_of_ok hwindow).symm
  | failed hwindow _ _ _ _ => exact (Prog.answer_of_error hwindow).symm
  | denied hdenied => exact absurd (hdemand ▸ hdenied.1) (Nat.not_lt_zero _)

/-- A step that has failed, on a buffer in `s` that holds a window, and left it as in `s'`. -/
structure Failed (step : BufferStep α ν) (w : Window α) (s s' : (Buffer α × ν) × Host)
    (e : Failure ContainerError) : Prop where
  /-- The step fails on the window as well, or there is no room and none can be made. -/
  cause : step.onWindow.answer (w, s.1.2) = .error e ∨
    s.1.1.Denied (step.demand w.limit) s.2.heap s'.2.heap e
  limit_eq : s'.1.1.limit = s.1.1.limit
  capacity_eq : s'.1.1.capacity = s.1.1.capacity
  address_eq : s'.1.1.address = s.1.1.address
  /-- Only a walk in place changes slots before it fails. -/
  unchanged : (∀ visitor, step ≠ .eachInPlace visitor) → s'.1 = s.1

theorem Outcome.failure {e : Failure ContainerError} {host' : Host}
    (h : Outcome align step b w n host.heap (.error e) s host'.heap) :
    Failed step w ((b, n), host) (s, host') e := by
  generalize hheap : host'.heap = heap' at h
  cases h with
  | failed hwindow _ hplace hlimit hchanged =>
    refine ⟨.inl (Prog.answer_of_error hwindow), hlimit, hplace.capacity_eq, hplace.address_eq,
      fun hwalk => ?_⟩
    rcases hchanged with ⟨visitor, hvisit⟩ | heq
    · exact absurd hvisit (hwalk visitor)
    · exact heq
  | denied hdenied => exact ⟨.inr (hheap ▸ hdenied), rfl, rfl, rfl, fun _ => rfl⟩

variable [LawfulElement α]

theorem run_outcome (step : BufferStep α ν) (h : b.Holds align w) (n : ν) (host : Host)
    (bounds : host.heap.placement.InBounds) :
    Outcome align step b w n host.heap (step.run.answer ((b, n), host))
      (step.run.after ((b, n), host)).1 (step.run.after ((b, n), host)).2.heap := by
  rcases Prog.Ends.cases (run_performs step h n host bounds) with
    ⟨a, hanswer, houtcome⟩ | ⟨e, hanswer, houtcome⟩
  · rw [hanswer]
    exact houtcome
  · rw [hanswer]
    exact houtcome

/-- A run from a buffer that holds a window is a run of the window. -/
theorem session_windowRun (steps : List (BufferStep α ν)) (h : b.Holds align w) (n : ν)
    (bounds : host.heap.placement.InBounds) :
    ∃ records b' w' m host',
      Prog.session run steps ((b, n), host) = (records, (b', m), host') ∧
      WindowRun align (w, n) records (w', m) ∧ b'.Holds align w' ∧
      host'.heap.placement.InBounds := by
  -- The buffer holds a window after each step, and the rest of the run is one of that window.
  induction steps generalizing b w n host with
  | nil => exact ⟨[], b, w, n, host, rfl, .nil _, h, bounds⟩
  | cons step rest ih =>
    have houtcome := run_outcome step h n host bounds
    have hbounds : (step.run.after ((b, n), host)).2.heap.placement.InBounds :=
      houtcome.placement_eq ▸ bounds
    obtain ⟨w₁, hholds, _, hstep⟩ := houtcome.exists_window h
    obtain ⟨records, b', w', m, host', hrest, hrun, hholds', hbounds'⟩ := ih hholds _ hbounds
    refine ⟨(step, step.run.answer ((b, n), host)) :: records, b', w', m, host', ?_,
      hstep _ _ hrun, hholds', hbounds'⟩
    rw [Prog.session_cons, hrest]

end Left

end BufferStep

namespace Buffer

variable {α ν : Type} [Element α] {align : Nat} {b : Buffer α} {w : Window α} {host : Host}

/-- What a buffer that holds a window answers to every read. -/
structure Shows (b : Buffer α) (w : Window α) : Prop where
  capacity_eq : b.capacity = w.slots.length
  limit_eq : b.limit = w.limit
  /-- Hidden slots included. -/
  read_eq : ∀ i (h : i < w.slots.length), b.read i = .ok w.slots[i]
  get_eq : ∀ i, b.get i = found .overflow w.visible[i]?
  last_eq : b.last = found .underflow w.visible.getLast?
  toList_eq : b.toList = .ok w.visible

variable [LawfulElement α]

theorem Holds.shows (h : b.Holds align w) : b.Shows w :=
  ⟨h.capacity_eq, h.limit_eq, fun _ hi => h.read_of_getElem? (List.getElem?_eq_getElem hi), get_eq h,
    last_eq h, toList_eq h⟩

variable [Initial α]

/-- **A buffer is a window**: after any run of steps from a new one, every answer is explained by the
window and every read shows it.  A step that comes next fails at a slot exactly where the limit says so,
changes no slot that it does not write to, and where it fails it leaves the buffer as it is, apart from a
walk in place, which keeps what the visitor has changed. -/
theorem session_refines_window (hempty : Buffer.empty α align = .ok b)
    (bounds : host.heap.placement.InBounds) (n : ν) (steps : List (BufferStep α ν)) :
    ∃ records s w, Prog.session BufferStep.run steps ((b, n), host) = (records, s) ∧
      WindowRun (max align (Element.align α)) (Window.empty, n) records (w, s.1.2) ∧
      s.1.1.Shows w ∧ ∀ step : BufferStep α ν,
        (∀ i, step.At i →
          (step.run.answer s = .error (.error .overflow) ↔ w.limit ≤ i)) ∧
        (step.AtLast → (step.run.answer s = .error (.error .underflow) ↔ w.limit = 0)) ∧
        (∀ i < w.slots.length, ¬ step.Writes w.limit i →
          (step.run.after s).1.1.read i = s.1.1.read i) ∧
        ∀ e, step.run.answer s = .error e → BufferStep.Failed step w s (step.run.after s) e := by
  obtain ⟨records, b', w, m, host', hsession, hrun, hholds, hbounds⟩ :=
    BufferStep.session_windowRun steps (holds_of_empty hempty) n bounds
  refine ⟨records, ((b', m), host'), w, hsession, hrun, hholds.shows, fun step => ?_⟩
  have houtcome := BufferStep.run_outcome step hholds m host' hbounds
  refine ⟨fun i hat => ?_, fun hat => ?_, fun i hi hwrites => ?_, fun e he => ?_⟩
  · rw [houtcome.answer_eq (hat.demand_eq_zero _), hat.answer_onWindow]
  · rw [houtcome.answer_eq (hat.demand_eq_zero _), hat.answer_onWindow]
  · obtain ⟨w', hholds', hkept, _⟩ := houtcome.exists_window hholds
    have hslot := List.getElem?_eq_getElem hi
    rw [hholds'.read_of_getElem? ((hkept i hi hwrites).trans hslot)]
    exact (hholds.read_of_getElem? hslot).symm
  · rw [he] at houtcome
    exact houtcome.failure

/-- Two elements are put in and the second one is hidden.  It stays through a growth, and is shown again
behind the first one. -/
theorem session_refines_window_hidden :
    ∃ (b : Buffer (FixedInt ⟨32, true⟩)) (s : (Buffer (FixedInt ⟨32, true⟩) × Unit) × Host)
      (w : Window (FixedInt ⟨32, true⟩)),
      Buffer.empty (FixedInt ⟨32, true⟩) 16 = .ok b ∧ Host.ordinary.heap.placement.InBounds ∧
      (Prog.session BufferStep.run
        [.push (.ofInt _ 1), .push (.ofInt _ 2), .setLimit 1, .reserve 9, .emplace]
        ((b, ()), Host.ordinary)).2 = s ∧
      s.1.1.Shows w ∧ w.visible = [.ofInt _ 1, .ofInt _ 2] ∧ w.slots.length = 14 := by
  let steps : List (BufferStep (FixedInt ⟨32, true⟩) Unit) :=
    [.push (.ofInt _ 1), .push (.ofInt _ 2), .setLimit 1, .reserve 9, .emplace]
  have hempty : Buffer.empty (FixedInt ⟨32, true⟩) 16 = .ok ⟨Slots.empty 16 16, 0⟩ := rfl
  obtain ⟨records, s, w, hsession, _, hshows, _⟩ :=
    session_refines_window hempty Host.ordinary_sound.inBounds () steps
  have hlist : (Prog.session BufferStep.run steps
      ((⟨Slots.empty 16 16, 0⟩, ()), Host.ordinary)).2.1.1.toList =
      .ok [.ofInt _ 1, .ofInt _ 2] := by decide +kernel
  have hcapacity : (Prog.session BufferStep.run steps
      ((⟨Slots.empty 16 16, 0⟩, ()), Host.ordinary)).2.1.1.capacity = 14 := by decide +kernel
  rw [hsession, hshows.toList_eq, Except.ok.injEq] at hlist
  rw [hsession, hshows.capacity_eq] at hcapacity
  exact ⟨_, s, w, hempty, Host.ordinary_sound.inBounds, by rw [hsession], hshows, hlist, hcapacity⟩

end Buffer

end AlignedSlots
