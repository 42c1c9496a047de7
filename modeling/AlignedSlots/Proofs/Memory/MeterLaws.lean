import Mathlib
import AlignedSlots.Memory.Metered
import AlignedSlots.Proofs.Program

/-!
# Operations of a meter

What a metered allocator does with its counters, as equations over the operations of the allocator inside.
A meter counts the blocks that it hands out, so that its counters stay words as long as the number of
allocations does: a request past that stops before a counter is changed.
-/

namespace AlignedSlots

namespace Heap

theorem placement_request (h : Heap) (size : Nat) : (h.request size).2.placement = h.placement := by
  unfold request
  split <;> rfl

theorem placement_resize (h : Heap) (block : RawBlock) (size : Nat) :
    (h.resize block size).2.placement = h.placement := by
  have hrequest := h.placement_request size
  unfold resize
  split
  all_goals
    next hgranted =>
      rw [hgranted] at hrequest
      exact hrequest

theorem resize_eq_ok {h inner : Heap} {block : RawBlock} {size : Nat} {new : Option RawBlock}
    (hresize : h.resize block size = (new, inner)) :
    BlockSource.resize block size h = .ok new inner := by
  show EStateM.Result.ok (h.resize block size).1 (h.resize block size).2 = _
  rw [hresize]

/-- A heap that has a place for a block does not refuse it. -/
theorem request_ne_none {h : Heap} {size : Nat} (hplace : (h.placement h.history size).isSome)
    (inner : Heap) : h.request size ≠ (none, inner) := by
  obtain ⟨base, hbase⟩ := Option.isSome_iff_exists.mp hplace
  intro hnone
  unfold request at hnone
  simp only [hbase] at hnone
  exact nomatch congrArg Prod.fst hnone

end Heap

namespace Metered

variable {A β : Type}

/-- The counters of a meter: blocks out, blocks handed out, and blocks given back. -/
def counts (m : Metered A) : Nat × Nat × Nat := (m.live, m.allocations, m.frees)

/-- Every block that was handed out is out or was given back, and there are no more of them than a word can
count. -/
structure Balanced (m : Metered A) : Prop where
  allocations_eq : m.allocations = m.frees + m.live
  allocations_le : m.allocations ≤ Word.greatest

theorem balanced_around (inner : A) : (around inner).Balanced := ⟨rfl, Nat.zero_le _⟩

theorem balanced_withBudget (inner : A) (budget : Nat) : (withBudget inner budget).Balanced :=
  ⟨rfl, Nat.zero_le _⟩

theorem exhausted_iff {m : Metered A} {budget : Nat} (h : m.budget = some budget) :
    m.exhausted = true ↔ budget ≤ m.allocations := by
  unfold exhausted
  rw [h]
  exact decide_eq_true_iff

theorem onInner_of_ok {p : Prog Empty A β} {m : Metered A} {b : β} {inner : A}
    (h : p m.inner = .ok b inner) : onInner p m = .ok b { m with inner } := by
  simp only [onInner, h]

theorem onInner_of_error {p : Prog Empty A β} {m : Metered A} {e : Failure Empty} {inner : A}
    (h : p m.inner = .error e inner) : onInner p m = .error e { m with inner } := by
  simp only [onInner, h]

variable [BlockSource A] {m : Metered A} {inner : A} {block new : RawBlock} {size : Nat}
  {e : Failure Empty}

/-! ## Requests -/

/-- Once the budget is used up, nothing is asked for. -/
theorem request_of_exhausted (h : m.exhausted = true) (size : Nat) :
    request size m = .ok none m := by
  unfold request
  rw [Prog.bind_ok (Prog.get_eq m), if_pos h]
  rfl

theorem request_of_none (h : m.exhausted = false)
    (hinner : BlockSource.request size m.inner = .ok none inner) :
    request size m = .ok none { m with inner } := by
  unfold request
  rw [Prog.bind_ok (Prog.get_eq m), if_neg (by rw [h]; exact Bool.false_ne_true),
    Prog.bind_ok (onInner_of_ok hinner)]
  rfl

theorem request_of_error (h : m.exhausted = false)
    (hinner : BlockSource.request size m.inner = .error e inner) :
    request size m = .error e { m with inner } := by
  unfold request
  rw [Prog.bind_ok (Prog.get_eq m), if_neg (by rw [h]; exact Bool.false_ne_true),
    Prog.bind_error (onInner_of_error hinner)]

/-- A block that is handed out is counted. -/
theorem request_of_some (hbalanced : m.Balanced) (h : m.exhausted = false)
    (hlt : m.allocations < Word.greatest)
    (hinner : BlockSource.request size m.inner = .ok (some block) inner) :
    request size m = .ok (some block)
      { m with inner, allocations := m.allocations + 1, live := m.live + 1 } := by
  have hle := hbalanced.allocations_eq
  have hallocations : Word.add m.allocations 1 = .ok (m.allocations + 1) := Word.add_eq_ok hlt
  have hlive : Word.add m.live 1 = .ok (m.live + 1) := Word.add_eq_ok (by omega)
  unfold request
  rw [Prog.bind_ok (Prog.get_eq m), if_neg (by rw [h]; exact Bool.false_ne_true),
    Prog.bind_ok (onInner_of_ok hinner)]
  simp only [Option.isSome_some, if_true]
  rw [Prog.bind_ok (Prog.get_eq _), Prog.bind_ok (Prog.lift_ok hallocations),
    Prog.bind_ok (Prog.modify_eq _ _),
    Prog.bind_ok (Prog.get_eq _), Prog.bind_ok (Prog.lift_ok hlive),
    Prog.bind_ok (Prog.modify_eq _ _)]
  rfl

/-- A block that can no longer be counted is not handed out. -/
theorem request_of_overflow (h : m.exhausted = false) (hge : Word.greatest ≤ m.allocations)
    (hinner : BlockSource.request size m.inner = .ok (some block) inner) :
    request size m = .error (.fault .addOverflow) { m with inner } := by
  have hallocations : Word.add m.allocations 1 = .error .addOverflow :=
    if_neg (Nat.not_le.mpr (Nat.lt_succ_of_le hge))
  unfold request
  rw [Prog.bind_ok (Prog.get_eq m), if_neg (by rw [h]; exact Bool.false_ne_true),
    Prog.bind_ok (onInner_of_ok hinner)]
  simp only [Option.isSome_some, if_true]
  rw [Prog.bind_ok (Prog.get_eq _), Prog.bind_error (Prog.lift_error hallocations)]

/-- All that a request can come to. -/
inductive Requests (m : Metered A) (size : Nat) :
    EStateM.Result (Failure Empty) (Metered A) (Option RawBlock) → Prop
  | exhausted : m.exhausted = true → Requests m size (.ok none m)
  | refused (inner : A) : m.exhausted = false →
      BlockSource.request size m.inner = .ok none inner →
      Requests m size (.ok none { m with inner })
  | granted (block : RawBlock) (inner : A) : m.exhausted = false → m.allocations < Word.greatest →
      BlockSource.request size m.inner = .ok (some block) inner →
      Requests m size (.ok (some block)
        { m with inner, allocations := m.allocations + 1, live := m.live + 1 })
  | uncounted (block : RawBlock) (inner : A) : m.exhausted = false →
      Word.greatest ≤ m.allocations → BlockSource.request size m.inner = .ok (some block) inner →
      Requests m size (.error (.fault .addOverflow) { m with inner })
  | failed (e : Failure Empty) (inner : A) : m.exhausted = false →
      BlockSource.request size m.inner = .error e inner →
      Requests m size (.error e { m with inner })

theorem requests_request (h : m.Balanced) (size : Nat) : m.Requests size (request size m) := by
  cases hexhausted : m.exhausted with
  | true =>
    rw [request_of_exhausted hexhausted]
    exact .exhausted hexhausted
  | false =>
    cases hinner : BlockSource.request size m.inner with
    | error e inner =>
      rw [request_of_error hexhausted hinner]
      exact .failed e inner hexhausted hinner
    | ok answer inner =>
      cases answer with
      | none =>
        rw [request_of_none hexhausted hinner]
        exact .refused inner hexhausted hinner
      | some block =>
        rcases Nat.lt_or_ge m.allocations Word.greatest with hlt | hge
        · rw [request_of_some h hexhausted hlt hinner]
          exact .granted block inner hexhausted hlt hinner
        · rw [request_of_overflow hexhausted hge hinner]
          exact .uncounted block inner hexhausted hge hinner

/-! ## Resizes -/

theorem resize_of_exhausted (h : m.exhausted = true) (block : RawBlock) (size : Nat) :
    resize (some block) size m = .ok none m := by
  unfold resize
  simp only
  rw [Prog.bind_ok (Prog.get_eq m), if_pos h]
  rfl

/-- A resize of a block that is out is left to the allocator inside, and not counted. -/
theorem resize_of_not_exhausted (h : m.exhausted = false) (block : RawBlock) (size : Nat) :
    resize (some block) size m = onInner (BlockSource.resize block size) m := by
  unfold resize
  simp only
  rw [Prog.bind_ok (Prog.get_eq m), if_neg (by rw [h]; exact Bool.false_ne_true)]

/-! ## Frees -/

/-- A free of a block that is out is counted, and then left to the allocator inside. -/
theorem free_some (hbalanced : m.Balanced) (hpos : 0 < m.live) (block : RawBlock) :
    free (some block) m = onInner (BlockSource.free block)
      { m with live := m.live - 1, frees := m.frees + 1 } := by
  have hallocations := hbalanced.allocations_eq
  have hle := hbalanced.allocations_le
  have hfrees : Word.add m.frees 1 = .ok (m.frees + 1) := Word.add_eq_ok (by omega)
  have hlive : Word.sub m.live 1 = .ok (m.live - 1) := Word.sub_eq_ok hpos
  unfold free
  simp only
  rw [Prog.bind_ok (Prog.get_eq m), Prog.bind_ok (Prog.lift_ok hfrees),
    Prog.bind_ok (Prog.modify_eq _ _),
    Prog.bind_ok (Prog.get_eq _), Prog.bind_ok (Prog.lift_ok hlive),
    Prog.bind_ok (Prog.modify_eq _ _)]

end Metered

end AlignedSlots
