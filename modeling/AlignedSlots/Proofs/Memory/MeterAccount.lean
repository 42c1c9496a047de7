import Mathlib
import AlignedSlots.Memory.Placement
import AlignedSlots.Proofs.Memory.MeterSteps

/-!
# Runs of a meter

`Counted.meters_keep_account`: after any run of calls the counters of a meter account for the blocks that
are out, a budget is never exceeded and never renewed, and a meter around a meter counts and answers as the
inner one does.
-/

namespace AlignedSlots

namespace Counted

open MeterCall

/-- Runs calls of a customer of a meter that he is the first to call. -/
def session {A : Type} [BlockSource A] (meter : Metered A) (calls : List MeterCall) :
    List (Prog.Record Empty MeterCall (Option RawBlock)) × Counted A :=
  Prog.session run calls ⟨[], meter⟩

section Heap

variable {s : Counted Heap} {call : MeterCall}

/-! ## Runs over a heap -/

theorem session_accounted (calls : List MeterCall) (h : s.Accounted) :
    (Prog.session run calls s).2.Accounted ∧
      (Prog.session run calls s).2.meter.budget = s.meter.budget := by
  induction calls generalizing s with
  | nil => exact ⟨h, rfl⟩
  | cons call rest ih =>
    have hstep := run_step call h
    obtain ⟨haccounted, hbudget⟩ := ih (hstep.accounted h)
    exact ⟨haccounted, hbudget.trans hstep.budget_eq⟩

/-- A budget that is used up stays used up. -/
theorem session_spent (calls : List MeterCall) (h : s.Accounted) (hexhausted : s.meter.exhausted = true) :
    (Prog.session run calls s).2.meter.exhausted = true ∧
      (Prog.session run calls s).2.meter.allocations = s.meter.allocations := by
  induction calls generalizing s with
  | nil => exact ⟨hexhausted, rfl⟩
  | cons call rest ih =>
    have hstep := run_step call h
    obtain ⟨hspent, hallocations, _⟩ := hstep.spent hexhausted
    have hrest := ih (hstep.accounted h) hspent
    exact ⟨hrest.1, hrest.2.trans hallocations⟩

theorem run_of_exhausted (h : s.Accounted) (hexhausted : s.meter.exhausted = true)
    (hasks : call.Asks s.blocks) : call.run s = .ok none s := by
  rcases (run_ends call h).run_eq with ⟨answer, s', hrun, hstep⟩ | ⟨e, s', hrun, hstep⟩
  · obtain ⟨hanswer, rfl⟩ := (hstep.spent hexhausted).2.2 hasks
    rw [hrun, Except.ok.inj hanswer]
  · exact nomatch ((hstep.spent hexhausted).2.2 hasks).1

/-- Requests for new blocks are allocations as long as the budget lasts. -/
theorem session_allocations {budget : Nat} (calls : List MeterCall) (h : s.Accounted)
    (hbudget : s.meter.budget = some budget) (hword : budget ≤ Word.greatest)
    (hle : s.meter.allocations ≤ budget)
    (hplaced : ∀ call ∈ calls, ∀ size, call.requested = some size →
      ∀ history, (s.meter.inner.placement history size).isSome) :
    (Prog.session run calls s).2.meter.allocations =
      min (s.meter.allocations + calls.countP fun call => call.requested.isSome) budget := by
  induction calls generalizing s with
  | nil => exact (Nat.min_eq_left hle).symm
  | cons call rest ih =>
    have hstep := run_step call h
    have hallocations := hstep.allocations_eq hbudget hword hle (hplaced call List.mem_cons_self)
    have hrest : ∀ c ∈ rest, ∀ size, c.requested = some size →
        ∀ history, ((call.run.after s).meter.inner.placement history size).isSome := by
      intro c hc
      rw [hstep.placement_eq]
      exact hplaced c (List.mem_cons_of_mem _ hc)
    rw [Prog.session_cons, List.countP_cons, ih (hstep.accounted h) (hstep.budget_eq.trans hbudget)
      (by omega) hrest, hallocations]
    omega

end Heap

/-! ## A meter around a meter -/

section Wrapped

variable {A : Type} {t : Counted A}

/-- The same blocks, seen through one more meter that has counted all of them. -/
def wrapped (t : Counted A) : Counted (Metered A) :=
  ⟨t.blocks, ⟨t.meter, t.meter.live, t.meter.allocations, t.meter.frees, none⟩⟩

/-- A result, seen through one more meter. -/
def wrapResult {β : Type} : EStateM.Result (Failure Empty) (Counted A) β →
    EStateM.Result (Failure Empty) (Counted (Metered A)) β
  | .ok b t => .ok b t.wrapped
  | .error e t => .error e t.wrapped

theorem Accounted.wrapped (h : t.Accounted) : t.wrapped.Accounted :=
  ⟨⟨h.balanced.allocations_eq, h.balanced.allocations_le⟩, h.live_eq⟩

variable [BlockSource A]

theorem receive_request_wrapped (h : t.Accounted) (put : RawBlock → List RawBlock) (size : Nat) :
    receive put (Metered.request size) t.wrapped =
      wrapResult (receive put (Metered.request size) t) := by
  have houter : t.wrapped.meter.exhausted = false := rfl
  have hrequests := Metered.requests_request h.balanced size
  generalize hresult : Metered.request size t.meter = result at hrequests
  cases hrequests with
  | exhausted _ =>
    rw [receive_of_none hresult, receive_of_none (Metered.request_of_none houter hresult)]
    rfl
  | refused inner _ _ =>
    rw [receive_of_none hresult, receive_of_none (Metered.request_of_none houter hresult)]
    rfl
  | granted block inner _ hlt _ =>
    rw [receive_of_some hresult,
      receive_of_some (Metered.request_of_some h.wrapped.balanced houter hlt hresult)]
    rfl
  | uncounted block inner _ _ _ =>
    rw [receive_of_error hresult, receive_of_error (Metered.request_of_error houter hresult)]
    rfl
  | failed e inner _ _ =>
    rw [receive_of_error hresult, receive_of_error (Metered.request_of_error houter hresult)]
    rfl

theorem run_resize_wrapped {place : Nat} (hplace : place < t.blocks.length) (size : ℕ+) :
    (resize place size).run t.wrapped = wrapResult ((resize place size).run t) := by
  have houter : t.wrapped.meter.exhausted = false := rfl
  cases hexhausted : t.meter.exhausted with
  | true =>
    have hmeter : BlockSource.resize t.wrapped.blocks[place] size t.wrapped.meter.inner =
        .ok none t.meter := Metered.resize_of_exhausted hexhausted _ _
    rw [run_resize_of_exhausted hexhausted hplace, run_resize_of_ok houter hplace hmeter]
    rfl
  | false =>
    have hresize := Metered.resize_of_not_exhausted hexhausted t.blocks[place] size
    cases hinner : BlockSource.resize t.blocks[place] size t.meter.inner with
    | ok new inner =>
      have hmeter : BlockSource.resize t.wrapped.blocks[place] size t.wrapped.meter.inner =
          .ok new { t.meter with inner } := hresize.trans (Metered.onInner_of_ok hinner)
      rw [run_resize_of_ok hexhausted hplace hinner, run_resize_of_ok houter hplace hmeter]
      rfl
    | error e inner =>
      have hmeter := hresize.trans (Metered.onInner_of_error hinner)
      have hwrapped := (Metered.resize_of_not_exhausted houter t.blocks[place] size).trans
        (Metered.onInner_of_error hmeter)
      rw [run_resize_of_some (List.getElem?_eq_getElem hplace),
        run_resize_of_some (s := t.wrapped) (List.getElem?_eq_getElem hplace),
        receive_of_error hmeter, receive_of_error hwrapped]
      rfl

theorem giveBack_wrapped (h : t.Accounted) (hpos : 0 < t.meter.live) (block : RawBlock)
    (rest : List RawBlock) :
    giveBack (some block) rest t.wrapped = wrapResult (giveBack (some block) rest t) := by
  have houter := Metered.free_some h.wrapped.balanced hpos block
  have hfree := Metered.free_some h.balanced hpos block
  cases hinner : BlockSource.free block t.meter.inner with
  | ok _ inner =>
    have hresult := hfree.trans (Metered.onInner_of_ok hinner)
    rw [giveBack_of_ok hresult, giveBack_of_ok (houter.trans (Metered.onInner_of_ok hresult))]
    rfl
  | error e inner =>
    have hresult := hfree.trans (Metered.onInner_of_error hinner)
    rw [giveBack_of_error hresult,
      giveBack_of_error (houter.trans (Metered.onInner_of_error hresult))]
    rfl

/-- **A meter around a meter** does what the inner one does, and counts the same. -/
theorem run_wrapped (h : t.Accounted) (call : MeterCall) :
    call.run t.wrapped = wrapResult (call.run t) := by
  cases call with
  | request size => exact receive_request_wrapped h _ size
  | requestByResize size => exact receive_request_wrapped h _ size
  | resize place size =>
    rcases Nat.lt_or_ge place t.blocks.length with hlt | hge
    · exact run_resize_wrapped hlt size
    · have hidle : (resize place size).Idle t.blocks := hge
      rw [run_of_idle hidle]
      exact run_of_idle (s := t.wrapped) hidle
  | free place =>
    rcases Nat.lt_or_ge place t.blocks.length with hlt | hge
    · have hplace : t.blocks[place]? = some t.blocks[place] := List.getElem?_eq_getElem hlt
      have houter : t.wrapped.blocks[place]? = some t.blocks[place] := hplace
      rw [run_free_of_some hplace, run_free_of_some houter]
      exact giveBack_wrapped h (h.live_eq ▸ Nat.zero_lt_of_lt hlt) _ _
    · have hidle : (free place).Idle t.blocks := hge
      rw [run_of_idle hidle]
      exact run_of_idle (s := t.wrapped) hidle
  | freeNothing => rfl

end Wrapped

/-- A run through one more meter. -/
theorem session_wrapped {t : Counted Heap} (calls : List MeterCall) (h : t.Accounted) :
    Prog.session run calls t.wrapped =
      ((Prog.session run calls t).1, (Prog.session run calls t).2.wrapped) := by
  induction calls generalizing t with
  | nil => rfl
  | cons call rest ih =>
    have hrun := run_wrapped h call
    have hanswer : call.run.answer t.wrapped = call.run.answer t := by
      unfold Prog.answer
      rw [hrun]
      cases call.run t <;> rfl
    have hafter : call.run.after t.wrapped = (call.run.after t).wrapped := by
      unfold Prog.after
      rw [hrun]
      cases call.run t <;> rfl
    rw [Prog.session_cons, Prog.session_cons, hanswer, hafter,
      ih ((run_step call h).accounted h)]

/-! ## The account of a customer -/

/-- **The account of a meter**, and what the next call does to it. -/
structure Kept {A : Type} [BlockSource A] (s : Counted A) : Prop where
  live_eq : s.meter.live = s.blocks.length
  frees_le : s.meter.frees ≤ s.meter.allocations
  live_eq_sub : s.meter.live = s.meter.allocations - s.meter.frees
  free_nothing : freeNothing.run s = .ok none s
  free : ∀ place < s.blocks.length, ∃ s', (free place).run s = .ok none s' ∧
    s'.blocks = s.blocks.eraseIdx place ∧
    s'.meter.counts = (s.meter.live - 1, s.meter.allocations, s.meter.frees + 1)
  /-- The answer is that of the allocator inside, unless the budget is used up.  A block that is not resized
  stays out. -/
  resize : ∀ place (hplace : place < s.blocks.length) (size : ℕ+), ∃ new s',
    (resize place size).run s = .ok new s' ∧
    s'.blocks = new.elim s.blocks (s.blocks.set place ·) ∧ s'.meter.counts = s.meter.counts ∧
    if s.meter.exhausted then new = none ∧ s' = s
    else BlockSource.resize s.blocks[place] size s.meter.inner = .ok new s'.meter.inner
  requestByResize : ∀ size, (requestByResize size).run s = (request size).run s

/-- A resize is exact where the one of the allocator inside ends. -/
theorem run_resize_kept {A : Type} [BlockSource A] {s : Counted A} {place : Nat} {size : ℕ+}
    {new : Option RawBlock} {inner : A} (hplace : place < s.blocks.length)
    (hinner : BlockSource.resize s.blocks[place] size s.meter.inner = .ok new inner) :
    ∃ new s', (resize place size).run s = .ok new s' ∧
      s'.blocks = new.elim s.blocks (s.blocks.set place ·) ∧ s'.meter.counts = s.meter.counts ∧
      if s.meter.exhausted then new = none ∧ s' = s
      else BlockSource.resize s.blocks[place] size s.meter.inner = .ok new s'.meter.inner := by
  cases hexhausted : s.meter.exhausted with
  | true => exact ⟨none, s, run_resize_of_exhausted hexhausted hplace size, rfl, rfl, rfl, rfl⟩
  | false => exact ⟨new, _, run_resize_of_ok hexhausted hplace hinner, rfl, rfl, hinner⟩

theorem Accounted.kept {s : Counted Heap} (h : s.Accounted) : s.Kept := by
  have hallocations := h.balanced.allocations_eq
  refine ⟨h.live_eq, by omega, by omega, rfl, fun place hplace => ?_, fun place hplace size => ?_,
    fun _ => rfl⟩
  · exact ⟨_, run_free_eq h hplace, rfl, rfl⟩
  · exact run_resize_kept hplace (Heap.resize_eq_ok rfl)

/-- The account is the same through one more meter. -/
theorem Accounted.kept_wrapped {s : Counted Heap} (h : s.Accounted) : s.wrapped.Kept := by
  have hkept := h.kept
  refine ⟨hkept.live_eq, hkept.frees_le, hkept.live_eq_sub, rfl, fun place hplace => ?_,
    fun place hplace size => ?_, fun _ => rfl⟩
  · obtain ⟨s', hrun, hblocks, hcounts⟩ := hkept.free place hplace
    refine ⟨s'.wrapped, ?_, hblocks, hcounts⟩
    rw [run_wrapped h, hrun]
    rfl
  · -- The meter inside resizes as its heap does, or not at all.
    have hinner : ∃ new meter, Metered.resize (some s.blocks[place]) size s.meter = .ok new meter := by
      cases hexhausted : s.meter.exhausted with
      | true => exact ⟨none, s.meter, Metered.resize_of_exhausted hexhausted _ _⟩
      | false => exact ⟨_, _, (Metered.resize_of_not_exhausted hexhausted _ _).trans
          (Metered.onInner_of_ok (Heap.resize_eq_ok rfl))⟩
    obtain ⟨new, meter, hmeter⟩ := hinner
    exact run_resize_kept (s := s.wrapped) hplace hmeter

/-- **The account of meters** over a heap that may refuse any request: alone, with a budget, and around a
meter with a budget. -/
theorem meters_keep_account (heap : Heap) (budget : Nat) (hword : budget ≤ Word.greatest) :
    (∀ calls, (session (Metered.around heap) calls).2.Kept) ∧
    (∀ calls, (session (Metered.withBudget heap budget) calls).2.Kept) ∧
    (∀ calls, (session (Metered.around (Metered.withBudget heap budget)) calls).2.Kept) ∧
    -- On a heap that has a place for every new block, only the budget refuses one.
    (∀ calls : List MeterCall, (∀ call ∈ calls, ∀ size, call.requested = some size →
        ∀ history, (heap.placement history size).isSome) →
      (session (Metered.withBudget heap budget) calls).2.meter.allocations =
        min (calls.countP fun call => call.requested.isSome) budget) ∧
    -- Once the budget is used up, whoever asks for memory gets none, and changes nothing.
    (∀ calls more s s', (session (Metered.withBudget heap budget) calls).2 = s →
      s.meter.allocations = budget → (Prog.session run more s).2 = s' →
      s'.meter.allocations = budget ∧
        ∀ call : MeterCall, call.Asks s'.blocks → call.run s' = .ok none s') ∧
    -- One more meter around changes nothing.
    ∀ calls outer inner, session (Metered.around (Metered.withBudget heap budget)) calls = outer →
      session (Metered.withBudget heap budget) calls = inner →
      outer.1 = inner.1 ∧ outer.2.blocks = inner.2.blocks ∧ outer.2.meter.inner = inner.2.meter ∧
        outer.2.meter.counts = inner.2.meter.counts := by
  have hplain : Accounted ⟨[], Metered.around heap⟩ := ⟨Metered.balanced_around heap, rfl⟩
  have hlimited : Accounted ⟨[], Metered.withBudget heap budget⟩ :=
    ⟨Metered.balanced_withBudget heap budget, rfl⟩
  have haccounted : ∀ calls, (session (Metered.withBudget heap budget) calls).2.Accounted ∧
      (session (Metered.withBudget heap budget) calls).2.meter.budget = some budget :=
    fun calls => session_accounted calls hlimited
  have hwrapped : ∀ calls, session (Metered.around (Metered.withBudget heap budget)) calls =
      ((session (Metered.withBudget heap budget) calls).1,
        (session (Metered.withBudget heap budget) calls).2.wrapped) :=
    fun calls => session_wrapped calls hlimited
  refine ⟨fun calls => (session_accounted calls hplain).1.kept,
    fun calls => (haccounted calls).1.kept, fun calls => ?_, fun calls hplaced => ?_,
    fun calls more s s' hs hspent hs' => ?_, fun calls outer inner houter hinner => ?_⟩
  · rw [hwrapped]
    exact (haccounted calls).1.kept_wrapped
  · have hallocations := session_allocations calls hlimited rfl hword (Nat.zero_le _) hplaced
    exact hallocations.trans (congrArg (min · budget) (Nat.zero_add _))
  · obtain ⟨hs_accounted, hbudget⟩ := haccounted calls
    rw [hs] at hs_accounted hbudget
    have hexhausted : s.meter.exhausted = true :=
      (Metered.exhausted_iff hbudget).mpr (Nat.le_of_eq hspent.symm)
    have hs'_accounted := (session_accounted more hs_accounted).1
    obtain ⟨hexhausted', hallocations⟩ := session_spent more hs_accounted hexhausted
    rw [hs'] at hs'_accounted hexhausted' hallocations
    refine ⟨hallocations.trans hspent, fun call hasks => ?_⟩
    exact run_of_exhausted hs'_accounted hexhausted' hasks
  · rw [hwrapped, hinner] at houter
    subst houter
    exact ⟨rfl, rfl, rfl, rfl⟩

/-- A budget of two blocks is used up by two of three requests.  Giving one of them back does not renew it,
and the other one cannot be resized any more. -/
theorem meters_keep_account_two :
    ∃ s, (session (Metered.withBudget (Heap.ofPlacement .plain 0) 2)
        [.request 8, .requestByResize 16, .resize 0 24, .free 1, .request 4]).2 = s ∧
      s.Kept ∧ s.meter.counts = (1, 2, 1) ∧ (resize 0 32).run s = .ok none s := by
  let calls : List MeterCall := [.request 8, .requestByResize 16, .resize 0 24, .free 1, .request 4]
  have hword : 2 ≤ Word.greatest := by decide
  obtain ⟨_, hkept, _, hmin, hspent, _⟩ :=
    meters_keep_account (Heap.ofPlacement .plain 0) 2 hword
  have hplaced : ∀ call ∈ calls, ∀ size, call.requested = some size →
      ∀ history, ((Heap.ofPlacement .plain 0).placement history size).isSome := by
    intro call hcall size hsize history
    have hsmall : ∀ c ∈ calls, ∀ n ∈ c.requested, n ≤ 16 := by decide
    have hle := hsmall call hcall size hsize
    show (Placement.plain history size).isSome
    unfold Placement.plain Placement.stretches
    rw [if_neg (by omega)]
    rfl
  have hallocations := hmin calls hplaced
  have hcounts : (session (Metered.withBudget (Heap.ofPlacement .plain 0) 2) calls).2.meter.counts =
      (1, 2, 1) := by decide +kernel
  obtain ⟨_, hnext⟩ := hspent calls [] _ _ rfl hallocations rfl
  refine ⟨_, rfl, hkept calls, hcounts, hnext (.resize 0 32) ?_⟩
  show 0 < (session (Metered.withBudget (Heap.ofPlacement .plain 0) 2) calls).2.blocks.length
  have hlive : (session (Metered.withBudget (Heap.ofPlacement .plain 0) 2) calls).2.meter.live = 1 :=
    congrArg Prod.fst hcounts
  rw [← (hkept calls).live_eq, hlive]
  exact Nat.one_pos

end Counted

end AlignedSlots
