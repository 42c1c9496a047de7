import Mathlib
import AlignedSlots.Proofs.Memory.MeterLaws

/-!
# Customers of a meter

A customer of a meter asks for blocks, has them resized and gives them back, with null pointers and the
blocks that are out at that moment.  `Counted.Step` lists all that one call can do with a meter over a
heap, and what a call does to the counters and to the budget is read off it.
-/

namespace AlignedSlots

/-- A meter, and the blocks that it handed out and that were not given back. -/
structure Counted (A : Type) where
  blocks : List RawBlock
  meter : Metered A

/-- A call of a customer.  A block that is out is named by its place among those that are; a call for a
place past them does nothing.  The size of a block that is out is never changed to 0. -/
inductive MeterCall where
  | request (size : Nat)
  /-- A resize of the null pointer. -/
  | requestByResize (size : Nat)
  | resize (place : Nat) (size : ℕ+)
  | free (place : Nat)
  /-- A free of the null pointer. -/
  | freeNothing

namespace MeterCall

/-- The size that a call asks for, if it asks for a block that is not out. -/
def requested : MeterCall → Option Nat
  | request size => some size
  | requestByResize size => some size
  | _ => none

/-- The call asks for memory: for a new block, or for more of one that is out. -/
def Asks (blocks : List RawBlock) : MeterCall → Prop
  | request _ => True
  | requestByResize _ => True
  | resize place _ => place < blocks.length
  | _ => False

/-- The call has nothing to do. -/
def Idle (blocks : List RawBlock) : MeterCall → Prop
  | resize place _ => blocks.length ≤ place
  | free place => blocks.length ≤ place
  | freeNothing => True
  | _ => False

variable {A : Type} {s : Counted A} {put : RawBlock → List RawBlock} {meter : Metered A}
  {ask : Prog Empty (Metered A) (Option RawBlock)} {block : RawBlock} {rest : List RawBlock}
  {place : Nat}

/-- Asks the meter.  With the block that it answers, the blocks `put block` are out. -/
def receive (put : RawBlock → List RawBlock) (ask : Prog Empty (Metered A) (Option RawBlock)) :
    Prog Empty (Counted A) (Option RawBlock) := fun s =>
  match ask s.meter with
  | .ok (some block) meter => .ok (some block) ⟨put block, meter⟩
  | .ok none meter => .ok none { s with meter }
  | .error e meter => .error e { s with meter }

theorem receive_of_some (h : ask s.meter = .ok (some block) meter) :
    receive put ask s = .ok (some block) ⟨put block, meter⟩ := by
  simp only [receive, h]

theorem receive_of_none (h : ask s.meter = .ok none meter) :
    receive put ask s = .ok none { s with meter } := by
  simp only [receive, h]

theorem receive_of_error {e : Failure Empty} (h : ask s.meter = .error e meter) :
    receive put ask s = .error e { s with meter } := by
  simp only [receive, h]

variable [BlockSource A]

/-- Gives a block back, or the null pointer; the blocks `rest` stay out. -/
def giveBack (block : Option RawBlock) (rest : List RawBlock) :
    Prog Empty (Counted A) (Option RawBlock) := fun s =>
  match Metered.free block s.meter with
  | .ok () meter => .ok none ⟨rest, meter⟩
  | .error e meter => .error e { s with meter }

/-- Runs a call, and answers the block that it is given. -/
def run : MeterCall → Prog Empty (Counted A) (Option RawBlock)
  | request size => fun s => receive (· :: s.blocks) (Metered.request size) s
  | requestByResize size => fun s => receive (· :: s.blocks) (Metered.resize none size) s
  | resize place size => fun s =>
    match s.blocks[place]? with
    | none => .ok none s
    | some block => receive (s.blocks.set place ·) (Metered.resize (some block) size) s
  | free place => fun s =>
    match s.blocks[place]? with
    | none => .ok none s
    | some block => giveBack (some block) (s.blocks.eraseIdx place) s
  | freeNothing => fun s => giveBack none s.blocks s

theorem giveBack_of_ok {block : Option RawBlock} (h : Metered.free block s.meter = .ok () meter) :
    giveBack block rest s = .ok none ⟨rest, meter⟩ := by
  simp only [giveBack, h]

theorem giveBack_of_error {block : Option RawBlock} {e : Failure Empty}
    (h : Metered.free block s.meter = .error e meter) :
    giveBack block rest s = .error e { s with meter } := by
  simp only [giveBack, h]

theorem run_resize_of_some (h : s.blocks[place]? = some block) (size : ℕ+) :
    run (resize place size) s =
      receive (s.blocks.set place ·) (Metered.resize (some block) size) s := by
  simp only [run, h]

/-- Once the budget is used up, no block is resized. -/
theorem run_resize_of_exhausted (h : s.meter.exhausted = true) (hplace : place < s.blocks.length)
    (size : ℕ+) : run (resize place size) s = .ok none s := by
  rw [run_resize_of_some (List.getElem?_eq_getElem hplace)]
  exact receive_of_none (Metered.resize_of_exhausted h _ _)

/-- A resize answers what the allocator inside does, and a block that it answers takes the place of the old
one. -/
theorem run_resize_of_ok {size : ℕ+} {new : Option RawBlock} {inner : A} (h : s.meter.exhausted = false)
    (hplace : place < s.blocks.length)
    (hinner : BlockSource.resize s.blocks[place] size s.meter.inner = .ok new inner) :
    run (resize place size) s =
      .ok new ⟨new.elim s.blocks (s.blocks.set place ·), { s.meter with inner }⟩ := by
  have hresize := (Metered.resize_of_not_exhausted h _ _).trans (Metered.onInner_of_ok hinner)
  rw [run_resize_of_some (List.getElem?_eq_getElem hplace)]
  cases new with
  | none => exact receive_of_none hresize
  | some new => exact receive_of_some hresize

theorem run_free_of_some (h : s.blocks[place]? = some block) :
    run (free place) s = giveBack (some block) (s.blocks.eraseIdx place) s := by
  simp only [run, h]

/-- A call that has nothing to do leaves everything as it is. -/
theorem run_of_idle {call : MeterCall} (h : call.Idle s.blocks) : call.run s = .ok none s := by
  cases call with
  | request size => exact h.elim
  | requestByResize size => exact h.elim
  | resize place size =>
    have hnone : s.blocks[place]? = none := List.getElem?_eq_none h
    simp only [run, hnone]
  | free place =>
    have hnone : s.blocks[place]? = none := List.getElem?_eq_none h
    simp only [run, hnone]
  | freeNothing => rfl

end MeterCall

namespace Counted

open MeterCall

/-- The counters account for the blocks that are out. -/
structure Accounted {A : Type} (s : Counted A) : Prop where
  balanced : s.meter.Balanced
  live_eq : s.meter.live = s.blocks.length

/-! ## Steps over a heap -/

/-- All that a call can do with a meter over a heap. -/
inductive Step (s : Counted Heap) :
    MeterCall → Except (Failure Empty) (Option RawBlock) → Counted Heap → Prop
  /-- The budget is used up. -/
  | exhausted {call : MeterCall} : s.meter.exhausted = true → call.Asks s.blocks →
      Step s call (.ok none) s
  /-- The heap refuses a new block. -/
  | refused {call : MeterCall} {size : Nat} (inner : Heap) :
      call.requested = some size → s.meter.exhausted = false →
      s.meter.inner.request size = (none, inner) →
      Step s call (.ok none) ⟨s.blocks, { s.meter with inner }⟩
  | granted {call : MeterCall} {size : Nat} (block : RawBlock) (inner : Heap) :
      call.requested = some size → s.meter.exhausted = false →
      s.meter.allocations < Word.greatest → s.meter.inner.request size = (some block, inner) →
      Step s call (.ok (some block)) ⟨block :: s.blocks,
        { s.meter with inner, allocations := s.meter.allocations + 1, live := s.meter.live + 1 }⟩
  /-- The block cannot be counted. -/
  | uncounted {call : MeterCall} {size : Nat} (block : RawBlock) (inner : Heap) :
      call.requested = some size → s.meter.exhausted = false →
      Word.greatest ≤ s.meter.allocations → s.meter.inner.request size = (some block, inner) →
      Step s call (.error (.fault .addOverflow)) ⟨s.blocks, { s.meter with inner }⟩
  /-- The heap refuses the new size, and the block stays out. -/
  | kept {place : Nat} {size : ℕ+} (block : RawBlock) (inner : Heap) :
      s.meter.exhausted = false → s.meter.inner.resize block size = (none, inner) →
      Step s (.resize place size) (.ok none) ⟨s.blocks, { s.meter with inner }⟩
  | resized {place : Nat} {size : ℕ+} (block new : RawBlock) (inner : Heap) :
      s.meter.exhausted = false → s.meter.inner.resize block size = (some new, inner) →
      Step s (.resize place size) (.ok (some new))
        ⟨s.blocks.set place new, { s.meter with inner }⟩
  | freed {place : Nat} (block : RawBlock) : place < s.blocks.length →
      Step s (.free place) (.ok none) ⟨s.blocks.eraseIdx place,
        { s.meter with
          inner := s.meter.inner.free block.base
          live := s.meter.live - 1
          frees := s.meter.frees + 1 }⟩
  | idle {call : MeterCall} : call.Idle s.blocks → Step s call (.ok none) s

section Heap

variable {s s' : Counted Heap} {call : MeterCall} {r : Except (Failure Empty) (Option RawBlock)}

/-- A request for a new block, however it is made. -/
theorem receive_request_ends {size : Nat} (hcall : call.requested = some size)
    (hasks : call.Asks s.blocks) (h : s.Accounted) :
    (receive (· :: s.blocks) (Metered.request size)).Ends s
      (fun answer s' => Step s call (.ok answer) s') (fun e s' => Step s call (.error e) s') := by
  have hrequests := Metered.requests_request h.balanced size
  generalize hresult : Metered.request size s.meter = result at hrequests
  cases hrequests with
  | exhausted hexhausted =>
    exact .of_ok (receive_of_none hresult) (.exhausted hexhausted hasks)
  | refused inner hexhausted hinner =>
    injection hinner with hanswer hheap
    exact .of_ok (receive_of_none hresult) (.refused inner hcall hexhausted (Prod.ext hanswer hheap))
  | granted block inner hexhausted hlt hinner =>
    injection hinner with hanswer hheap
    exact .of_ok (receive_of_some hresult)
      (.granted block inner hcall hexhausted hlt (Prod.ext hanswer hheap))
  | uncounted block inner hexhausted hge hinner =>
    injection hinner with hanswer hheap
    exact .of_error (receive_of_error hresult)
      (.uncounted block inner hcall hexhausted hge (Prod.ext hanswer hheap))
  | failed e inner hexhausted hinner => cases hinner

/-- A block that is out is given back. -/
theorem run_free_eq {place : Nat} (h : s.Accounted) (hplace : place < s.blocks.length) :
    (free place).run s = .ok none ⟨s.blocks.eraseIdx place,
      { s.meter with
        inner := s.meter.inner.free s.blocks[place].base
        live := s.meter.live - 1
        frees := s.meter.frees + 1 }⟩ := by
  have hblock : s.blocks[place]? = some s.blocks[place] := List.getElem?_eq_getElem hplace
  have hpos : 0 < s.meter.live := by
    rw [h.live_eq]
    exact Nat.zero_lt_of_lt hplace
  have hfree := (Metered.free_some h.balanced hpos s.blocks[place]).trans (Metered.onInner_of_ok rfl)
  exact (run_free_of_some hblock).trans (giveBack_of_ok hfree)

/-- **Every call** of a customer is one of the steps. -/
theorem run_ends (call : MeterCall) (h : s.Accounted) :
    call.run.Ends s (fun answer s' => Step s call (.ok answer) s')
      (fun e s' => Step s call (.error e) s') := by
  cases call with
  | request size =>
    have hcall : (request size).requested = some size := rfl
    exact (receive_request_ends hcall trivial h).congr rfl
  | requestByResize size =>
    have hcall : (requestByResize size).requested = some size := rfl
    exact (receive_request_ends hcall trivial h).congr rfl
  | resize place size =>
    rcases Nat.lt_or_ge place s.blocks.length with hlt | hge
    · cases hexhausted : s.meter.exhausted with
      | true => exact .of_ok (run_resize_of_exhausted hexhausted hlt size) (.exhausted hexhausted hlt)
      | false =>
        rcases hinner : s.meter.inner.resize s.blocks[place] size with ⟨new, inner⟩
        have hrun := run_resize_of_ok hexhausted hlt (Heap.resize_eq_ok hinner)
        cases new with
        | none => exact .of_ok hrun (.kept _ inner hexhausted hinner)
        | some new => exact .of_ok hrun (.resized _ new inner hexhausted hinner)
    · exact .of_ok (run_of_idle hge) (.idle hge)
  | free place =>
    rcases Nat.lt_or_ge place s.blocks.length with hlt | hge
    · exact .of_ok (run_free_eq h hlt) (.freed _ hlt)
    · exact .of_ok (run_of_idle hge) (.idle hge)
  | freeNothing => exact .of_ok (run_of_idle trivial) (.idle trivial)

theorem run_step (call : MeterCall) (h : s.Accounted) :
    Step s call (call.run.answer s) (call.run.after s) := by
  rcases Prog.Ends.cases (run_ends call h) with ⟨_, hanswer, hstep⟩ | ⟨_, hanswer, hstep⟩
  · rw [hanswer]
    exact hstep
  · rw [hanswer]
    exact hstep

namespace Step

/-- **A step keeps the account.** -/
theorem accounted (hstep : Step s call r s') (h : s.Accounted) : s'.Accounted := by
  obtain ⟨⟨hallocations, hle⟩, hlive⟩ := h
  cases hstep with
  | exhausted _ _ => exact ⟨⟨hallocations, hle⟩, hlive⟩
  | refused _ _ _ _ => exact ⟨⟨hallocations, hle⟩, hlive⟩
  | granted block _ _ _ hlt _ =>
    refine ⟨⟨?_, hlt⟩, ?_⟩
    · show s.meter.allocations + 1 = s.meter.frees + (s.meter.live + 1)
      omega
    · show s.meter.live + 1 = (block :: s.blocks).length
      rw [List.length_cons, hlive]
  | uncounted _ _ _ _ _ _ => exact ⟨⟨hallocations, hle⟩, hlive⟩
  | kept _ _ _ _ => exact ⟨⟨hallocations, hle⟩, hlive⟩
  | resized _ new _ _ _ =>
    refine ⟨⟨hallocations, hle⟩, ?_⟩
    show s.meter.live = (s.blocks.set _ new).length
    rw [List.length_set, hlive]
  | @freed place _ hplace =>
    refine ⟨⟨?_, hle⟩, ?_⟩
    · show s.meter.allocations = s.meter.frees + 1 + (s.meter.live - 1)
      omega
    · show s.meter.live - 1 = (s.blocks.eraseIdx place).length
      rw [List.length_eraseIdx_of_lt hplace, hlive]
  | idle _ => exact ⟨⟨hallocations, hle⟩, hlive⟩

theorem budget_eq (hstep : Step s call r s') : s'.meter.budget = s.meter.budget := by
  cases hstep <;> rfl

theorem placement_eq (hstep : Step s call r s') :
    s'.meter.inner.placement = s.meter.inner.placement := by
  have hrequest : ∀ size, (s.meter.inner.request size).2.placement = s.meter.inner.placement :=
    fun size => Heap.placement_request _ size
  have hresize : ∀ block size,
      (s.meter.inner.resize block size).2.placement = s.meter.inner.placement :=
    fun block size => Heap.placement_resize _ block size
  cases hstep with
  | exhausted _ _ => rfl
  | @refused _ size _ _ _ hinner => simpa only [hinner] using hrequest size
  | @granted _ size _ _ _ _ _ hinner => simpa only [hinner] using hrequest size
  | @uncounted _ size _ _ _ _ _ hinner => simpa only [hinner] using hrequest size
  | @kept _ size block _ _ hinner => simpa only [hinner] using hresize block size
  | @resized _ size block _ _ _ hinner => simpa only [hinner] using hresize block size
  | freed _ _ => rfl
  | idle _ => rfl

/-- Once the budget is used up nothing is handed out, and giving blocks back does not renew it. -/
theorem spent (hstep : Step s call r s') (h : s.meter.exhausted = true) :
    s'.meter.exhausted = true ∧ s'.meter.allocations = s.meter.allocations ∧
      (call.Asks s.blocks → r = .ok none ∧ s' = s) := by
  cases hstep with
  | exhausted _ _ => exact ⟨h, rfl, fun _ => ⟨rfl, rfl⟩⟩
  | refused _ _ hnot _ => exact absurd h (by rw [hnot]; exact Bool.false_ne_true)
  | granted _ _ _ hnot _ _ => exact absurd h (by rw [hnot]; exact Bool.false_ne_true)
  | uncounted _ _ _ hnot _ _ => exact absurd h (by rw [hnot]; exact Bool.false_ne_true)
  | kept _ _ hnot _ => exact absurd h (by rw [hnot]; exact Bool.false_ne_true)
  | resized _ _ _ hnot _ => exact absurd h (by rw [hnot]; exact Bool.false_ne_true)
  | freed _ _ => exact ⟨h, rfl, fun hasks => hasks.elim⟩
  | idle _ => exact ⟨h, rfl, fun _ => ⟨rfl, rfl⟩⟩

/-- A request for a new block is one more allocation while the budget lasts, on a heap that has a place
for the block. -/
theorem allocations_eq {budget : Nat} (hstep : Step s call r s') (hbudget : s.meter.budget = some budget)
    (hword : budget ≤ Word.greatest) (hle : s.meter.allocations ≤ budget)
    (hplaced : ∀ size, call.requested = some size →
      ∀ history, (s.meter.inner.placement history size).isSome) :
    s'.meter.allocations =
      min (s.meter.allocations + if call.requested.isSome then 1 else 0) budget := by
  have hnot : s.meter.exhausted = false → s.meter.allocations < budget := by
    intro h
    by_contra hge
    rw [(Metered.exhausted_iff hbudget).mpr (Nat.le_of_not_lt hge)] at h
    cases h
  cases hstep with
  | exhausted hexhausted _ =>
    have hge := (Metered.exhausted_iff hbudget).mp hexhausted
    omega
  | @refused _ size _ hcall _ hinner =>
    exact absurd hinner (Heap.request_ne_none (hplaced size hcall _) _)
  | granted _ _ hcall hexhausted _ _ =>
    have hlt := hnot hexhausted
    show s.meter.allocations + 1 = _
    rw [hcall, Option.isSome_some, if_pos rfl]
    omega
  | uncounted _ _ _ hexhausted hge _ =>
    have hlt := hnot hexhausted
    omega
  | kept _ _ _ _ => exact (Nat.min_eq_left hle).symm
  | resized _ _ _ _ _ => exact (Nat.min_eq_left hle).symm
  | freed _ _ => exact (Nat.min_eq_left hle).symm
  | idle hidle =>
    have hnone : call.requested.isSome = false := by
      cases call <;> first | rfl | exact hidle.elim
    rw [hnone]
    exact (Nat.min_eq_left hle).symm

end Step

end Heap

end Counted

end AlignedSlots
