import Mathlib
import AlignedSlots.Proofs.Container.ArrayCalls
import AlignedSlots.Proofs.Container.BufferCalls
import AlignedSlots.Proofs.Container.SequenceCalls
import AlignedSlots.Proofs.Container.TableCalls
import AlignedSlots.Proofs.Container.WalkCalls

/-!
# The order of walks

Sequences, buffers and static arrays are walked over from either end, sequences and buffers are searched,
and all three are walked over in place; tables are walked over in the order of their slots.  In each
container the loop runs over indices and reads storage.  `walks_call_in_order` says what that comes to in
every object that comes about: the visitor is called for the elements with their positions, one after the
other, up to the first failure.
-/

namespace AlignedSlots

namespace Walk

variable {α C : Type}

/-! ## Walks over the first indices -/

section Indexed

variable {read : Nat → Except Fault α} {row : Nat → α} {n : Nat}

theorem numbered_map_range (row : Nat → α) (n : Nat) :
    numbered ((List.range n).map row) = (forward n).map fun i => (i, row i) := by
  apply List.ext_getElem
  · simp [numbered, forward]
  · intro i _ _
    simp [numbered, forward]

theorem reverse_numbered_map_range (row : Nat → α) (n : Nat) :
    (numbered ((List.range n).map row)).reverse = (backward n).map fun i => (i, row i) := by
  rw [numbered_map_range, ← List.map_reverse]
  rfl

/-- A walk over elements with their positions, at any indices. -/
theorem conducts_visit {indices : List Nat} (hread : ∀ i ∈ indices, read i = .ok (row i)) :
    Conducts never (indices.map fun i => (i, row i)) (fun _ => ()) fun _ _ call =>
      visit read (fun i x => call (i, x)) indices := by
  apply conducts_of_calls
  intro ε ν call m
  have hcalls := visit_calls (fun i x => some (i, x)) call hread (fun _ _ => rfl) m
  rwa [show (fun i => some (i, row i)) = some ∘ fun i => (i, row i) from rfl,
    List.filterMap_eq_map] at hcalls

theorem conducts_forward (hread : ∀ i < n, read i = .ok (row i)) :
    Conducts never (numbered ((List.range n).map row)) (fun _ => ()) fun _ _ call =>
      visit read (fun i x => call (i, x)) (forward n) := by
  rw [numbered_map_range]
  exact conducts_visit fun i hi => hread i (lt_of_mem_forward hi)

theorem conducts_backward (hread : ∀ i < n, read i = .ok (row i)) :
    Conducts never (numbered ((List.range n).map row)).reverse (fun _ => ()) fun _ _ call =>
      visit read (fun i x => call (i, x)) (backward n) := by
  rw [reverse_numbered_map_range]
  exact conducts_visit fun i hi => hread i (lt_of_mem_backward hi)

theorem conducts_find (hread : ∀ i < n, read i = .ok (row i)) :
    Conducts id (numbered ((List.range n).map row)) (fun found => found.elim n Prod.fst)
      fun _ _ call => find read (fun i x => call (i, x)) n (forward n) := by
  rw [numbered_map_range]
  apply conducts_of_calls
  intro ε ν call m
  exact find_calls (fun i hi => hread i (lt_of_mem_forward hi)) call n m

end Indexed

/-! ## Walks in place over the slots of a container -/

section Slots

variable [Element α] {s s' : Slots} {made left : List (Nat × α)} {indices : List Nat}
  {offset : Slots → Nat → Except Fault Nat}

/-- What is read from a container changes as its slots do. -/
theorem Changes.read {before after : Nat → Except Fault α}
    (h : Changes made left (fun i => .ok (s.item i)) fun i => .ok (s'.item i))
    (hmade : ∀ i ∈ made.map Prod.fst, after i = .ok (s'.item i))
    (hothers : ∀ i, s'.item i = (s.item i : α) → after i = before i) :
    Changes made left before after := by
  refine ⟨h.indices_eq, ?_, ?_⟩
  · intro p hp
    have hindex : p.1 ∈ made.map Prod.fst := by
      rw [← h.indices_eq]
      exact List.mem_map_of_mem hp
    rw [hmade p.1 hindex]
    exact h.visited p hp
  · intro i hi
    exact hothers i (Except.ok.inj (h.others i hi))

/-- A container that is walked over in place does with its slots what the walk over slots does. -/
theorem conductsInPlace_slots {read : C → Nat → Except Fault α} {Kept : C → C → Prop}
    {walk : ∀ ε ν : Type, (Nat → Prog ε (α × ν) Unit) → Prog ε (C × ν) Unit} (rebuild : Slots → C)
    (hnodup : indices.Nodup) (h : s.Ready) (hoffset : Locates α offset s indices)
    (hread : ∀ s', Slots.SamePlace s s' → s'.Ready →
      (∀ i ∈ indices, read (rebuild s') i = .ok (s'.item i)) ∧
      ∀ i, s'.item i = (s.item i : α) → read (rebuild s') i = read (rebuild s) i)
    (hkept : ∀ s', Slots.SamePlace s s' → Kept (rebuild s) (rebuild s'))
    (hwalk : ∀ (ε ν : Type) (visitor : Nat → Prog ε (α × ν) Unit) (n n' : ν)
      (answer : Except (Failure ε) Unit) (s' : Slots),
      visitAllInPlace offset visitor indices (s, n) = Prog.ending answer (s', n') →
        walk ε ν visitor (rebuild s, n) = Prog.ending answer (rebuild s', n')) :
    ConductsInPlace read Kept (indices.map fun i => (i, s.item i)) (rebuild s) walk := by
  apply conductsInPlace_of_calls
  intro ε ν visitor n
  obtain ⟨made, left, result, n', s', hcalls, hrun, hchanges, hplace, hready⟩ :=
    visitAllInPlace_calls hnodup visitor h hoffset n
  obtain ⟨hvisited, hothers⟩ := hread s' hplace hready
  refine ⟨made, left, result, n', rebuild s', hcalls, hwalk ε ν visitor n n' _ s' hrun, ?_,
    hkept s' hplace⟩
  apply hchanges.read _ hothers
  intro i hi
  have hindices := (hcalls.made_prefix.map Prod.fst).subset hi
  simp at hindices
  exact hvisited i hindices

/-- So does one whose elements are at the offsets of their slots and are read there. -/
theorem conductsInPlace_offset [LawfulElement α] {read : C → Nat → Except Fault α}
    {Kept : C → C → Prop}
    {walk : ∀ ε ν : Type, (Nat → Prog ε (α × ν) Unit) → Prog ε (C × ν) Unit} (rebuild : Slots → C)
    (hnodup : indices.Nodup) (h : s.Ready) (hsize : Element.size α ≤ s.stride)
    (hindices : ∀ i ∈ indices, i < s.capacity)
    (hread : ∀ s' i, read (rebuild s') i = do let offset ← s'.offset i; return s'.load offset)
    (hkept : ∀ s', Slots.SamePlace s s' → Kept (rebuild s) (rebuild s'))
    (hwalk : ∀ (ε ν : Type) (visitor : Nat → Prog ε (α × ν) Unit) (n n' : ν)
      (answer : Except (Failure ε) Unit) (s' : Slots),
      visitAllInPlace Slots.offset visitor indices (s, n) = Prog.ending answer (s', n') →
        walk ε ν visitor (rebuild s, n) = Prog.ending answer (rebuild s', n')) :
    ConductsInPlace read Kept (indices.map fun i => (i, s.item i)) (rebuild s) walk := by
  refine conductsInPlace_slots rebuild hnodup h (locates_offset hsize hindices) ?_ hkept hwalk
  intro s' hplace hready
  constructor
  · intro i hi
    rw [hread, hready.read_eq, hplace.capacity_eq, if_pos (hindices i hi)]
  · intro i hitem
    rw [hread, hread, hready.read_eq, h.read_eq, hplace.capacity_eq, hitem]

end Slots

end Walk

/-! ## Containers -/

namespace Sequence

variable {α : Type} [Element α]

/-- All walks over a sequence, and searches in it, call for its elements in order. -/
structure WalksInOrder (v : Sequence α) (l : List α) : Prop where
  list_eq : v.toList = l
  length_eq : l.length = v.length
  each : Walk.Conducts Walk.never (Walk.numbered l) (fun _ => ())
    fun _ _ call => v.each fun i x => call (i, x)
  eachReverse : Walk.Conducts Walk.never (Walk.numbered l).reverse (fun _ => ())
    fun _ _ call => v.eachReverse fun i x => call (i, x)
  eachInPlace : Walk.ConductsInPlace (fun v i => .ok (v.peek i))
    (fun v v' => v'.length = v.length ∧ Slots.SamePlace v.slots v'.slots) (Walk.numbered l) v
    fun _ _ => eachInPlace
  /-- The answer is the first position with the property, or the length where there is none. -/
  search : Walk.Conducts id (Walk.numbered l) (fun found => found.elim v.length Prod.fst)
    fun _ _ call => v.search fun i x => call (i, x)

variable [LawfulElement α] {v : Sequence α}

theorem Sound.conductsInPlace (h : v.Sound) :
    Walk.ConductsInPlace (fun v i => .ok (v.peek i))
      (fun v v' => v'.length = v.length ∧ Slots.SamePlace v.slots v'.slots)
      (Walk.numbered v.toList) v fun _ _ => eachInPlace := by
  rw [h.toList_eq, Walk.numbered_map_range]
  refine Walk.conductsInPlace_slots (fun slots => (⟨slots, v.length⟩ : Sequence α))
    List.nodup_range h.ready h.locates ?_ (fun _ hplace => ⟨rfl, hplace⟩) ?_
  · intro s' hplace hready
    have hpeek : (⟨s', v.length⟩ : Sequence α).peek = s'.item :=
      (h.rewritten hplace hready h.length_le).sound.peek_eq
    constructor
    · intro i _
      show Except.ok ((⟨s', v.length⟩ : Sequence α).peek i) = _
      rw [hpeek]
    · intro i hitem
      show Except.ok ((⟨s', v.length⟩ : Sequence α).peek i) = Except.ok (v.peek i)
      rw [hpeek, h.peek_eq, hitem]
  · intro ε ν visitor n n' answer s' hrun
    cases answer with
    | ok _ => simp only [eachInPlace, hrun, Prog.ending]
    | error e => simp only [eachInPlace, hrun, Prog.ending]

theorem Sound.walksInOrder (h : v.Sound) : v.WalksInOrder v.toList where
  list_eq := rfl
  length_eq := length_toList v
  each := Walk.conducts_forward fun _ _ => rfl
  eachReverse := Walk.conducts_backward fun _ _ => rfl
  eachInPlace := h.conductsInPlace
  search := Walk.conducts_find fun _ _ => rfl

end Sequence

namespace Buffer

variable {α : Type} [Element α]

/-- All walks over a buffer, and searches in it, call for the elements of its visible slots in order.  In
place they leave the hidden slots as they are. -/
structure WalksInOrder (b : Buffer α) (l : List α) : Prop where
  list_eq : b.toList = .ok l
  length_eq : l.length = b.limit
  each : Walk.Conducts Walk.never (Walk.numbered l) (fun _ => ())
    fun _ _ call => b.each fun i x => call (i, x)
  eachReverse : Walk.Conducts Walk.never (Walk.numbered l).reverse (fun _ => ())
    fun _ _ call => b.eachReverse fun i x => call (i, x)
  eachInPlace : Walk.ConductsInPlace read
    (fun b b' => b'.limit = b.limit ∧ Slots.SamePlace b.slots b'.slots) (Walk.numbered l) b
    fun _ _ => eachInPlace
  /-- The answer is the first visible slot with the property, or the limit where there is none. -/
  search : Walk.Conducts id (Walk.numbered l) (fun found => found.elim b.limit Prod.fst)
    fun _ _ call => b.search fun i x => call (i, x)

variable [LawfulElement α] {b : Buffer α} {w : Window α} {align : Nat}

theorem Holds.conductsInPlace (h : b.Holds align w) :
    Walk.ConductsInPlace read (fun b b' => b'.limit = b.limit ∧ Slots.SamePlace b.slots b'.slots)
      (Walk.numbered w.visible) b fun _ _ => eachInPlace := by
  have hcapacity : ∀ i ∈ Walk.forward b.limit, i < b.slots.capacity := fun i hi =>
    Nat.lt_of_lt_of_le (Walk.lt_of_mem_forward hi) h.limit_le
  rw [h.visible_eq, Walk.numbered_map_range]
  refine Walk.conductsInPlace_offset (fun slots => (⟨slots, b.limit⟩ : Buffer α)) List.nodup_range
    h.ready h.size_le hcapacity (fun _ _ => rfl) (fun _ hplace => ⟨rfl, hplace⟩) ?_
  intro ε ν visitor n n' answer s' hrun
  cases answer with
  | ok _ => simp only [eachInPlace, hrun, Prog.ending]
  | error e => simp only [eachInPlace, hrun, Prog.ending]

theorem Holds.walksInOrder (h : b.Holds align w) : b.WalksInOrder w.visible := by
  have hread : ∀ i < b.limit, b.read i = .ok (b.slots.item i) := fun i hi =>
    h.read_eq (Nat.lt_of_lt_of_le hi h.limit_le)
  refine ⟨toList_eq h, ?_, ?_, ?_, h.conductsInPlace, ?_⟩
  · rw [w.length_visible, h.limit_eq]
  all_goals rw [h.visible_eq]
  · exact Walk.conducts_forward hread
  · exact Walk.conducts_backward hread
  · exact Walk.conducts_find hread

end Buffer

namespace StaticArray

variable {α : Type} {n : Nat} [Element α]

/-- All walks over an array call for its elements in order, from either end. -/
structure WalksInOrder (a : StaticArray α n) (l : List α) : Prop where
  list_eq : a.toList = .ok l
  length_eq : l.length = n
  each : Walk.Conducts Walk.never (Walk.numbered l) (fun _ => ())
    fun _ _ call => a.each fun i x => call (i, x)
  eachReverse : Walk.Conducts Walk.never (Walk.numbered l).reverse (fun _ => ())
    fun _ _ call => a.eachReverse fun i x => call (i, x)
  eachInPlace : Walk.ConductsInPlace read (fun a a' => Slots.SamePlace a.slots a'.slots)
    (Walk.numbered l) a fun _ _ => eachInPlace
  eachReverseInPlace : Walk.ConductsInPlace read (fun a a' => Slots.SamePlace a.slots a'.slots)
    (Walk.numbered l).reverse a fun _ _ => eachReverseInPlace

variable [LawfulElement α] {a : StaticArray α n}

theorem Sound.visitInOrder_conducts (h : a.Sound) {order : List Nat} (hnodup : order.Nodup)
    (horder : ∀ i ∈ order, i < n) :
    Walk.ConductsInPlace read (fun a a' => Slots.SamePlace a.slots a'.slots)
      (order.map fun i => (i, a.slots.item i)) a fun _ _ => visitInOrder order := by
  have hcapacity : ∀ i ∈ order, i < a.slots.capacity := by
    rw [h.capacity_eq]
    exact horder
  refine Walk.conductsInPlace_offset (fun slots => (⟨slots⟩ : StaticArray α n)) hnodup h.ready
    h.size_le hcapacity (fun _ _ => rfl) (fun _ hplace => hplace) ?_
  intro ε ν visitor m m' answer s' hrun
  cases answer with
  | ok _ => simp only [visitInOrder, hrun, Prog.ending]
  | error e => simp only [visitInOrder, hrun, Prog.ending]

theorem Sound.walksInOrder (h : a.Sound) :
    a.WalksInOrder ((List.range n).map a.slots.item) where
  list_eq := toList_eq h
  length_eq := by simp
  each := Walk.conducts_forward fun _ hi => h.read_eq hi
  eachReverse := Walk.conducts_backward fun _ hi => h.read_eq hi
  eachInPlace := by
    rw [Walk.numbered_map_range]
    exact h.visitInOrder_conducts List.nodup_range fun _ hi => Walk.lt_of_mem_forward hi
  eachReverseInPlace := by
    rw [Walk.reverse_numbered_map_range]
    exact h.visitInOrder_conducts (List.nodup_reverse.mpr List.nodup_range) fun _ hi =>
      Walk.lt_of_mem_backward hi

end StaticArray

namespace ProbeTable

open Row

variable {κ υ : Type}

/-- The pair in a slot that is not empty. -/
def pairIn (e : Entry κ υ) : Option (κ × υ) := if e.hash ≠ 0 then some (e.key, e.value) else none

theorem filterMap_pairIn (row : Row κ υ) (indices : List Nat) :
    (indices.filterMap fun i => pairIn (row i)) =
      (gather indices row).map fun e => (e.key, e.value) := by
  induction indices with
  | nil => rfl
  | cons i rest ih =>
    by_cases hempty : (row i).hash = 0
    · have hpair : pairIn (row i) = none := if_neg (not_not.mpr hempty)
      rw [List.filterMap_cons, hpair, gather_cons_of_empty rest hempty]
      exact ih
    · have hpair : pairIn (row i) = some ((row i).key, (row i).value) := if_pos hempty
      rw [List.filterMap_cons, hpair, gather_cons_of_full rest hempty, List.map_cons, ← ih]

variable [Element κ] [Element υ]

/-- A walk over a table calls for the pairs of its list in their order. -/
structure WalksInOrder (t : ProbeTable κ υ) (l : List (κ × υ)) : Prop where
  list_eq : t.toList = .ok l
  each : Walk.Conducts Walk.never l (fun _ => ()) fun _ _ call => t.each fun key x => call (key, x)

theorem Sound.walksInOrder {t : ProbeTable κ υ} (h : t.Sound) :
    t.WalksInOrder (t.entries.map fun e => (e.key, e.value)) where
  list_eq := toList_eq h
  each := by
    apply Walk.conducts_of_calls
    intro ε σ call n
    have hvisitor : ∀ (_ : Nat) (e : Entry κ υ),
        (if e.hash ≠ 0 then call (e.key, e.value) else pure ()) =
          (pairIn e).elim (pure ()) call := by
      intro _ e
      unfold pairIn
      split <;> rfl
    have hcalls := Walk.visit_calls (fun _ => pairIn) call
      (fun i hi => entryAt_eq h.fitted (Walk.lt_of_mem_forward hi)) hvisitor n
    rw [filterMap_pairIn] at hcalls
    exact hcalls

end ProbeTable

section Walks

variable {α κ υ μ : Type} [Element α] [LawfulElement α] [Initial α] [Element κ] [LawfulElement κ]
  [Element υ] [LawfulElement υ]

/-- **Every walk and every search** over a container that comes about, by whatever calls, calls for its
elements with their positions in order and stops with the first failure, which is its result.  In place,
what the visitor leaves in the elements that it is called for is kept, also in the one where it fails, and
nothing else changes. -/
theorem walks_call_in_order (keying : Keying κ) (align n : Nat) :
    (∀ v, (Sequence.lifecycle α μ).Reaches v → ∃ l, Sequence.WalksInOrder v l) ∧
      (∀ b, (Buffer.lifecycle α μ align).Reaches b → ∃ l, Buffer.WalksInOrder b l) ∧
      (∀ a, (StaticArray.lifecycle α μ n align).Reaches a → ∃ l, StaticArray.WalksInOrder a l) ∧
      ∀ t, (ProbeTable.lifecycle keying υ μ).Reaches t → ∃ l, ProbeTable.WalksInOrder t l := by
  refine ⟨fun v hv => ?_, fun b hb => ?_, fun a ha => ?_, fun t ht => ?_⟩
  · have hsound : Sequence.Sound v := (Sequence.tended α μ).kept_of_reaches hv
    exact ⟨_, hsound.walksInOrder⟩
  · obtain ⟨w, hholds⟩ : Buffer.Sound align b := (Buffer.tended α μ align).kept_of_reaches hb
    exact ⟨_, hholds.walksInOrder⟩
  · have hsound : StaticArray.Sound a := (StaticArray.tended α μ n align).kept_of_reaches ha
    exact ⟨_, hsound.walksInOrder⟩
  · have hsound : ProbeTable.Sound t := (ProbeTable.tended keying υ μ).kept_of_reaches ht
    exact ⟨_, hsound.walksInOrder⟩

end Walks

/-- A sequence of three numbers, and a visitor that fails at the second one: from the end, it is called
for the third one and for the second one, and for no other. -/
theorem walks_call_in_order_backward :
    ∃ v : Sequence (FixedInt ⟨32, true⟩),
      (Sequence.lifecycle (FixedInt ⟨32, true⟩) Unit).Reaches v ∧
      v.toList = [.ofInt _ 5, .ofInt _ 7, .ofInt _ 9] ∧
      v.eachReverse (fun i x => Walk.logged
          (fun p => if p.2 = .ofInt _ 7 then Prog.fail () else pure ()) (i, x)) ([], ()) =
        .error (.error ()) ([(2, .ofInt _ 9), (1, .ofInt _ 7)], ()) := by
  let calls : List (SequenceCall (FixedInt ⟨32, true⟩) Unit) :=
    [.step (.push (.ofInt _ 5)), .step (.push (.ofInt _ 7)), .step (.push (.ofInt _ 9))]
  let stop : Nat × FixedInt ⟨32, true⟩ → Prog Unit Unit Unit := fun p =>
    if p.2 = .ofInt _ 7 then Prog.fail () else pure ()
  have hlist : (Prog.session SequenceCall.run calls
      ((⟨Slots.empty 4 8, 0⟩, ()), Host.ordinary)).2.1.1.toList =
      [.ofInt _ 5, .ofInt _ 7, .ofInt _ 9] := by decide +kernel
  have hreaches : (Sequence.lifecycle (FixedInt ⟨32, true⟩) Unit).Reaches
      (Prog.session SequenceCall.run calls ((⟨Slots.empty 4 8, 0⟩, ()), Host.ordinary)).2.1.1 :=
    ⟨Host.ordinary, Host.ordinary, ⟨Slots.empty 4 8, 0⟩, (), calls, Host.ordinary_sound.inBounds,
      rfl, rfl⟩
  refine ⟨_, hreaches, hlist, ?_⟩
  obtain ⟨hsequence, _⟩ := walks_call_in_order (α := FixedInt ⟨32, true⟩)
    (υ := FixedInt ⟨32, true⟩) (μ := Unit) (Keying.mk (fun _ : Bool => 1) (· == ·)) 16 0
  obtain ⟨l, hwalks⟩ := hsequence _ hreaches
  obtain rfl : _ = l := hlist.symm.trans hwalks.list_eq
  obtain ⟨made, result, n', hconducted⟩ := hwalks.eachReverse Unit Unit stop ()
  have hcalls : Walk.Calls stop Walk.never [(2, .ofInt _ 9), (1, .ofInt _ 7), (0, .ofInt _ 5)] ()
      [(2, .ofInt _ 9), (1, .ofInt _ 7)] (.error (.error ())) () := .next rfl rfl (.failed rfl)
  obtain ⟨rfl, rfl, rfl⟩ := hcalls.unique hconducted.calls
  exact hconducted.log_eq

end AlignedSlots
