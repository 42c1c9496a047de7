import Mathlib
import AlignedSlots.Container.StaticArray
import AlignedSlots.Proofs.Container.SlotFilling
import AlignedSlots.Proofs.Container.SlotOwnership
import AlignedSlots.Proofs.Memory.Rounding

/-!
# Operations of a static array

`StaticArray.Sound` is what every operation of a static array relies on and keeps: its slots are ready, and
there is one for each of its elements.  The block is allocated when the array is made, and no operation
asks the heap for anything.
-/

namespace AlignedSlots

namespace StaticArray

variable {α ε ν : Type} {n i : Nat} [Element α] {a : StaticArray α n} {host : Host}

/-- What the operations of an array rely on. -/
structure Sound (a : StaticArray α n) : Prop where
  ready : a.slots.Ready
  capacity_eq : a.slots.capacity = n
  size_le : Element.size α ≤ a.slots.stride

/-- Slots in the same place are again those of a sound array. -/
theorem Sound.rewritten (h : a.Sound) {slots : Slots} (hplace : Slots.SamePlace a.slots slots)
    (hready : slots.Ready) : (⟨slots⟩ : StaticArray α n).Sound := by
  refine ⟨hready, hplace.capacity_eq.trans h.capacity_eq, ?_⟩
  rw [hplace.stride_eq]
  exact h.size_le

theorem Sound.offset_eq (h : a.Sound) (hi : i < n) : a.slots.offset i = .ok (i * a.slots.stride) :=
  h.ready.offset_eq (by rw [h.capacity_eq]; exact hi)

/-! ## Reading -/

section Access

theorem Sound.read_eq (h : a.Sound) (hi : i < n) : a.read i = .ok (a.slots.item i) := by
  have hcapacity : i < a.slots.capacity := by
    rw [h.capacity_eq]
    exact hi
  exact (h.ready.read_eq α i).trans (if_pos hcapacity)

theorem get_eq (h : a.Sound) (i : Nat) :
    a.get i = if i < n then .ok (a.slots.item i) else .error (.error .illegalArgument) := by
  unfold get
  by_cases hi : i < n
  · rw [if_neg (Nat.not_le.mpr hi), if_pos hi, h.read_eq hi]
    rfl
  · rw [if_pos (Nat.le_of_not_lt hi), if_neg hi]

theorem last_eq (h : a.Sound) :
    a.last = if 0 < n then .ok (a.slots.item (n - 1)) else .error (.error .illegalArgument) := by
  cases n with
  | zero => rfl
  | succ k =>
    rw [if_pos (Nat.succ_pos k)]
    show a.get k = _
    rw [get_eq h, if_pos (Nat.lt_succ_self k)]
    rfl

theorem toList_eq (h : a.Sound) : a.toList = .ok ((List.range n).map a.slots.item) :=
  mapM_eq_ok fun _ hi => h.read_eq (List.mem_range.mp hi)

/-! ## Writing -/

/-- An element is put into its slot. -/
theorem replace_eq (h : a.Sound) {i : Nat} (hi : i < n) (x : α) (host : Host) :
    replace i x (a, host) = .ok (a.slots.load (i * a.slots.stride))
      (⟨a.slots.store (i * a.slots.stride) x⟩, host) := by
  unfold replace
  simp only [if_neg (Nat.not_le.mpr hi), h.offset_eq hi]

theorem replace_error {i : Nat} (hout : n ≤ i) (x : α) (host : Host) :
    replace i x (a, host) = .error (.error .illegalArgument) (a, host) := by
  unfold replace
  simp only [if_pos hout]

variable [LawfulElement α]

theorem Sound.reaches (h : a.Sound) (hi : i < n) : a.slots.Reaches α i (i * a.slots.stride) :=
  h.ready.reaches (by rw [h.capacity_eq]; exact hi) h.size_le

/-- **Replacing** an element, or failing where there is none. -/
theorem replace_ends (h : a.Sound) (i : Nat) (x : α) (host : Host) :
    (replace i x).Ends (a, host)
      (fun old s => i < n ∧ old = a.slots.item i ∧ s.1.Sound ∧
        Slots.SamePlace a.slots s.1.slots ∧ s.2 = host)
      (fun e s => n ≤ i ∧ e = .error .illegalArgument ∧ s = (a, host)) := by
  by_cases hi : i < n
  · have hplace := Slots.samePlace_store a.slots (i * a.slots.stride) x
    apply Prog.Ends.of_ok (replace_eq h hi x host)
    exact ⟨hi, (h.reaches hi).load_eq, h.rewritten hplace (h.ready.store _ _), hplace, rfl⟩
  · have hout : n ≤ i := Nat.le_of_not_lt hi
    exact Prog.Ends.of_error (replace_error hout x host) ⟨hout, rfl, rfl⟩

theorem replaceLast_ends (h : a.Sound) (x : α) (host : Host) :
    (replaceLast x).Ends (a, host)
      (fun _ s => s.1.Sound ∧ Slots.SamePlace a.slots s.1.slots ∧ s.2 = host)
      (fun e s => n = 0 ∧ e = .error .illegalArgument ∧ s = (a, host)) := by
  unfold replaceLast
  cases n with
  | zero => exact Prog.Ends.bind_error (Prog.lift_failure_error rfl) ⟨rfl, rfl, rfl⟩
  | succ k =>
    apply Prog.Ends.bind_ok (Prog.lift_failure_ok (a := k) rfl)
    apply (replace_ends h k x host).mono
    · exact fun _ _ hok => hok.2.2
    · exact fun _ _ ⟨hout, _⟩ => absurd hout (by omega)

/-- **A walk in place** leaves the slots where they are, and fails only as its visitor does. -/
theorem visitInOrder_ends (h : a.Sound) {order : List Nat} (horder : ∀ i ∈ order, i < n)
    (visitor : Nat → Prog ε (α × ν) Unit) (m : ν) :
    (visitInOrder order visitor).Ends (a, m)
      (fun _ s => s.1.Sound ∧ Slots.SamePlace a.slots s.1.slots)
      (fun e s => s.1.Sound ∧ Slots.SamePlace a.slots s.1.slots ∧
        Walk.RaisesInPlace visitor e) := by
  have hcapacity : ∀ i ∈ order, i < a.slots.capacity := fun i hi => by
    rw [h.capacity_eq]
    exact horder i hi
  have hraises := Walk.visitRow_raises visitor order a.slots.item m
  rcases (Walk.visitSlots_ends visitor h.ready h.size_le hcapacity m).run_eq with
    ⟨_, s, heq, _, _, hplace, hready, _⟩ | ⟨e, s, heq, _, hrow, hplace, hready, _⟩
  · have hrun : visitInOrder order visitor (a, m) = .ok () (⟨s.1⟩, s.2) := by
      simp only [visitInOrder, heq]
    exact Prog.Ends.of_ok hrun ⟨h.rewritten hplace hready, hplace⟩
  · have hrun : visitInOrder order visitor (a, m) = .error e (⟨s.1⟩, s.2) := by
      simp only [visitInOrder, heq]
    exact Prog.Ends.of_error hrun ⟨h.rewritten hplace hready, hplace, hraises.of_run_error hrow⟩

end Access

/-! ## Making an array -/

section Making

variable [LawfulElement α] [Initial α]

/-- The first half of making an array: its slots are cleared, or no block is left out. -/
theorem clearedSlots_ends {stride align : Nat} (n : Nat) (host : Host) (hstride : 0 < stride)
    (bounds : host.heap.placement.InBounds) :
    (Prog.mapError ContainerError.ofAlloc (Slots.cleared stride align n)).Ends host
      (fun s host' => s.Ready ∧ s.capacity = n ∧ s.stride = stride ∧
        Turnover host.heap none s.base host'.heap)
      (fun e host' => Turnover host.heap none none host'.heap ∧
        (ValidAlign align → e = .error .badAlloc)) := by
  apply Prog.Ends.mapError
  apply (Slots.cleared_turnover host n hstride bounds).mono
  · exact fun _ _ hok => hok
  · rintro e host' ⟨hturn, hrefused⟩
    exact ⟨hturn, fun valid => hrefused valid ▸ rfl⟩

/-- The second half: every slot gets the initial value, in the same block. -/
theorem exists_initialised {slots : Slots} (hready : slots.Ready) (hcapacity : slots.capacity = n)
    (hsize : Element.size α ≤ slots.stride) (host : Host) :
    ∃ slots', (Slots.initialise α 0 n : Hosted ε Slots Unit) (slots, host) =
        .ok () (slots', host) ∧
      (⟨slots'⟩ : StaticArray α n).Sound ∧ Slots.SamePlace slots slots' ∧
      ∀ i < n, slots'.item i = (Initial.initial : α) := by
  have hfit : 0 + n ≤ slots.capacity := by omega
  obtain ⟨_, ⟨slots', host'⟩, heq, hcarries, hhost⟩ :=
    (Slots.initialise_ends (ε := ε) hready hsize hfit host).exists_ok
  obtain rfl : host' = host := hhost
  have hplace := hcarries.place
  refine ⟨slots', heq, ⟨hcarries.ready, hplace.capacity_eq.trans hcapacity, ?_⟩, hplace, ?_⟩
  · rw [hplace.stride_eq]
    exact hsize
  · intro i hi
    rw [hcarries.item_eq]
    exact if_pos (by omega)

/-- Two checks come before the heap is asked: that of the alignment, and that of the distance.  Behind them
an array is made of cleared slots, where they can be had. -/
theorem create_of_cleared {stride align : Nat} (hpower : align.isPowerOfTwo)
    (hstride : Slots.strideOf (Element.size α) (max align (Element.align α)) = .ok stride)
    {Q : Slots → Host → Prop} {E : Failure ContainerError → Host → Prop} {host : Host}
    (bounds : host.heap.placement.InBounds)
    (hcleared : (Prog.mapError ContainerError.ofAlloc
      (Slots.cleared stride (max align (Element.align α)) n)).Ends host Q E) :
    (create α n align).Ends host
      (fun a host' => ∃ slots, Q slots host' ∧ Slots.SamePlace slots a.slots ∧ a.Sound ∧
        ∀ i < n, a.slots.item i = (Initial.initial : α)) E := by
  have hassert : assertPowerOfTwo align = .ok () := if_pos hpower
  have hmax : (max align (Element.align α)).isPowerOfTwo :=
    isPowerOfTwo_max hpower LawfulElement.align_isPowerOfTwo
  obtain ⟨hsize, hpos⟩ := Slots.room_of_strideOf hmax hstride
  unfold create
  apply Prog.Ends.bind_ok (Prog.lift_ok hassert)
  apply Prog.Ends.bind_ok (Prog.lift_ok hstride)
  apply ((clearedSlots_ends n host hpos bounds).and hcleared).bind _ fun _ _ herror => herror.2
  rintro slots host' ⟨⟨hready, hcapacity, rfl, _⟩, hQ⟩
  obtain ⟨slots', heq, hsound, hplace, hinitial⟩ :=
    exists_initialised (ε := ContainerError) hready hcapacity hsize host'
  refine Prog.Ends.of_ok (?_ : _ = EStateM.Result.ok (⟨slots'⟩ : StaticArray α n) host') ?_
  · simp only [heq]
  · exact ⟨slots, hQ, hplace, hsound, hinitial⟩

omit [LawfulElement α] in
/-- Where a check fails, the heap is not asked. -/
theorem create_of_unchecked {align : Nat} {f : Fault} (host : Host)
    (h : assertPowerOfTwo align = .error f ∨
      assertPowerOfTwo align = .ok () ∧
        Slots.strideOf (Element.size α) (max align (Element.align α)) = .error f) :
    create α n align host = .error (.fault f) host := by
  unfold create
  rcases h with hassert | ⟨hassert, hstride⟩
  · exact Prog.bind_error (Prog.lift_error hassert)
  · rw [Prog.bind_ok (Prog.lift_ok hassert)]
    exact Prog.bind_error (Prog.lift_error hstride)

/-- **An array** is made with its one block, or no block is left out.  With a supported layout only the
allocation can go wrong. -/
theorem create_ends (n align : Nat) (host : Host) (bounds : host.heap.placement.InBounds) :
    (create α n align).Ends host
      (fun a host' => a.Sound ∧ Turnover host.heap none a.slots.base host'.heap)
      (fun e host' => Turnover host.heap none none host'.heap ∧
        (Element.size α < 2 ^ 63 → align.isPowerOfTwo → ValidAlign (max align (Element.align α)) →
          e = .error .badAlloc)) := by
  by_cases hpower : align.isPowerOfTwo
  · have hassert : assertPowerOfTwo align = .ok () := if_pos hpower
    have hmax : (max align (Element.align α)).isPowerOfTwo :=
      isPowerOfTwo_max hpower LawfulElement.align_isPowerOfTwo
    cases hstride : Slots.strideOf (Element.size α) (max align (Element.align α)) with
    | error f =>
      refine Prog.Ends.of_error (create_of_unchecked host (.inr ⟨hassert, hstride⟩))
        ⟨.kept none, fun hsize _ valid => ?_⟩
      rw [Slots.strideOf_eq_ok hsize valid] at hstride
      cases hstride
    | ok stride =>
      have hpos := (Slots.room_of_strideOf hmax hstride).2
      apply (create_of_cleared hpower hstride bounds (clearedSlots_ends n host hpos bounds)).mono
      · rintro a host' ⟨slots, ⟨_, _, _, hturn⟩, hplace, hsound, _⟩
        exact ⟨hsound, hplace.base_eq ▸ hturn⟩
      · exact fun e host' ⟨hturn, hrefused⟩ => ⟨hturn, fun _ _ valid => hrefused valid⟩
  · have hassert : assertPowerOfTwo align = .error .notPowerOfTwo := if_neg hpower
    exact Prog.Ends.of_error (create_of_unchecked host (.inl hassert))
      ⟨.kept none, fun _ power => absurd power hpower⟩

end Making

/-- **Dropping** an array gives its block back. -/
theorem drop_ends (h : a.Sound) (host : Host) :
    drop.Ends (a, host)
      (fun _ s => s.2.heap = host.heap.after (a.slots.base.toList.map HeapEvent.freed))
      (fun _ _ => False) := by
  obtain ⟨_, s, heq, hheap⟩ :=
    (Slots.release_ends (ε := ContainerError) h.ready host).exists_ok
  have hrun : drop (a, host) = .ok () (⟨s.1⟩, s.2) := by
    unfold drop
    simp only [heq]
  exact Prog.Ends.of_ok hrun hheap

end StaticArray

end AlignedSlots
