import Mathlib
import AlignedSlots.Proofs.Container.SequenceInvariant
import AlignedSlots.Proofs.Container.WalkLaws

/-!
# Operations of a sequence

Each operation is described by the list that it makes of the elements: an insertion is
`List.insertIdx`, an erasure `List.eraseIdx`, a walk in place `Walk.visitList`.  Operations that put
elements in make room before anything else, so that nothing has changed yet where the room is denied.
-/

namespace AlignedSlots

namespace Sequence

variable {α ε ν : Type}

/-! ## The parts of an operation -/

section Parts

variable {β : Type} {v : Sequence α} {host : Host} {f : Sequence α → Except (Failure ε) β}

theorem ask_ok {b : β} (h : f v = .ok b) (host : Host) :
    (ask f : Hosted ε (Sequence α) β) (v, host) = .ok b (v, host) := by
  unfold ask
  simp only [h]

theorem ask_error {e : Failure ε} (h : f v = .error e) (host : Host) :
    (ask f : Hosted ε (Sequence α) β) (v, host) = .error e (v, host) := by
  unfold ask
  simp only [h]

theorem currentLength_eq (v : Sequence α) (host : Host) :
    (currentLength : Hosted ε (Sequence α) Nat) (v, host) = .ok v.length (v, host) := rfl

theorem locate_eq (h : v.slots.Ready) {i : Nat} (hi : i < v.slots.capacity) (host : Host) :
    (locate i : Hosted ε (Sequence α) Nat) (v, host) = .ok (i * v.slots.stride) (v, host) :=
  ask_ok (congrArg Failure.ofChecked (h.offset_eq hi)) host

theorem updateSlots_eq (g : Slots → Slots) (v : Sequence α) (host : Host) :
    (updateSlots g : Hosted ε (Sequence α) Unit) (v, host) = .ok () (⟨g v.slots, v.length⟩, host) :=
  rfl

theorem setLength_eq (length : Nat) (v : Sequence α) (host : Host) :
    (setLength length : Hosted ε (Sequence α) Unit) (v, host) = .ok () (⟨v.slots, length⟩, host) :=
  rfl

theorem onSlots_ends {m : Hosted Refusal Slots β} {Q : β → Slots × Host → Prop}
    {E : Failure Refusal → Slots × Host → Prop} (h : m.Ends (v.slots, host) Q E) :
    (onSlots m : Hosted ContainerError (Sequence α) β).Ends (v, host)
      (fun b s => s.1.length = v.length ∧ Q b (s.1.slots, s.2))
      (fun e s => s.1.length = v.length ∧ ∃ r, e = r.map .ofAlloc ∧ E r (s.1.slots, s.2)) := by
  rcases h.run_eq with ⟨b, s, heq, hq⟩ | ⟨r, s, heq, he⟩
  · have hrun : onSlots m (v, host) = .ok b (⟨s.1, v.length⟩, s.2) := by
      simp only [onSlots, heq]
    exact Prog.Ends.of_ok hrun ⟨rfl, hq⟩
  · have hrun : onSlots m (v, host) = .error (r.map .ofAlloc) (⟨s.1, v.length⟩, s.2) := by
      simp only [onSlots, heq]
    exact Prog.Ends.of_error hrun ⟨rfl, r, rfl, he⟩

end Parts

/-! ## Putting elements in -/

section Insert

variable [Element α] {v : Sequence α} {i requested : Nat}

/-- **Making room** for elements. -/
theorem reserve_ends (h : v.Sound) (hreq : requested ≤ Word.greatest) (host : Host)
    (bounds : host.heap.placement.InBounds) :
    (reserve requested).Ends (v, host) (fun _ s => v.Grown requested host.heap s.1 s.2.heap)
      (fun e s => s.1 = v ∧ v.Denied requested host.heap s.2.heap e) := by
  unfold reserve
  apply (onSlots_ends (Slots.reserve_ends host h.ready hreq bounds)).bind
  · rintro _ s ⟨hlength, _, hreserved⟩
    exact Prog.Ends.pure ⟨hlength, hreserved⟩
  · rintro _ ⟨⟨slots, length⟩, host'⟩ ⟨hlength, r, rfl, hslots, hlt, hdenied⟩
    cases hlength
    cases hslots
    exact ⟨rfl, hlt, r, rfl, hdenied⟩

variable [LawfulElement α]

/-- Elements that move by whole slots. -/
theorem Sound.item_move (h : v.Sound) {source target count : Nat}
    (hs : source + count ≤ v.slots.capacity) (ht : target + count ≤ v.slots.capacity) (j : Nat) :
    ((v.slots.move (source * v.slots.stride) (target * v.slots.stride)
        (count * Element.size α)).item j : α) =
      if target ≤ j ∧ j < target + count then v.slots.item (source + (j - target))
      else v.slots.item j := by
  rcases h.packed with hzero | heq
  · have : Subsingleton α := LawfulElement.subsingleton hzero
    exact Subsingleton.elim _ _
  · rw [← heq]
    exact Slots.item_move h.ready (Nat.le_of_eq heq.symm) hs ht j

/-- An element is stored where the elements behind it have made room. -/
theorem Sound.inserted (h : v.Sound) (hi : i ≤ v.length) (hroom : v.length < v.slots.capacity) (x : α)
    {slots : Slots} (hplace : Slots.SamePlace v.slots slots) (hready : slots.Ready)
    (hitem : ∀ j, (slots.item j : α) =
      if i < j ∧ j ≤ v.length then v.slots.item (j - 1) else v.slots.item j) :
    Rewritten v ⟨slots.store (i * slots.stride) x, v.length + 1⟩ (v.toList.insertIdx i x) := by
  have hcapacity : i < slots.capacity := by
    rw [hplace.capacity_eq]
    omega
  have hsize : Element.size α ≤ slots.stride := by
    rw [hplace.stride_eq]
    exact h.size_le
  have hstored := Slots.item_store hready hcapacity hsize x
  have hrow : (List.range (v.length + 1)).map (slots.store (i * slots.stride) x).item =
      v.toList.insertIdx i x := by
    rw [h.toList_eq, hstored]
    apply Slots.map_range_insertIdx hi
    · intro j hj
      rw [Function.update_of_ne (Nat.ne_of_lt hj), hitem, if_neg (by omega)]
    · rw [Function.update_self]
    · intro j hij hj
      rw [Function.update_of_ne (by omega), hitem, if_pos (by omega), Nat.add_sub_cancel]
  rw [← hrow]
  exact h.rewritten (hplace.trans (Slots.samePlace_store _ _ _)) (hready.store _ _) hroom

/-- The end of an insertion, when the slots have made room for the element. -/
theorem Sound.insertion_ends (h : v.Sound) (hi : i ≤ v.length) (hroom : v.length < v.slots.capacity)
    (x : α) {slots : Slots} (hplace : Slots.SamePlace v.slots slots) (hready : slots.Ready)
    (hitem : ∀ j, (slots.item j : α) =
      if i < j ∧ j ≤ v.length then v.slots.item (j - 1) else v.slots.item j) (host : Host) :
    (do let offset ← locate i
        updateSlots fun s => s.store offset x
        setLength (v.length + 1) : Hosted ContainerError (Sequence α) Unit).Ends
      (⟨slots, v.length⟩, host)
      (fun _ s => Rewritten v s.1 (v.toList.insertIdx i x) ∧ s.2 = host) (fun _ _ => False) := by
  have hcapacity : i < slots.capacity := by
    rw [hplace.capacity_eq]
    omega
  apply Prog.Ends.bind_ok (locate_eq (v := ⟨slots, v.length⟩) hready hcapacity _)
  apply Prog.Ends.bind_ok (updateSlots_eq _ _ _)
  apply Prog.Ends.of_ok (setLength_eq _ _ _)
  exact ⟨h.inserted hi hroom x hplace hready hitem, rfl⟩

/-- **Inserting.** Only the growth can go wrong, and then nothing has changed. -/
theorem insert_ends (h : v.Sound) (index : Nat) (x : α) (host : Host)
    (bounds : host.heap.placement.InBounds) :
    (insert index x).Ends (v, host)
      (fun _ s => ∃ v₁, v.Grown (v.length + 1) host.heap v₁ s.2.heap ∧
        Rewritten v₁ s.1 (v.toList.insertIdx (min index v.length) x))
      (fun e s => s.1 = v ∧ v.Denied (v.length + 1) host.heap s.2.heap e) := by
  have hword := h.ready.capacity_lt
  have hlength := h.length_le
  have hadd : Word.add? v.length 1 = some (v.length + 1) :=
    Word.add?_eq_some_iff.mpr ⟨by omega, rfl⟩
  unfold insert
  apply Prog.Ends.bind_ok (currentLength_eq v host)
  simp only [hadd]
  apply (reserve_ends h (by omega) host bounds).bind _ fun _ _ hdenied => hdenied
  rintro _ ⟨v₁, host₁⟩ (hgrown : v.Grown (v.length + 1) host.heap v₁ host₁.heap)
  obtain ⟨hsound, hlist⟩ := hgrown.sound h bounds
  have hlimit := hsound.ready.capacity_lt
  have hroom : v₁.length < v₁.slots.capacity := by
    rw [hgrown.length_eq]
    exact hgrown.reserved.requested_le
  rw [← hgrown.length_eq, ← hlist]
  generalize hmin : min index v₁.length = i
  have hi : i ≤ v₁.length := hmin ▸ Nat.min_le_right _ _
  have hgrown' : v.Grown (v₁.length + 1) host.heap v₁ host₁.heap := by
    rw [hgrown.length_eq]
    exact hgrown
  apply Hosted.trace_ends
  intro log
  by_cases hlast : i < v₁.length
  · rw [if_pos hlast]
    have hcapacity : i + 1 < v₁.slots.capacity := by omega
    apply Prog.Ends.bind_ok (locate_eq hsound.ready (by omega) _)
    apply Prog.Ends.bind_ok (Prog.lift_ok (Word.add_eq_ok (by omega)))
    apply Prog.Ends.bind_ok (locate_eq hsound.ready hcapacity _)
    apply Prog.Ends.bind_ok (Prog.lift_ok (Word.sub_eq_ok hi))
    apply Prog.Ends.bind_ok (updateSlots_eq _ _ _)
    apply (hsound.insertion_ends hi hroom x (Slots.samePlace_move _ _ _ _)
      (hsound.ready.move _ _ _) ?_ _).mono
    · rintro _ ⟨v₂, _⟩ ⟨hrewritten, rfl⟩
      exact ⟨v₁, hgrown', hrewritten⟩
    · exact fun _ _ hfalse => hfalse.elim
    · intro j
      rw [hsound.item_move (by omega) (by omega)]
      by_cases hj : i < j ∧ j ≤ v₁.length
      · rw [if_pos (by omega), if_pos hj]
        congr 1
        omega
      · rw [if_neg (by omega), if_neg hj]
  · -- At the end there is nothing to move.
    rw [if_neg hlast]
    apply (hsound.insertion_ends hi hroom x (.refl _) hsound.ready ?_ _).mono
    · rintro _ ⟨v₂, _⟩ ⟨hrewritten, rfl⟩
      exact ⟨v₁, hgrown', hrewritten⟩
    · exact fun _ _ hfalse => hfalse.elim
    · intro j
      rw [if_neg (by omega)]

theorem push_ends (h : v.Sound) (x : α) (host : Host) (bounds : host.heap.placement.InBounds) :
    (push x).Ends (v, host)
      (fun _ s => ∃ v₁, v.Grown (v.length + 1) host.heap v₁ s.2.heap ∧
        Rewritten v₁ s.1 (v.toList ++ [x]))
      (fun e s => s.1 = v ∧ v.Denied (v.length + 1) host.heap s.2.heap e) := by
  have hend : v.toList.insertIdx (min v.length v.length) x = v.toList ++ [x] := by
    rw [Nat.min_self, ← length_toList, List.insertIdx_length_self]
  unfold push
  apply Prog.Ends.bind_ok (currentLength_eq v host)
  rw [← hend]
  exact insert_ends h v.length x host bounds

/-- Where there is room, the elements are put at the end without asking the heap. -/
theorem pushAll_ends (h : v.Sound) {xs : List α} (hroom : v.length + xs.length ≤ v.slots.capacity)
    (host : Host) (bounds : host.heap.placement.InBounds) :
    (pushAll xs).Ends (v, host)
      (fun _ s => Rewritten v s.1 (v.toList ++ xs) ∧ s.2.heap = host.heap) (fun _ _ => False) := by
  induction xs generalizing v host with
  | nil =>
    rw [List.append_nil]
    exact Prog.Ends.pure ⟨⟨h, .refl _, rfl⟩, rfl⟩
  | cons x xs ih =>
    rw [List.length_cons] at hroom
    unfold pushAll
    apply (push_ends h x host bounds).bind
    · rintro _ ⟨v₁, host₁⟩ ⟨v₀, hgrown, hpushed⟩
      obtain ⟨rfl, hheap⟩ := hgrown.eq_self (by omega)
      have hlength : v₁.length = v₀.length + 1 := by
        rw [hpushed.length_eq, List.length_append, length_toList, List.length_singleton]
      have hcapacity : v₁.slots.capacity = v₀.slots.capacity := hpushed.place.capacity_eq
      have hroom' : v₁.length + xs.length ≤ v₁.slots.capacity := by omega
      apply (ih hpushed.sound hroom' host₁ (by rw [hheap]; exact bounds)).mono
      · rintro _ s ⟨hrest, hheap'⟩
        rw [hpushed.toList_eq, List.append_assoc] at hrest
        exact ⟨hpushed.trans hrest, hheap'.trans hheap⟩
      · exact fun _ _ hfalse => hfalse
    · rintro e s ⟨_, hlt, _⟩
      omega

/-- **Extending** puts in all elements or none. -/
theorem extend_ends (h : v.Sound) (xs : List α) (host : Host)
    (bounds : host.heap.placement.InBounds) :
    (extend xs).Ends (v, host)
      (fun _ s => ∃ v₁, v.Grown (v.length + xs.length) host.heap v₁ s.2.heap ∧
        Rewritten v₁ s.1 (v.toList ++ xs))
      (fun e s => s.1 = v ∧ v.Denied (v.length + xs.length) host.heap s.2.heap e) := by
  unfold extend
  apply Prog.Ends.bind_ok (currentLength_eq v host)
  cases hadd : Word.add? v.length xs.length with
  | none =>
    -- So many elements can not be counted, and much less their bytes.
    have hlarge := Word.add?_eq_none_iff.mp hadd
    have hcapacity := h.ready.capacity_le
    have hbytes : v.length + xs.length ≤ Slots.grown (v.length + xs.length) * v.slots.stride :=
      Nat.le_trans (Slots.le_grown _) (Nat.le_mul_of_pos_right _ h.ready.stride_pos)
    exact Prog.Ends.fail ⟨rfl, by omega, .error .refused, rfl, .of_lt (Nat.lt_of_lt_of_le hlarge hbytes)⟩
  | some required =>
    obtain ⟨hle, rfl⟩ := Word.add?_eq_some_iff.mp hadd
    apply (reserve_ends h hle host bounds).bind _ fun _ _ hdenied => hdenied
    rintro _ ⟨v₁, host₁⟩ (hgrown : v.Grown (v.length + xs.length) host.heap v₁ host₁.heap)
    obtain ⟨hsound, hlist⟩ := hgrown.sound h bounds
    have hroom : v₁.length + xs.length ≤ v₁.slots.capacity := by
      rw [hgrown.length_eq]
      exact hgrown.reserved.requested_le
    have hbounds : host₁.heap.placement.InBounds := by
      rw [hgrown.reserved.placement_eq]
      exact bounds
    apply (pushAll_ends hsound hroom host₁ hbounds).mono
    · rintro _ s ⟨hpushed, hheap⟩
      rw [hheap, ← hlist]
      exact ⟨v₁, hgrown, hpushed⟩
    · exact fun _ _ hfalse => hfalse.elim

end Insert

/-! ## Replacing elements and taking them away -/

section Replace

variable [Element α] [LawfulElement α] {v : Sequence α}

/-- An element is stored over another one. -/
theorem Sound.replaced (h : v.Sound) {i offset : Nat}
    (hreaches : v.slots.Reaches α i offset) (x : α) :
    Rewritten v ⟨v.slots.store offset x, v.length⟩ (v.toList.set i x) := by
  have hrow : (List.range v.length).map (v.slots.store offset x).item = v.toList.set i x := by
    rw [h.toList_eq, hreaches.item_store x, Slots.map_range_update]
  rw [← hrow]
  exact h.rewritten (Slots.samePlace_store _ _ _) (h.ready.store _ _) h.length_le

theorem set_ends (h : v.Sound) (index : Nat) (x : α) (host : Host) :
    (set index x).Ends (v, host)
      (fun _ s => index < v.length ∧ Rewritten v s.1 (v.toList.set index x) ∧ s.2.heap = host.heap)
      (fun e s => v.length ≤ index ∧ e = .error .illegalArgument ∧ s = (v, host)) := by
  unfold set
  apply Prog.Ends.bind_ok (currentLength_eq v host)
  by_cases hout : v.length ≤ index
  · rw [if_pos hout]
    exact Prog.Ends.bind_error rfl ⟨hout, rfl, rfl⟩
  · have hi : index < v.length := Nat.lt_of_not_le hout
    have hcapacity := Nat.lt_of_lt_of_le hi h.length_le
    rw [if_neg hout]
    apply Prog.Ends.bind_ok (locate_eq h.ready hcapacity host)
    apply Prog.Ends.of_ok (updateSlots_eq _ _ _)
    exact ⟨hi, h.replaced (h.ready.reaches hcapacity h.size_le) x, rfl⟩

theorem setIndex_ends (h : v.Sound) (index : Nat) (x : α) (host : Host) :
    (setIndex index x).Ends (v, host)
      (fun _ s => index < v.length ∧ Rewritten v s.1 (v.toList.set index x) ∧ s.2.heap = host.heap)
      (fun e s => v.length ≤ index ∧ e = .fault (.indexRange index v.length) ∧ s = (v, host)) := by
  unfold setIndex
  apply Prog.Ends.bind_ok (currentLength_eq v host)
  by_cases hout : v.length ≤ index
  · rw [if_pos hout]
    exact Prog.Ends.bind_error rfl ⟨hout, rfl, rfl⟩
  · have hi : index < v.length := Nat.lt_of_not_le hout
    rw [if_neg hout]
    apply Prog.Ends.of_ok (updateSlots_eq _ _ _)
    exact ⟨hi, h.replaced (h.reaches (Nat.lt_of_lt_of_le hi h.length_le)) x, rfl⟩

/-- The end of an erasure, when the elements behind the position have moved down. -/
theorem Sound.erasure_ends (h : v.Sound) {index : Nat} (hi : index < v.length) {slots : Slots}
    (hplace : Slots.SamePlace v.slots slots) (hready : slots.Ready)
    (hbelow : ∀ j < index, (slots.item j : α) = v.slots.item j)
    (habove : ∀ j, index ≤ j → j + 1 < v.length → (slots.item j : α) = v.slots.item (j + 1))
    (host : Host) :
    (do setLength (← Word.sub v.length 1) : Hosted ContainerError (Sequence α) Unit).Ends
      (⟨slots, v.length⟩, host)
      (fun _ s => Rewritten v s.1 (v.toList.eraseIdx index) ∧ s.2 = host) (fun _ _ => False) := by
  have hlength := h.length_le
  apply Prog.Ends.bind_ok (Prog.lift_ok (Word.sub_eq_ok (by omega)))
  apply Prog.Ends.of_ok (setLength_eq _ _ _)
  refine ⟨?_, rfl⟩
  rw [h.toList_eq, ← Slots.map_range_eraseIdx hi hbelow habove]
  exact h.rewritten hplace hready (by omega)

/-- **Erasing.** -/
theorem erase_ends (h : v.Sound) (index : Nat) (host : Host) :
    (erase (α := α) index).Ends (v, host)
      (fun _ s => index < v.length ∧ Rewritten v s.1 (v.toList.eraseIdx index) ∧
        s.2.heap = host.heap)
      (fun e s => v.length ≤ index ∧ e = .error .illegalArgument ∧ s = (v, host)) := by
  have hlength := h.length_le
  have hlimit := h.ready.capacity_lt
  unfold erase
  apply Prog.Ends.bind_ok (currentLength_eq v host)
  by_cases hout : v.length ≤ index
  · rw [if_pos hout]
    exact Prog.Ends.bind_error rfl ⟨hout, rfl, rfl⟩
  have hi : index < v.length := Nat.lt_of_not_le hout
  rw [if_neg hout]
  apply Hosted.trace_ends
  intro log
  apply Prog.Ends.bind_ok (Prog.lift_ok (Word.sub_eq_ok (Nat.le_of_lt hi)))
  apply Prog.Ends.bind_ok (Prog.lift_ok (Word.sub_eq_ok (by omega)))
  by_cases hlast : 0 < v.length - index - 1
  · rw [if_pos hlast]
    apply Prog.Ends.bind_ok (Prog.lift_ok (Word.add_eq_ok (by omega)))
    apply Prog.Ends.bind_ok (locate_eq h.ready (by omega) _)
    apply Prog.Ends.bind_ok (locate_eq h.ready (by omega) _)
    apply Prog.Ends.bind_ok (updateSlots_eq _ _ _)
    apply (h.erasure_ends hi (Slots.samePlace_move _ _ _ _) (h.ready.move _ _ _) ?_ ?_ _).mono
    · rintro _ ⟨v', _⟩ ⟨hrewritten, rfl⟩
      exact ⟨hi, hrewritten, rfl⟩
    · exact fun _ _ hfalse => hfalse.elim
    · intro j hj
      rw [h.item_move (by omega) (by omega), if_neg (by omega)]
    · intro j hij hj
      rw [h.item_move (by omega) (by omega), if_pos (by omega)]
      congr 1
      omega
  · -- Behind the last element there is nothing to move.
    rw [if_neg hlast]
    apply (h.erasure_ends hi (.refl _) h.ready ?_ ?_ _).mono
    · rintro _ ⟨v', _⟩ ⟨hrewritten, rfl⟩
      exact ⟨hi, hrewritten, rfl⟩
    · exact fun _ _ hfalse => hfalse.elim
    · exact fun _ _ => rfl
    · intro j hij hj
      omega

/-- The first elements alone. -/
theorem Sound.shortened (h : v.Sound) {n : Nat} (hle : n ≤ v.length) :
    Rewritten v ⟨v.slots, n⟩ (v.toList.take n) := by
  have hlist : v.toList.take n = (List.range n).map v.slots.item := by
    rw [h.toList_eq, ← List.map_take, List.take_range, Nat.min_eq_left hle]
  rw [hlist]
  exact h.rewritten (.refl _) h.ready (Nat.le_trans hle h.length_le)

theorem clear_ends (h : v.Sound) (host : Host) :
    (clear : Hosted ε (Sequence α) Unit).Ends (v, host)
      (fun _ s => Rewritten v s.1 [] ∧ s.2 = host) (fun _ _ => False) := by
  have hnone := h.shortened (Nat.zero_le v.length)
  rw [List.take_zero] at hnone
  exact Prog.Ends.of_ok (setLength_eq 0 v host) ⟨hnone, rfl⟩

end Replace

/-! ## Reading elements -/

section Read

variable [Element α] [LawfulElement α] {v : Sequence α}

/-- The element, or a failure where there is none. -/
def found (e : Failure ε) : Option α → Except (Failure ε) α
  | some x => .ok x
  | none => .error e

theorem index_eq (h : v.Sound) (i : Nat) :
    v.index i = found (.fault (.indexRange i v.length)) v.toList[i]? := by
  unfold index
  by_cases hout : v.length ≤ i
  · rw [if_pos hout, List.getElem?_eq_none (by rwa [length_toList])]
    rfl
  · have hi : i < v.length := Nat.lt_of_not_le hout
    rw [if_neg hout, h.getElem_toList hi, h.peek_eq]
    rfl

theorem get_eq (h : v.Sound) (i : Nat) :
    v.get i = found (.error .illegalArgument) v.toList[i]? := by
  unfold get
  by_cases hout : v.length ≤ i
  · rw [if_pos hout, List.getElem?_eq_none (by rwa [length_toList])]
    rfl
  · have hi : i < v.length := Nat.lt_of_not_le hout
    have hcapacity := Nat.lt_of_lt_of_le hi h.length_le
    rw [if_neg hout, h.getElem_toList hi, h.ready.offset_eq hcapacity]
    exact congrArg Except.ok (h.ready.reaches hcapacity h.size_le).load_eq

theorem last_eq (h : v.Sound) : v.last = found (.error .underflow) v.toList.getLast? := by
  unfold last
  rw [List.getLast?_eq_getElem?, length_toList]
  cases hlength : v.length with
  | zero =>
    rw [List.getElem?_eq_none (by rw [length_toList, hlength])]
    rfl
  | succ n =>
    have hlast : n < v.length := by omega
    show v.get n = found _ v.toList[n]?
    rw [get_eq h n, h.getElem_toList hlast]
    rfl

theorem pop_ends (h : v.Sound) (host : Host) :
    (pop (α := α)).Ends (v, host)
      (fun x s => v.toList.getLast? = some x ∧ Rewritten v s.1 v.toList.dropLast ∧ s.2 = host)
      (fun e s => v.toList.getLast? = none ∧ e = .error .underflow ∧ s = (v, host)) := by
  have hread := last_eq h
  unfold pop
  cases hlast : v.toList.getLast? with
  | none =>
    rw [hlast] at hread
    exact Prog.Ends.bind_error (ask_error hread host) ⟨rfl, rfl, rfl⟩
  | some x =>
    rw [hlast] at hread
    have hpos : 1 ≤ v.length := by
      rw [← length_toList]
      exact List.length_pos_iff.mpr (by rintro hnil; rw [hnil] at hlast; cases hlast)
    have hshort := h.shortened (Nat.sub_le v.length 1)
    apply Prog.Ends.bind_ok (ask_ok hread host)
    apply Prog.Ends.bind_ok (currentLength_eq v host)
    apply Prog.Ends.bind_ok (Prog.lift_ok (Word.sub_eq_ok hpos))
    apply Prog.Ends.bind_ok (setLength_eq _ _ _)
    rw [List.dropLast_eq_take, length_toList]
    exact Prog.Ends.pure ⟨rfl, hshort, rfl⟩

/-- The elements are where they lie in memory, one after the other. -/
theorem Sound.locates (h : v.Sound) :
    Walk.Locates α (fun _ i => .ok (i * Element.size α)) v.slots (List.range v.length) := by
  intro s' hplace hready i hi
  have hcapacity : i < s'.capacity := by
    rw [hplace.capacity_eq]
    exact Nat.lt_of_lt_of_le (List.mem_range.mp hi) h.length_le
  refine ⟨_, rfl, hready.reaches_packed hcapacity ?_⟩
  rw [hplace.stride_eq]
  exact h.packed

/-- **A walk in place** is the walk over the list. -/
theorem eachInPlace_ends (h : v.Sound) (visitor : Nat → Prog ε (α × ν) Unit) (n : ν) :
    (eachInPlace visitor).Ends (v, n)
      (fun _ s => ∃ l, Walk.visitList visitor 0 v.toList n = .ok () (l, s.2) ∧
        Rewritten v s.1 l ∧ s.1.length = v.length)
      (fun e s => ∃ l, Walk.visitList visitor 0 v.toList n = .error e (l, s.2) ∧
        Rewritten v s.1 l ∧ s.1.length = v.length) := by
  have hwalk := Walk.visitAllInPlace_ends (fun _ i => .ok (i * Element.size α)) visitor h.ready
    h.locates n
  have hlist := Walk.visitRow_range visitor 0 v.length v.slots.item n
  rw [← List.range_eq_range', ← h.toList_eq] at hlist
  rcases hwalk.run_eq with ⟨_, s, heq, row, hrow, hplace, hready, rfl⟩ |
    ⟨e, s, heq, row, hrow, hplace, hready, rfl⟩
  · have hrun : eachInPlace visitor (v, n) = .ok () (⟨s.1, v.length⟩, s.2) := by
      simp only [eachInPlace, Walk.forward, heq]
    exact Prog.Ends.of_ok hrun ⟨_, hlist.of_run_ok hrow, h.rewritten hplace hready h.length_le, rfl⟩
  · have hrun : eachInPlace visitor (v, n) = .error e (⟨s.1, v.length⟩, s.2) := by
      simp only [eachInPlace, Walk.forward, heq]
    exact Prog.Ends.of_error hrun
      ⟨_, hlist.of_run_error hrow, h.rewritten hplace hready h.length_le, rfl⟩

end Read

/-! ## Rearranging -/

section Rearrange

variable [Element α]

/-- Stores leave slots where they are. -/
theorem samePlace_foldl_store (stores : List (α × Nat)) {s : Slots} (h : s.Ready) :
    Slots.SamePlace s (stores.foldl (fun s p => s.store (p.2 * Element.size α) p.1) s) ∧
      (stores.foldl (fun s p => s.store (p.2 * Element.size α) p.1) s).Ready := by
  induction stores generalizing s with
  | nil => exact ⟨.refl s, h⟩
  | cons p rest ih =>
    obtain ⟨hplace, hready⟩ := ih (h.store (p.2 * Element.size α) p.1)
    exact ⟨(Slots.samePlace_store s _ p.1).trans hplace, hready⟩

/-- **Rearranging** leaves the slots where they are, whatever the elements are then. -/
theorem rearrange_ends [LawfulElement α] {v : Sequence α} (h : v.Sound) (f : List α → List α)
    (host : Host) :
    (rearrange f : Hosted ε (Sequence α) Unit).Ends (v, host)
      (fun _ s => s.1.Sound ∧ Slots.SamePlace v.slots s.1.slots ∧ s.2 = host)
      (fun _ _ => False) := by
  obtain ⟨hplace, hready⟩ := samePlace_foldl_store ((f v.toList).take v.length).zipIdx h.ready
  unfold rearrange
  apply Prog.Ends.bind_ok (Hosted.object_eq v host)
  apply Prog.Ends.of_ok (updateSlots_eq _ v host)
  exact ⟨(h.rewritten hplace hready h.length_le).sound, hplace, rfl⟩

end Rearrange

end Sequence

end AlignedSlots
