import Mathlib
import AlignedSlots.Proofs.Container.ArrayRows

/-!
# Runs of a static array

`StaticArray.Made` is what making an array comes to: one request to the heap at most, for a size that is
computed over the naturals, and no elements without storage.  From then on an array is a function on its
indices.  `StaticArray.session_function` says so of every run, with walks in place that may stop at any
element: each element is what was written to it last, or the initial value.
-/

namespace AlignedSlots

namespace StaticArray

variable {α ν : Type} {n align : Nat} [Element α]

/-! ## Making an array -/

/-- The alignment of the elements: the one asked for, raised to that of the type. -/
def slotAlign (α : Type) [Element α] (align : Nat) : Nat := max align (Element.align α)

/-- The distance between elements. -/
def slotStride (α : Type) [Element α] (align : Nat) : Nat :=
  Layout.roundUp (max (Element.size α) 1) (slotAlign α align)

/-- The sum that the distance is computed from is a word, as it is for sizes and alignments below
`2 ^ 63`. -/
def Spaced (α : Type) [Element α] (align : Nat) : Prop :=
  max (Element.size α) 1 + (slotAlign α align - 1) ≤ Word.greatest

/-- The raw block that the elements and the distance in front of them take. -/
def rawSize (α : Type) [Element α] (n align : Nat) : Nat :=
  n * slotStride α align + slotAlign α align + 1

/-- The array has the alignment and the distance that were asked for, and its block is at `base`. -/
structure MadeAt (a : StaticArray α n) (align : Nat) (base : Option Nat) : Prop where
  base_eq : a.slots.base = base
  stride_eq : a.stride = slotStride α align
  align_eq : a.align = slotAlign α align

/-- Writing to the slots leaves the array where it was made. -/
theorem MadeAt.of_place {a : StaticArray α n} {block : Option Parcel} {capacity : Nat}
    (hplace : Slots.SamePlace ⟨block, capacity, slotStride α align, slotAlign α align⟩ a.slots) :
    a.MadeAt align (Slots.mk block capacity (slotStride α align) (slotAlign α align)).base :=
  ⟨hplace.base_eq, hplace.stride_eq, hplace.align_eq⟩

/-- What making an array comes to: the array or the failure, and the heap then.  The conditions are over the
naturals, and exclude one another. -/
inductive Made (n align : Nat) (heap : Heap) :
    Except (Failure ContainerError) (StaticArray α n) → Heap → Prop
  /-- No elements take no storage, and the heap is not asked. -/
  | empty (a : StaticArray α n) : n = 0 → Spaced α align → a.MadeAt align none →
      Made n align heap (.ok a) heap
  /-- The raw block would be no word: the heap is not asked. -/
  | unasked : 0 < n → Spaced α align → ValidAlign (slotAlign α align) →
      Word.greatest < rawSize α n align → Made n align heap (.error (.error .badAlloc)) heap
  /-- The heap is asked once, and refuses: no block is out. -/
  | refused : 0 < n → Spaced α align → ValidAlign (slotAlign α align) →
      rawSize α n align ≤ Word.greatest →
      heap.placement heap.history (rawSize α n align) = none →
      Made n align heap (.error (.error .badAlloc)) (heap.after [.refused (rawSize α n align)])
  /-- The heap is asked once, and grants the block. -/
  | granted (a : StaticArray α n) (base : Nat) : 0 < n → Spaced α align →
      ValidAlign (slotAlign α align) → rawSize α n align ≤ Word.greatest →
      heap.placement heap.history (rawSize α n align) = some base → a.MadeAt align (some base) →
      Made n align heap (.ok a) (heap.after [.granted (rawSize α n align) base])
  /-- Elements with an alignment that no block can have, and a size in bytes that is no word: the allocator
  is not called. -/
  | oversized : 0 < n → Spaced α align → ¬ ValidAlign (slotAlign α align) →
      Word.greatest < n * slotStride α align → Made n align heap (.error (.error .badAlloc)) heap
  /-- Elements with an alignment that no block can have: the allocator stops at its assertion, before it
  asks the heap. -/
  | misaligned : 0 < n → Spaced α align → ¬ ValidAlign (slotAlign α align) →
      n * slotStride α align ≤ Word.greatest →
      Made n align heap (.error (.fault (.blockAlignment (slotAlign α align) greatestAlign))) heap
  /-- There is no distance between such elements: computing it overflows. -/
  | unspaced : ¬ Spaced α align → Made n align heap
      (.error (.fault (if slotAlign α align - 1 ≤ Word.greatest then .addOverflow else .subOverflow))) heap

theorem totalSize_slotStride (α : Type) [Element α] (n align : Nat) :
    Parcel.totalSize (slotAlign α align) (n * slotStride α align) = rawSize α n align := by
  unfold Parcel.totalSize rawSize
  rw [Nat.add_assoc]

theorem spaced_of_lt (hsize : Element.size α < 2 ^ 63) (halign : Element.align α < 2 ^ 63)
    (hvalid : ValidAlign align) : Spaced α align := by
  have hword : Word.greatest = 2 ^ 64 - 1 := rfl
  have hgreatest : greatestAlign = 32768 := rfl
  have hmax : slotAlign α align ≤ 2 ^ 63 := max_le (by have := hvalid.2; omega) (by omega)
  unfold Spaced
  omega

variable {host : Host}

/-- The request for the slots, if blocks can be aligned for them or not. -/
theorem clearedSlots_made (hn : 0 < n) (hspaced : Spaced α align) (hstride : 0 < slotStride α align)
    (bounds : host.heap.placement.InBounds) :
    (Prog.mapError ContainerError.ofAlloc
      (Slots.cleared (slotStride α align) (slotAlign α align) n)).Ends host
      (fun slots host' => ∀ a : StaticArray α n, Slots.SamePlace slots a.slots →
        Made n align host.heap (.ok a) host'.heap)
      (fun e host' => Made (α := α) n align host.heap (.error e) host'.heap) := by
  have hpos : 0 < n * slotStride α align := Nat.mul_pos hn hstride
  have htotal := totalSize_slotStride α n align
  apply Prog.Ends.mapError
  by_cases hslots : ValidAlign (slotAlign α align)
  · apply (Slots.cleared_ends host hslots hstride hn bounds).mono
    · rintro _ host' ⟨base, b, hgrant, rfl, hheap⟩ a hplace
      have hmade : a.MadeAt align (some base) :=
        congrArg some (Slots.base_of_grants hgrant) ▸ MadeAt.of_place hplace
      obtain ⟨_, hword, hplacement, _⟩ := hgrant
      rw [htotal] at hword hplacement hheap
      rw [hheap]
      exact .granted a base hn hspaced hslots hword hplacement hmade
    · rintro e host' ⟨rfl, ⟨hzero | hlarge, hheap⟩ | ⟨_, hword, hnone, hheap⟩⟩
      · omega
      · rw [htotal] at hlarge
        rw [hheap]
        exact .unasked hn hspaced hslots hlarge
      · rw [htotal] at hword hnone hheap
        rw [hheap]
        exact .refused hn hspaced hslots hword hnone
  · apply (Slots.cleared_of_not_valid host hslots hpos).mono
    · exact fun _ _ hfalse => hfalse.elim
    · rintro e host' ⟨hheap, ⟨hlarge, rfl⟩ | ⟨hfit, rfl⟩⟩
      · rw [hheap]
        exact .oversized hn hspaced hslots hlarge
      · rw [hheap]
        exact .misaligned hn hspaced hslots hfit

variable [LawfulElement α] [Initial α]

/-- **Making an array** comes to one of the cases, and every element starts as the initial value. -/
theorem create_made (n : Nat) (hvalid : ValidAlign align) (host : Host)
    (bounds : host.heap.placement.InBounds) :
    (create α n align).Ends host
      (fun a host' => Made n align host.heap (.ok a) host'.heap ∧ a.Sound ∧
        a.row = fun _ => Initial.initial)
      (fun e host' => Made (α := α) n align host.heap (.error e) host'.heap) := by
  have hassert : assertPowerOfTwo align = .ok () := if_pos hvalid.1
  have hmax : (slotAlign α align).isPowerOfTwo :=
    isPowerOfTwo_max hvalid.1 LawfulElement.align_isPowerOfTwo
  by_cases hspaced : Spaced α align
  · have hstride : Slots.strideOf (Element.size α) (slotAlign α align) = .ok (slotStride α align) :=
      Word.roundUp_eq_ok hmax hspaced
    have hpos := (Slots.room_of_strideOf hmax hstride).2
    have hmade : (Prog.mapError ContainerError.ofAlloc
        (Slots.cleared (slotStride α align) (slotAlign α align) n)).Ends host
        (fun slots host' => ∀ a : StaticArray α n, Slots.SamePlace slots a.slots →
          Made n align host.heap (.ok a) host'.heap)
        (fun e host' => Made (α := α) n align host.heap (.error e) host'.heap) := by
      rcases Nat.eq_zero_or_pos n with rfl | hn
      · apply Prog.Ends.mapError
        exact Prog.Ends.of_ok (Slots.cleared_zero _ _ host) fun a hplace =>
          .empty a rfl hspaced (.of_place hplace)
      · exact clearedSlots_made hn hspaced hpos bounds
    apply (create_of_cleared hvalid.1 hstride bounds hmade).mono _ fun _ _ herror => herror
    rintro a host' ⟨slots, hmade, hplace, hsound, hinitial⟩
    refine ⟨hmade a hplace, hsound, ?_⟩
    funext i
    exact hinitial i i.isLt
  · have hstride : Slots.strideOf (Element.size α) (slotAlign α align) = .error _ :=
      Word.roundUp_of_lt hmax (Nat.lt_of_not_le hspaced)
    exact Prog.Ends.of_error (create_of_unchecked host (.inr ⟨hassert, hstride⟩)) (.unspaced hspaced)

/-! ## Runs -/

section Runs

variable {a a' : StaticArray α n} {t : (Fin n → α) × ν} {s : (StaticArray α n × ν) × Host}

omit [LawfulElement α] [Initial α] in
theorem Kept.of_place (h : Kept a' host t s) (hplace : Slots.SamePlace a.slots a'.slots) :
    Kept a host t s := { h with place := hplace.trans h.place }

omit [Initial α] in
/-- A run of calls on an array is one on the function of its elements. -/
theorem session_mirrors (calls : List (ArrayCall α ν)) (h : a.Sound) (m : ν) (host : Host) :
    (Prog.session ArrayCall.respond calls ((a, m), host)).1 =
      (Prog.session (ArrayCall.onRow n) calls (a.row, m)).1 ∧
    Kept a host (Prog.session (ArrayCall.onRow n) calls (a.row, m)).2
      (Prog.session ArrayCall.respond calls ((a, m), host)).2 := by
  induction calls generalizing a m with
  | nil => exact ⟨rfl, h.kept m host⟩
  | cons c rest ih =>
    have hcall := respond_mirrors c h m host
    have hkept := hcall.kept
    rw [Prog.session_cons, Prog.session_cons, hcall.answer_eq]
    generalize c.respond.after ((a, m), host) = s at hkept
    obtain ⟨⟨a', m'⟩, host'⟩ := s
    obtain ⟨hstate, rfl, hsound, hplace⟩ := hkept
    rw [← hstate]
    obtain ⟨hrecords, hrest⟩ := ih hsound m'
    exact ⟨congrArg _ hrecords, hrest.of_place hplace⟩

/-- An array, made as `made` on `host`, that reads as what was written: at each index the last value, or
the initial one.  No other index is one of it.  The heap is as it was, and dropping the array gives back the
block that it was made with. -/
structure ReadsAs (made : StaticArray α n) (host : Host) (writes : List (Fin n × α))
    (s : (StaticArray α n × ν) × Host) : Prop where
  get_eq : ∀ i, s.1.1.get i =
    if h : i < n then .ok ((ArrayCall.lastValue ⟨i, h⟩ writes).getD Initial.initial)
    else .error (.error .illegalArgument)
  last_eq : s.1.1.last =
    if 0 < n then s.1.1.get (n - 1) else .error (.error .illegalArgument)
  replace_error : ∀ i x, n ≤ i →
    (ArrayCall.replace i x).respond s = .error (.error .illegalArgument) s
  replaceLast_error : ∀ x, n = 0 →
    (ArrayCall.replaceLast x).respond s = .error (.error .illegalArgument) s
  host_eq : s.2 = host
  dropped : ∃ s', drop (s.1.1, s.2) = .ok () s' ∧
    s'.2.heap = host.heap.after (made.slots.base.toList.map HeapEvent.freed)

omit [LawfulElement α] in
theorem Kept.readsAs (h : Kept a host t s) {writes : List (Fin n × α)}
    (hrow : ∀ i, t.1 i = (ArrayCall.lastValue i writes).getD Initial.initial) :
    ReadsAs a host writes s := by
  obtain ⟨⟨a', m⟩, host'⟩ := s
  obtain ⟨rfl, rfl, hsound, hplace⟩ := h
  have hreplace : ∀ i (x : α), n ≤ i →
      Hosted.onObject (replace i x) ((a', m), host') =
        .error (.error .illegalArgument) ((a', m), host') := by
    intro i x hi
    simp only [Hosted.onObject, StaticArray.replace_error hi]
  have hget : ∀ i, a'.get i =
      if h : i < n then .ok ((ArrayCall.lastValue ⟨i, h⟩ writes).getD Initial.initial)
      else .error (.error .illegalArgument) := by
    intro i
    rw [get_eq_entry hsound]
    unfold ArrayCall.entry
    by_cases hi : i < n
    · rw [dif_pos hi, dif_pos hi]
      exact congrArg _ (hrow ⟨i, hi⟩)
    · rw [dif_neg hi, dif_neg hi]
  refine ⟨hget, ?_, fun i x hi => ?_, fun x hn => ?_, rfl, ?_⟩
  · rw [last_eq_get]
    by_cases hn : 0 < n
    · rw [if_pos hn]
    · rw [if_neg hn]
      exact (hget _).trans (dif_neg (by omega))
  · exact Prog.map_error (hreplace i x hi) _
  · refine Prog.map_error ?_ _
    rw [replaceLast_eq]
    exact hreplace (n - 1) x (by omega)
  · obtain ⟨_, s', hrun, hheap⟩ := (drop_ends hsound host').exists_ok
    refine ⟨s', hrun, ?_⟩
    rw [hheap, hplace.base_eq]

/-- **A static array is a function on its indices**, made with one request to the heap at most.  A run of
calls on it answers what it answers on the function, also where a walk stops at an element, and asks the
heap for nothing. -/
theorem session_function (valid : ValidAlign align) (bounds : host.heap.placement.InBounds) :
    Made n align host.heap ((create α n align).answer host) ((create α n align).after host).heap ∧
    (Element.size α < 2 ^ 63 → Element.align α < 2 ^ 63 → Spaced α align) ∧
    (Element.align α ≤ greatestAlign → ValidAlign (slotAlign α align)) ∧
    ∀ a host', create α n align host = .ok a host' → ∀ (calls : List (ArrayCall α ν)) (m : ν),
      let start : (Fin n → α) × ν := (fun _ => Initial.initial, m)
      let run := Prog.session ArrayCall.respond calls ((a, m), host')
      let ideal := Prog.session (ArrayCall.onRow n) calls start
      run.1 = ideal.1 ∧ run.2.1.2 = ideal.2.2 ∧
        ReadsAs a host' (ArrayCall.written calls start) run.2 := by
  have hmaking := create_made (α := α) n valid host bounds
  refine ⟨?_, fun hsize halign => spaced_of_lt hsize halign valid,
    fun hle => ⟨isPowerOfTwo_max valid.1 LawfulElement.align_isPowerOfTwo, max_le valid.2 hle⟩,
    fun a host' hmake calls m => ?_⟩
  · rcases hmaking.cases with ⟨a, hanswer, hmade, _⟩ | ⟨e, hanswer, hmade⟩
    · rw [hanswer]
      exact hmade
    · rw [hanswer]
      exact hmade
  · obtain ⟨_, hsound, hrow⟩ := hmaking.of_run_ok hmake
    obtain ⟨hrecords, hkept⟩ := session_mirrors calls hsound m host'
    rw [hrow] at hrecords hkept
    refine ⟨hrecords, ?_, hkept.readsAs fun i => ?_⟩
    · exact congrArg Prod.snd hkept.state_eq
    · exact ArrayCall.session_onRow_eq calls _ i

/-- A walk from the last of three elements stops at the one in the middle, after it was written to.  The
first keeps its initial value, and the last one is replaced afterwards. -/
theorem session_function_stopped :
    ∃ (a : StaticArray (FixedInt ⟨32, true⟩) 3) (host' : Host)
      (s : (StaticArray (FixedInt ⟨32, true⟩) 3 × Unit) × Host) (base : Nat),
      let walk : ArrayCall (FixedInt ⟨32, true⟩) Unit := .eachReverseInPlace fun i (_, m) =>
        if i = 1 then .error (.error .overflow) (.ofInt _ 7, m) else .ok () (.ofInt _ 9, m)
      ValidAlign 16 ∧ Host.ordinary.heap.placement.InBounds ∧
      create (FixedInt ⟨32, true⟩) 3 16 Host.ordinary = .ok a host' ∧
      host'.heap = Host.ordinary.heap.after [.granted 65 base] ∧
      (Prog.session ArrayCall.respond [walk, .replace 2 (.ofInt _ 5)] ((a, ()), host')).2 = s ∧
      s.1.1.get 0 = .ok (.ofInt _ 0) ∧ s.1.1.get 1 = .ok (.ofInt _ 7) ∧
      s.1.1.get 2 = .ok (.ofInt _ 5) ∧ s.1.1.get 3 = .error (.error .illegalArgument) ∧
      s.2 = host' := by
  let walk : ArrayCall (FixedInt ⟨32, true⟩) Unit := .eachReverseInPlace fun i (_, m) =>
    if i = 1 then .error (.error .overflow) (.ofInt _ 7, m) else .ok () (.ofInt _ 9, m)
  have valid : ValidAlign 16 := by decide
  obtain ⟨a, host', hmake⟩ :
      ∃ a host', create (FixedInt ⟨32, true⟩) 3 16 Host.ordinary = .ok a host' := ⟨_, _, rfl⟩
  obtain ⟨hmade, _, _, hruns⟩ := session_function (α := FixedInt ⟨32, true⟩) (n := 3) (ν := Unit) valid
    Host.ordinary_sound.inBounds
  rw [Prog.answer_of_ok hmake, Prog.after_of_ok hmake] at hmade
  obtain ⟨base, hgranted⟩ :
      ∃ base, host'.heap = Host.ordinary.heap.after [.granted 65 base] := by
    generalize host'.heap = heap' at hmade
    cases hmade with
    | empty _ hzero => cases hzero
    | granted _ base => exact ⟨base, rfl⟩
  obtain ⟨_, _, hreads⟩ := hruns a host' hmake [walk, .replace 2 (.ofInt _ 5)] ()
  have hwritten : ArrayCall.written [walk, .replace 2 (.ofInt _ 5)]
      ((fun _ => Initial.initial : Fin 3 → FixedInt ⟨32, true⟩), ()) =
        [(2, .ofInt _ 9), (1, .ofInt _ 7), (2, .ofInt _ 5)] := rfl
  rw [hwritten] at hreads
  exact ⟨a, host', _, base, valid, Host.ordinary_sound.inBounds, hmake, hgranted, rfl,
    hreads.get_eq 0, hreads.get_eq 1, hreads.get_eq 2, hreads.get_eq 3, hreads.host_eq⟩

/-- One element that is aligned beyond the blocks: its raw block would take 131073 bytes, which are a word
and have a place, but the heap is not asked for them. -/
theorem create_stops_unasked :
    ValidAlign 8 ∧ rawSize Sparse 1 8 = 131073 ∧ 131073 ≤ Word.greatest ∧
      (Host.ordinary.heap.placement Host.ordinary.heap.history 131073).isSome ∧
      (create Sparse 1 8).answer Host.ordinary =
        .error (.fault (.blockAlignment 65536 greatestAlign)) ∧
      ((create Sparse 1 8).after Host.ordinary).heap.history = [] :=
  ⟨by decide, rfl, by decide, by decide +kernel, rfl, rfl⟩

end Runs

end StaticArray

end AlignedSlots
