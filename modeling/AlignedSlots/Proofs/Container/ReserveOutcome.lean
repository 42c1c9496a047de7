import Mathlib
import AlignedSlots.Proofs.Container.ByteFrames
import AlignedSlots.Proofs.Container.SequenceCalls

/-!
# What making room comes to

Sequences and buffers make room in the same way, so `ReserveOutcome` says once what that comes to.  Its
cases exclude one another, and their conditions are over the naturals: a growth to half as many slots
again as are requested, rounded up, asks the heap for `Slots.growthSize` bytes exactly if that is a word.

The checks of the programs are spread over the growth policy, two products and the allocation;
`reserves_exactly` shows that together they neither wrap nor refuse a size that is a word.
-/

namespace AlignedSlots

namespace Slots

variable {s s' slots : Slots} {requested base : Nat} {heap heap' : Heap} {written : Nat → Prop}

/-- The raw block that a growth asks for: half as many slots again as requested, rounded up, and the
header. -/
def growthSize (s : Slots) (requested : Nat) : Nat :=
  (3 * requested + 1) / 2 * s.stride + s.align + 1

/-- The second slots are the first ones in a new block at `base`, with room for half as many again as
requested.  The old block was freed after the new one was granted. -/
structure Relocated (s : Slots) (requested : Nat) (heap : Heap) (base : Nat) (s' : Slots)
    (heap' : Heap) : Prop where
  capacity_eq : s'.capacity = (3 * requested + 1) / 2
  stride_eq : s'.stride = s.stride
  align_eq : s'.align = s.align
  base_eq : s'.base = some base
  aligned : s.align ∣ s'.address
  /-- Every byte of the old slots is carried over. -/
  carried : ∀ k < s.capacity * s.stride, s'.cellAt (s'.address + k) = s.cellAt (s.address + k)
  heap_eq : heap' = heap.after
    (s.base.toList.map HeapEvent.freed ++ [.granted (s.growthSize requested) base])

end Slots

/-- What making room for `requested` slots comes to, in a container `o` with its slots. -/
inductive ReserveOutcome {C : Type} (slots : C → Slots) (o : C) (requested : Nat) (heap : Heap)
    (answer : Except (Failure ContainerError) Unit) (o' : C) (heap' : Heap) : Prop
  /-- There is room: nothing changes, and the heap is not asked. -/
  | enough : requested ≤ (slots o).capacity → answer = .ok () → o' = o → heap' = heap →
      ReserveOutcome slots o requested heap answer o' heap'
  /-- The raw block would be no word: the heap is not asked. -/
  | unasked : (slots o).capacity < requested → ValidAlign (slots o).align →
      Word.greatest < (slots o).growthSize requested → answer = .error (.error .badAlloc) →
      o' = o → heap' = heap → ReserveOutcome slots o requested heap answer o' heap'
  /-- The heap is asked, and has no place. -/
  | refused : (slots o).capacity < requested → ValidAlign (slots o).align →
      (slots o).growthSize requested ≤ Word.greatest →
      heap.placement heap.history ((slots o).growthSize requested) = none →
      answer = .error (.error .badAlloc) → o' = o →
      heap' = heap.after [.refused ((slots o).growthSize requested)] →
      ReserveOutcome slots o requested heap answer o' heap'
  /-- The heap is asked, and the slots move into the block that it grants. -/
  | grown (base : Nat) : (slots o).capacity < requested → ValidAlign (slots o).align →
      (slots o).growthSize requested ≤ Word.greatest →
      heap.placement heap.history ((slots o).growthSize requested) = some base →
      answer = .ok () → (slots o).Relocated requested heap base (slots o') heap' →
      ReserveOutcome slots o requested heap answer o' heap'
  /-- Elements with an alignment that no block can have, and slots whose size in bytes is no word: the
  allocator is not called. -/
  | oversized : (slots o).capacity < requested → ¬ ValidAlign (slots o).align →
      Word.greatest < (3 * requested + 1) / 2 * (slots o).stride →
      answer = .error (.error .badAlloc) → o' = o → heap' = heap →
      ReserveOutcome slots o requested heap answer o' heap'
  /-- Elements with an alignment that no block can have: the allocator stops at its assertion, before it
  asks the heap. -/
  | misaligned : (slots o).capacity < requested → ¬ ValidAlign (slots o).align →
      (3 * requested + 1) / 2 * (slots o).stride ≤ Word.greatest →
      answer = .error (.fault (.blockAlignment (slots o).align greatestAlign)) → o' = o → heap' = heap →
      ReserveOutcome slots o requested heap answer o' heap'

namespace Slots

variable {s s' slots : Slots} {requested base : Nat} {heap heap' : Heap} {written : Nat → Prop}

theorem totalSize_grown (s : Slots) (requested : Nat) :
    Parcel.totalSize s.align (grown requested * s.stride) = s.growthSize requested := by
  unfold Parcel.totalSize growthSize
  rw [grown_eq, Nat.add_assoc]

theorem releaseEvents_eq (s : Slots) : s.releaseEvents = s.base.toList.map HeapEvent.freed := by
  rcases s with ⟨block | block, _, _, _⟩ <;> rfl

/-- All bytes of the old slots lie in one of them. -/
theorem Follows.carried_all (h : Follows written requested s s') (hlt : s.capacity < s'.capacity)
    {k : Nat} (hk : k < s.capacity * s.stride) :
    s'.cellAt (s'.address + k) = s.cellAt (s.address + k) := by
  have hpos : 0 < s.stride := Nat.pos_of_mul_pos_left (Nat.zero_lt_of_lt hk)
  have hslot : k / s.stride < s.capacity := (Nat.div_lt_iff_lt_mul hpos).mpr hk
  have hcarried := h.carried hlt _ hslot _ (Nat.mod_lt k hpos)
  have hregion : (s.region (k / s.stride)).base + k % s.stride = s.address + k := by
    show s.address + k / s.stride * s.stride + _ = _
    rw [Nat.add_assoc, Nat.div_add_mod']
  have hregion' : (s'.region (k / s.stride)).base + k % s.stride = s'.address + k := by
    show s'.address + k / s.stride * s'.stride + _ = _
    rw [h.stride_eq, Nat.add_assoc, Nat.div_add_mod']
  rwa [hregion, hregion'] at hcarried

/-- Where there is room already, slots stay as they are. -/
theorem reserve_of_le (hroom : requested ≤ s.capacity) (host : Host) :
    (reserve requested).Ends (s, host)
      (fun before t => before = s.capacity ∧ t.1 = s ∧ t.2.heap = host.heap) fun _ _ => False := by
  unfold reserve
  apply Prog.Ends.bind_ok (Hosted.object_eq s host)
  rw [if_pos hroom]
  apply Hosted.trace_ends
  intro log
  exact Prog.Ends.pure ⟨rfl, rfl, rfl⟩

/-- A growth relocates the slots, also if new slots are written to afterwards. -/
theorem Reserved.relocated (hreserved : s.Reserved requested heap slots heap')
    (hlt : s.capacity < requested) (h : s.Ready) (bounds : heap.placement.InBounds)
    (hplace : SamePlace slots s') (hfollows : Follows written requested s s') :
    ∃ base, ValidAlign s.align ∧ s.growthSize requested ≤ Word.greatest ∧
      heap.placement heap.history (s.growthSize requested) = some base ∧
      s.Relocated requested heap base s' heap' := by
  have hready := hreserved.ready h bounds
  cases hreserved with
  | enough hle => exact absurd hlt (Nat.not_lt.mpr hle)
  | grown base new _ hvalid hgrant =>
    have hcapacity : s'.capacity = Slots.grown requested := by
      rw [hplace.capacity_eq, capacity_regrown]
    have hlt' : s.capacity < s'.capacity := by
      rw [hcapacity]
      exact Nat.lt_of_lt_of_le hlt (le_grown _)
    obtain ⟨hplaced, hbase, _, _⟩ := hgrant.placed hvalid bounds
    obtain ⟨_, hword, hplacement, _⟩ := hgrant
    rw [totalSize_grown] at hword hplacement
    refine ⟨base, hvalid, hword, hplacement, ?_, hfollows.stride_eq, hfollows.align_eq, ?_, ?_,
      fun k hk => hfollows.carried_all hlt' hk, ?_⟩
    · rw [hcapacity, grown_eq]
    · rw [hplace.base_eq, base_regrown, hbase]
    · rw [hplace.address_eq, ← align_regrown s new (Slots.grown requested)]
      refine hready.aligned ?_
      rw [capacity_regrown]
      exact Nat.lt_of_lt_of_le (Nat.zero_lt_of_lt hlt) (le_grown _)
    · rw [totalSize_grown, releaseEvents_eq]

end Slots

namespace ReserveOutcome

variable {C : Type} {slots : C → Slots} {o o' : C} {requested : Nat} {heap heap' : Heap}
  {e : Failure Refusal}

/-- A growth that is denied. -/
theorem of_denied (hdenied : (slots o).Denied requested heap heap' e)
    (hlt : (slots o).capacity < requested) (hstride : 0 < (slots o).stride) :
    ReserveOutcome slots o requested heap (.error (e.map .ofAlloc)) o heap' := by
  have htotal := Slots.totalSize_grown (slots o) requested
  cases hdenied with
  | oversized hinvalid hlarge =>
    rw [Slots.grown_eq] at hlarge
    exact .oversized hlt hinvalid hlarge rfl rfl rfl
  | misaligned hinvalid hfit =>
    rw [Slots.grown_eq] at hfit
    exact .misaligned hlt hinvalid hfit rfl rfl rfl
  | refused hvalid hrefuses =>
    have hpos : 0 < Slots.grown requested * (slots o).stride :=
      Nat.mul_pos (Nat.lt_of_lt_of_le (Nat.zero_lt_of_lt hlt) (Slots.le_grown _)) hstride
    rcases hrefuses with ⟨hzero | hlarge, hheap⟩ | ⟨_, hword, hnone, hheap⟩
    · omega
    · rw [htotal] at hlarge
      exact .unasked hlt hvalid hlarge rfl rfl hheap
    · rw [htotal] at hword hnone hheap
      exact .refused hlt hvalid hword hnone rfl rfl hheap

end ReserveOutcome

/-! ## Sequences -/

namespace Sequence

variable {α ν : Type} [Element α] [LawfulElement α] {v : Sequence α} {host : Host}

/-- **Making room in a sequence** keeps its elements, and comes to one of the cases. -/
theorem reserve_outcome (h : v.Sound) (requested : UInt64) (n : ν) (host : Host)
    (bounds : host.heap.placement.InBounds) :
    let call : SequenceCall α ν := .step (.reserve requested)
    ReserveOutcome slots v requested.toNat host.heap (call.run.answer ((v, n), host))
        (call.run.after ((v, n), host)).1.1 (call.run.after ((v, n), host)).2.heap ∧
      (call.run.after ((v, n), host)).1.1.toList = v.toList := by
  intro call
  have hword : requested.toNat ≤ Word.greatest := Nat.le_of_lt_succ requested.toNat_lt
  have hends : call.run.Ends ((v, n), host)
      (fun _ s => v.Grown requested.toNat host.heap s.1.1 s.2.heap)
      (fun e s => s.1.1 = v ∧ v.Denied requested.toNat host.heap s.2.heap e) := by
    apply Prog.Ends.map
    apply Prog.Ends.map
    exact (SequenceStep.onSequence_ends (reserve_ends h hword host bounds) n).mono
      (fun _ _ hok => hok.2) fun _ _ herror => herror.2
  rcases hends.cases with ⟨_, hanswer, hgrown⟩ | ⟨e, hanswer, hsame, hlt, r, rfl, hdenied⟩
  · refine ⟨?_, (hgrown.sound h bounds).2⟩
    by_cases hroom : requested.toNat ≤ v.slots.capacity
    · obtain ⟨hsame, hheap⟩ := hgrown.eq_self hroom
      exact .enough hroom hanswer hsame hheap
    · have hlt := Nat.lt_of_not_le hroom
      have hreserved := hgrown.reserved
      have hfollows : Slots.Follows (fun _ => False) _ v.slots _ := hreserved.follows h.ready bounds
      obtain ⟨base, hvalid, hfits, hplacement, hrelocated⟩ :=
        hreserved.relocated hlt h.ready bounds (.refl _) hfollows
      exact .grown base hlt hvalid hfits hplacement hanswer hrelocated
  · rw [hsame, hanswer]
    exact ⟨.of_denied hdenied hlt h.ready.stride_pos, rfl⟩

/-- What a run leaves is sound. -/
theorem session_sound (hempty : Sequence.empty α = .ok v) (bounds : host.heap.placement.InBounds)
    (n : ν) (calls : List (SequenceCall α ν)) :
    (Prog.session SequenceCall.run calls ((v, n), host)).2.1.1.Sound ∧
      (Prog.session SequenceCall.run calls ((v, n), host)).2.2.heap.placement.InBounds := by
  have hmake : (lifecycle α ν).make host = .ok v host := by
    show Prog.ofChecked (Sequence.empty α) host = _
    rw [hempty]
    rfl
  have hkempt := (tended α ν).kempt_session ((tended α ν).kempt_of_make bounds hmake n) calls
  exact ⟨hkempt.kept, hkempt.bounds⟩

end Sequence

/-! ## Buffers -/

namespace Buffer

variable {α ν : Type} [Element α] [LawfulElement α] [Initial α] {align : Nat} {b : Buffer α}
  {w : Window α} {requested : Nat}

omit [LawfulElement α] in
/-- Where there is room already, a buffer stays as it is. -/
theorem reserve_of_le (hroom : requested ≤ b.slots.capacity) (host : Host) :
    (reserve requested).Ends (b, host) (fun _ s => s.1 = b ∧ s.2.heap = host.heap)
      fun _ _ => False := by
  have hslots : (do
      let before ← Slots.reserve requested
      let after := (← Hosted.object).capacity
      Slots.initialise α before (after - before) : Hosted Refusal Slots Unit).Ends (b.slots, host)
      (fun _ s => s.1 = b.slots ∧ s.2.heap = host.heap) fun _ _ => False := by
    apply (Slots.reserve_of_le hroom host).bind _ fun _ _ hfalse => hfalse
    rintro _ ⟨_, host'⟩ ⟨rfl, rfl, hheap⟩
    apply Prog.Ends.bind_ok (Hosted.object_eq _ _)
    show (Slots.initialise α _ (b.slots.capacity - b.slots.capacity)).Ends _ _ _
    rw [Nat.sub_self]
    exact Prog.Ends.pure ⟨rfl, hheap⟩
  unfold reserve
  apply (onSlots_ends hslots).mono
  · rintro _ ⟨⟨_, limit⟩, host'⟩ ⟨hlimit, rfl, hheap⟩
    cases hlimit
    exact ⟨rfl, hheap⟩
  · rintro _ _ ⟨_, _, _, hfalse⟩
    exact hfalse

/-- **Making room in a buffer** keeps its limit, and comes to one of the cases. -/
theorem reserve_outcome (h : b.Holds align w) (requested : UInt64) (n : ν) (host : Host)
    (bounds : host.heap.placement.InBounds) :
    let call : BufferCall α ν := .step (.reserve requested)
    ReserveOutcome slots b requested.toNat host.heap (call.run.answer ((b, n), host))
        (call.run.after ((b, n), host)).1.1 (call.run.after ((b, n), host)).2.heap ∧
      (call.run.after ((b, n), host)).1.1.limit = b.limit := by
  intro call
  have hword : requested.toNat ≤ Word.greatest := Nat.le_of_lt_succ requested.toNat_lt
  have hcall : ∀ {Q : Unit → Buffer α × Host → Prop}
      {E : Failure ContainerError → Buffer α × Host → Prop},
      (reserve requested.toNat).Ends (b, host) Q E → call.run.Ends ((b, n), host)
        (fun _ s => Q () (s.1.1, s.2)) fun e s => E e (s.1.1, s.2) := by
    intro Q E hends
    apply Prog.Ends.map
    apply Prog.Ends.map
    exact (Hosted.onObject_ends hends n).mono (fun _ _ hok => hok.2) fun _ _ herror => herror.2
  by_cases hroom : requested.toNat ≤ b.slots.capacity
  · obtain ⟨_, hanswer, hsame, hheap⟩ | ⟨_, _, hfalse⟩ := (hcall (reserve_of_le hroom host)).cases
    · have hsame : (call.run.after ((b, n), host)).1.1 = b := hsame
      exact ⟨.enough hroom hanswer hsame hheap, by rw [hsame]⟩
    · exact hfalse.elim
  · have hlt := Nat.lt_of_not_le hroom
    have hfollows : (reserve requested.toNat).Ends (b, host)
        (fun _ s => Slots.Follows (fun _ => False) requested.toNat b.slots s.1.slots)
        fun _ s => Slots.Follows (fun _ => False) requested.toNat b.slots s.1.slots :=
      reserve_follows h hword host bounds
    rcases (hcall ((reserve_ends h hword host bounds).and hfollows)).cases with
      ⟨_, hanswer, ⟨hholds, slots, hreserved, hplace⟩, hfollows⟩ |
        ⟨_, hanswer, ⟨hsame, _, r, rfl, hdenied⟩, _⟩
    · obtain ⟨base, hvalid, hfits, hplacement, hrelocated⟩ :=
        hreserved.relocated hlt h.ready bounds hplace hfollows
      refine ⟨.grown base hlt hvalid hfits hplacement hanswer hrelocated, ?_⟩
      rw [h.limit_eq, ← Window.limit_reserve]
      exact hholds.limit_eq
    · have hsame : (call.run.after ((b, n), host)).1.1 = b := hsame
      rw [hsame, hanswer]
      exact ⟨.of_denied hdenied hlt h.ready.stride_pos, rfl⟩

/-- What a run leaves is sound. -/
theorem session_sound {host : Host} (hempty : Buffer.empty α align = .ok b)
    (bounds : host.heap.placement.InBounds) (n : ν) (calls : List (BufferCall α ν)) :
    (Prog.session BufferCall.run calls ((b, n), host)).2.1.1.Sound align ∧
      (Prog.session BufferCall.run calls ((b, n), host)).2.2.heap.placement.InBounds := by
  have hmake : (lifecycle α ν align).make host = .ok b host := by
    show Prog.ofChecked (Buffer.empty α align) host = _
    rw [hempty]
    rfl
  have hkempt := (tended α ν align).kempt_session ((tended α ν align).kempt_of_make bounds hmake n)
    calls
  exact ⟨hkempt.kept, hkempt.bounds⟩

end Buffer

/-- **Making room is exact**, in every sequence and every buffer, after any run of calls and for every
word that is requested.  Supported elements have an alignment that blocks can have. -/
theorem reserves_exactly (α ν : Type) [Element α] [LawfulElement α] [Initial α] (align : Nat) (n : ν)
    {host : Host} (bounds : host.heap.placement.InBounds) :
    (∀ v, Sequence.empty α = .ok v → ∀ (calls : List (SequenceCall α ν)) (requested : UInt64)
      (s s' : (Sequence α × ν) × Host),
      (Prog.session SequenceCall.run calls ((v, n), host)).2 = s →
      (SequenceCall.run (.step (.reserve requested))).after s = s' →
      ReserveOutcome Sequence.slots s.1.1 requested.toNat s.2.heap
          ((SequenceCall.run (.step (.reserve requested))).answer s) s'.1.1 s'.2.heap ∧
        s'.1.1.toList = s.1.1.toList ∧ (Supported α → ValidAlign s.1.1.slots.align)) ∧
    ∀ b, Buffer.empty α align = .ok b → ∀ (calls : List (BufferCall α ν)) (requested : UInt64)
      (s s' : (Buffer α × ν) × Host),
      (Prog.session BufferCall.run calls ((b, n), host)).2 = s →
      (BufferCall.run (.step (.reserve requested))).after s = s' →
      ReserveOutcome Buffer.slots s.1.1 requested.toNat s.2.heap
          ((BufferCall.run (.step (.reserve requested))).answer s) s'.1.1 s'.2.heap ∧
        s'.1.1.limit = s.1.1.limit ∧ (Supported α → ValidAlign s.1.1.slots.align) := by
  refine ⟨?_, ?_⟩
  · rintro v hempty calls requested s _ hs rfl
    obtain ⟨hsound, hbounds⟩ := Sequence.session_sound hempty bounds n calls
    rw [hs] at hsound hbounds
    obtain ⟨houtcome, hlist⟩ := Sequence.reserve_outcome hsound requested s.1.2 s.2 hbounds
    refine ⟨houtcome, hlist, fun supported => ?_⟩
    rw [hsound.align_eq]
    exact Sequence.validAlign_blockAlign supported
  · rintro b hempty calls requested s _ hs rfl
    obtain ⟨⟨w, hholds⟩, hbounds⟩ := Buffer.session_sound hempty bounds n calls
    rw [hs] at hholds hbounds
    obtain ⟨houtcome, hlimit⟩ := Buffer.reserve_outcome hholds requested s.1.2 s.2 hbounds
    refine ⟨houtcome, hlimit, fun supported => ?_⟩
    rw [hholds.align_eq]
    exact supported.validAlign_max (Buffer.eq_of_empty hempty).1

/-- Room for nine elements is room for fourteen. -/
theorem reserves_exactly_nine :
    Host.ordinary.heap.placement.InBounds ∧
    ∃ (v : Sequence (FixedInt ⟨32, true⟩)) (s s' : (Sequence (FixedInt ⟨32, true⟩) × Unit) × Host)
      (base : Nat), Sequence.empty (FixedInt ⟨32, true⟩) = .ok v ∧
      (Prog.session SequenceCall.run [.step (.push (.ofInt _ 1))] ((v, ()), Host.ordinary)).2 = s ∧
      (SequenceCall.run (.step (.reserve 9))).after s = s' ∧ s'.1.1.slots.capacity = 14 ∧
      s.1.1.slots.Relocated 9 s.2.heap base s'.1.1.slots s'.2.heap := by
  have hempty : Sequence.empty (FixedInt ⟨32, true⟩) = .ok ⟨Slots.empty 4 8, 0⟩ := rfl
  obtain ⟨s, hs⟩ : ∃ s, (Prog.session SequenceCall.run [.step (.push (.ofInt _ 1))]
      (((⟨Slots.empty 4 8, 0⟩ : Sequence (FixedInt ⟨32, true⟩)), ()), Host.ordinary)).2 = s :=
    ⟨_, rfl⟩
  have hslots : s.1.1.slots.capacity = 2 ∧ s.1.1.slots.growthSize 9 = 65 ∧
      s.1.1.slots.align = 8 ∧ (s.2.heap.placement s.2.heap.history 65).isSome := by
    rw [← hs]
    decide +kernel
  obtain ⟨hcapacity, hsize, halign, hplace⟩ := hslots
  have hvalid : ValidAlign s.1.1.slots.align := by
    rw [halign]
    decide
  obtain ⟨hsequence, _⟩ := reserves_exactly (FixedInt ⟨32, true⟩) Unit 1 ()
    Host.ordinary_sound.inBounds
  have hnine : (9 : UInt64).toNat = 9 := rfl
  have houtcome := (hsequence _ hempty _ 9 s _ hs rfl).1
  rw [hnine] at houtcome
  cases houtcome with
  | enough hle => omega
  | unasked _ _ hlarge => exact absurd hlarge (by rw [hsize]; decide)
  | refused _ _ _ hnone =>
    rw [hsize] at hnone
    rw [hnone] at hplace
    cases hplace
  | grown base _ _ _ _ _ hrelocated =>
    exact ⟨Host.ordinary_sound.inBounds, _, s, _, base, hempty, hs, rfl, hrelocated.capacity_eq,
      hrelocated⟩
  | oversized _ hinvalid => exact absurd hvalid hinvalid
  | misaligned _ hinvalid => exact absurd hvalid hinvalid

/-- One element that is aligned beyond the blocks: the raw block would take 196609 bytes, which are a word
and have a place, but the heap is not asked for them. -/
theorem reserve_stops_unasked :
    ∃ v, Sequence.empty Sparse = .ok v ∧ v.slots.growthSize 1 = 196609 ∧ 196609 ≤ Word.greatest ∧
      (Host.ordinary.heap.placement Host.ordinary.heap.history 196609).isSome ∧
      let call : SequenceCall Sparse Unit := .step (.reserve 1)
      call.run.answer ((v, ()), Host.ordinary) =
        .error (.fault (.blockAlignment 65536 greatestAlign)) ∧
      (call.run.after ((v, ()), Host.ordinary)).2.heap.history = [] :=
  ⟨⟨Slots.empty 65536 65536, 0⟩, rfl, rfl, by decide, by decide +kernel, rfl, rfl⟩

end AlignedSlots
