import Mathlib
import AlignedSlots.Proofs.Container.SlotGrowth
import AlignedSlots.Proofs.Container.TableInvariant

/-!
# The operations of a table

One statement for each operation about how it ends: the table and the calls to the heap that it leaves
behind.  On a sound table no operation faults on a key whose hash is not 0, and the only error is a
refused growth, which leaves the table as it was.
-/

namespace AlignedSlots

namespace ProbeTable

open Cyclic Row

/-! ## Parts of the operations -/

section Parts

variable {κ ν ε β : Type} {t : ProbeTable κ ν} {host : Host}

theorem hashOf_eq {key : κ} (hkey : t.keying.hash key ≠ 0) : t.hashOf key = .ok (t.keying.hash key) := by
  unfold hashOf
  exact if_pos hkey

theorem ask_eq {f : ProbeTable κ ν → Except (Failure ε) β} {b : β} (h : f t = .ok b) (host : Host) :
    ask f (t, host) = .ok b (t, host) := by
  unfold ask
  simp only [h]

theorem ask_read (f : ProbeTable κ ν → β) (t : ProbeTable κ ν) (host : Host) :
    ask (ε := ε) (fun t => .ok (f t)) (t, host) = .ok (f t) (t, host) := rfl

theorem setLength_eq (length : Nat) (t : ProbeTable κ ν) (host : Host) :
    setLength (ε := ε) length (t, host) = .ok () ({ t with length }, host) := rfl

theorem exchangeSlots_eq (new : Slots) (t : ProbeTable κ ν) (host : Host) :
    exchangeSlots (ε := ε) new (t, host) = .ok t.slots ({ t with slots := new }, host) := rfl

/-- A program of the slots leaves the rest of the table as it is. -/
theorem onSlots_ends {m : Prog ε Slots β} {Q : β → Slots → Prop}
    (h : m.Ends t.slots Q fun _ _ => False) :
    (onSlots m).Ends (t, host) (fun b s => ∃ slots, s = ({ t with slots }, host) ∧ Q b slots)
      (fun _ _ => False) := by
  obtain ⟨b, slots, heq, hq⟩ := h.exists_ok
  have hrun : onSlots m (t, host) = .ok b ({ t with slots }, host) := by
    unfold onSlots
    simp only [heq]
  exact Prog.Ends.of_ok hrun ⟨slots, rfl, hq⟩

end Parts

variable {κ ν : Type} [Element κ] [Element ν] {t : ProbeTable κ ν} {host : Host} {key : κ}

/-! ## Reading -/

/-- **Finding a key** ends at its slot, or at an empty slot if the table does not have it. -/
theorem locate_lands (h : t.Sound) (hkey : t.keying.hash key ≠ 0) :
    (∃ q, Lands t.keying t.capacity t.row (t.keying.hash key) key (.occupied q) ∧
        t.locate key = .ok (some q)) ∨
      ∃ q, Lands t.keying t.capacity t.row (t.keying.hash key) key (.vacant q) ∧
        t.locate key = .ok none := by
  obtain ⟨landing, hprobe, hlands⟩ :=
    probe_lands h.fitted h.exists_empty t.keying (t.keying.hash key) key
  cases landing with
  | occupied q =>
    refine .inl ⟨q, hlands, ?_⟩
    unfold locate find
    rw [hashOf_eq hkey, checked_bind, hprobe]
    rfl
  | vacant q =>
    refine .inr ⟨q, hlands, ?_⟩
    unfold locate find
    rw [hashOf_eq hkey, checked_bind, hprobe]
    rfl

/-- Reading a key answers the value in its slot. -/
theorem get_lands (h : t.Sound) (hkey : t.keying.hash key ≠ 0) :
    (∃ q, Lands t.keying t.capacity t.row (t.keying.hash key) key (.occupied q) ∧
        t.get key = .ok (some (t.row q).value)) ∨
      ∃ q, Lands t.keying t.capacity t.row (t.keying.hash key) key (.vacant q) ∧
        t.get key = .ok none := by
  rcases locate_lands h hkey with ⟨q, hlands, hlocate⟩ | ⟨q, hlands, hlocate⟩
  · refine .inl ⟨q, hlands, ?_⟩
    unfold get
    rw [hlocate, checked_bind]
    show (entryAt t.slots q >>= fun entry : Entry κ ν => _) = _
    rw [entryAt_eq h.fitted hlands.1]
    rfl
  · refine .inr ⟨q, hlands, ?_⟩
    unfold get
    rw [hlocate]
    rfl

theorem contains_eq_of_get {answer : Option ν} (h : t.Sound) (hkey : t.keying.hash key ≠ 0)
    (hget : t.get key = .ok answer) : t.contains key = .ok answer.isSome := by
  unfold contains
  unfold get at hget
  rcases locate_lands h hkey with ⟨q, hlands, hlocate⟩ | ⟨q, hlands, hlocate⟩
  · rw [hlocate, checked_bind] at hget
    rw [hlocate, checked_bind]
    have hread : (entryAt t.slots q >>= fun entry : Entry κ ν => pure (some entry.value)) =
        .ok answer := hget
    rw [entryAt_eq h.fitted hlands.1, checked_bind] at hread
    cases hread
    rfl
  · rw [hlocate, checked_bind] at hget
    rw [hlocate, checked_bind]
    cases hget
    rfl

/-- Iterating lists the entries in the order of the slots. -/
theorem toList_eq (h : t.Sound) : t.toList = .ok (t.entries.map fun e => (e.key, e.value)) := by
  have hread : (List.range t.capacity).mapM (entryAt t.slots) =
      .ok ((List.range t.capacity).map t.row) :=
    mapM_eq_ok fun i hi => entryAt_eq h.fitted (List.mem_range.mp hi)
  unfold toList entriesAt
  rw [hread]
  rfl

/-! ## Making and growing a table -/

section Making

variable [LawfulElement κ] [LawfulElement ν]

/-- A slot has room for the hash at least. -/
theorem hashSize_le_size (κ ν : Type) [Element κ] [Element ν] [LawfulElement κ] [LawfulElement ν] :
    Entry.hashSize ≤ Element.size (Entry κ ν) := by
  obtain ⟨hkey, hvalue, hend⟩ := Entry.offsets κ ν
  show _ ≤ Entry.size κ ν
  omega

theorem size_pos (κ ν : Type) [Element κ] [Element ν] [LawfulElement κ] [LawfulElement ν] :
    0 < Element.size (Entry κ ν) :=
  Nat.lt_of_lt_of_le (by decide) (hashSize_le_size κ ν)

/-- The slots in a block whose bytes are all zero. -/
theorem fitted_of_grants {heap : Heap} {b : Parcel} {base capacity : Nat}
    (hgrant : Parcel.Grants heap (blockAlign κ ν) (capacity * Element.size (Entry κ ν)) 0 b base)
    (power : capacity.isPowerOfTwo) (valid : ValidAlign (blockAlign κ ν))
    (bounds : heap.placement.InBounds) :
    Fitted κ ν ⟨some b, capacity, Element.size (Entry κ ν), blockAlign κ ν⟩ ∧
      ∀ i < capacity, ((Slots.mk (some b) capacity (Element.size (Entry κ ν))
        (blockAlign κ ν)).item i : Entry κ ν).hash = 0 := by
  have hready := Slots.ready_of_grants hgrant valid (size_pos κ ν) bounds
  refine ⟨⟨hready, rfl, rfl, power⟩, fun i hi => ?_⟩
  obtain ⟨_, _, _, hzero⟩ := hgrant.placed valid bounds
  have hslot : i * Element.size (Entry κ ν) + Element.size (Entry κ ν) ≤
      capacity * Element.size (Entry κ ν) := Slots.mul_stride_add_le hi
  have hdecode : ((Slots.mk (some b) capacity (Element.size (Entry κ ν))
      (blockAlign κ ν)).item i : Entry κ ν) = Element.decode fun _ => Cell.byte 0 := by
    unfold Slots.item Slots.load
    refine LawfulElement.decode_congr _ _ fun k hk => ?_
    show b.peek (i * Element.size (Entry κ ν) + k) = _
    exact hzero _ (by omega)
  rw [hdecode]
  exact (isEmpty_iff _).mp Entry.isEmpty_decode_zero

/-- The bytes of the slots of a table. -/
def bytesOf (κ ν : Type) [Element κ] [Element ν] (capacity : Nat) : Nat :=
  capacity * Element.size (Entry κ ν)

/-- The heap does not give a block for so many slots: its size is no word, or there is no place for it. -/
def Unavailable (κ ν : Type) [Element κ] [Element ν] (heap : Heap) (capacity : Nat) : Prop :=
  Word.greatest < Parcel.totalSize (blockAlign κ ν) (bytesOf κ ν capacity) ∨
    heap.placement heap.history (Parcel.totalSize (blockAlign κ ν) (bytesOf κ ν capacity)) = none

omit [LawfulElement κ] [LawfulElement ν] in
theorem not_unavailable_of_grants {heap : Heap} {fill : UInt8} {b : Parcel} {base capacity : Nat}
    (h : Parcel.Grants heap (blockAlign κ ν) (bytesOf κ ν capacity) fill b base) :
    ¬ Unavailable κ ν heap capacity := by
  obtain ⟨_, hword, hplace, _⟩ := h
  rintro (hlarge | hnone)
  · exact absurd hword (Nat.not_le.mpr hlarge)
  · rw [hplace] at hnone
    cases hnone

theorem unavailable_of_refuses {heap heap' : Heap} {capacity : Nat} (hpos : 0 < capacity)
    (h : Parcel.Refuses heap (blockAlign κ ν) (bytesOf κ ν capacity) heap') :
    Unavailable κ ν heap capacity := by
  have hbytes : 0 < bytesOf κ ν capacity := Nat.mul_pos hpos (size_pos κ ν)
  rcases h with ⟨hzero | hlarge, _⟩ | ⟨_, _, hnone, _⟩
  · omega
  · exact .inl hlarge
  · exact .inr hnone

/-- New slots are empty, and they take one block. -/
theorem cleared_ends {capacity : Nat} (host : Host) (power : capacity.isPowerOfTwo)
    (valid : ValidAlign (blockAlign κ ν)) (bounds : host.heap.placement.InBounds) :
    (Prog.mapError ContainerError.ofAlloc
        (Slots.cleared (Element.size (Entry κ ν)) (blockAlign κ ν) capacity)).Ends host
      (fun s host' => Fitted κ ν s ∧ s.capacity = capacity ∧
        (∀ i < capacity, (s.item i : Entry κ ν).hash = 0) ∧ ¬ Unavailable κ ν host.heap capacity ∧
          ∃ base, s.base = some base ∧ host'.heap = host.heap.after
            [.granted (Parcel.totalSize (blockAlign κ ν) (bytesOf κ ν capacity)) base])
      (fun e host' => e = .error .badAlloc ∧
        Parcel.Refuses host.heap (blockAlign κ ν) (bytesOf κ ν capacity) host'.heap) := by
  have hcleared := Slots.cleared_ends host valid (size_pos κ ν) (Nat.pos_of_isPowerOfTwo power)
    bounds
  apply Prog.Ends.mapError
  apply hcleared.mono
  · rintro s host' ⟨base, b, hgrant, rfl, hheap⟩
    obtain ⟨hfitted, hempty⟩ := fitted_of_grants hgrant power valid bounds
    obtain ⟨_, hbase, _, _⟩ := hgrant.placed valid bounds
    exact ⟨hfitted, rfl, hempty, not_unavailable_of_grants hgrant, base, congrArg some hbase, hheap⟩
  · rintro e host' ⟨rfl, hrefuses⟩
    exact ⟨rfl, hrefuses⟩

/-- **A new table** has no entries. -/
theorem create_ends (keying : Keying κ) (host : Host) (valid : ValidAlign (blockAlign κ ν))
    (bounds : host.heap.placement.InBounds) :
    (create keying ν).Ends host
      (fun t host' => t.Sound ∧ t.keying = keying ∧ t.entries = [] ∧ t.length = 0 ∧
        t.capacity = firstCapacity ∧ ∃ base, t.slots.base = some base ∧
          host'.heap = host.heap.after
            [.granted (Parcel.totalSize (blockAlign κ ν) (bytesOf κ ν firstCapacity)) base])
      (fun e host' => e = .error .badAlloc ∧
        Parcel.Refuses host.heap (blockAlign κ ν) (bytesOf κ ν firstCapacity) host'.heap) := by
  unfold create
  apply (cleared_ends host ⟨4, rfl⟩ valid bounds).bind _ fun _ _ h => h
  rintro s host' ⟨hfitted, hcapacity, hempty, _, base, hbase, hheap⟩
  rw [← hcapacity] at hempty
  have hentries : (ProbeTable.mk s 0 keying : ProbeTable κ ν).entries = [] := contents_of_empty hempty
  refine Prog.Ends.pure ⟨⟨hfitted, ⟨0, hcapacity⟩, probing_of_empty hempty, ?_, Nat.zero_le _⟩, rfl,
    hentries, rfl, hcapacity, base, hbase, hheap⟩
  rw [hentries]
  exact Nat.le_refl 0

/-- A new table is made where the heap has a place for its slots. -/
theorem exists_create_eq_ok (keying : Keying κ) (host : Host) (base : Nat)
    (valid : ValidAlign (blockAlign κ ν))
    (bounds : host.heap.placement.InBounds)
    (hsize : Parcel.totalSize (blockAlign κ ν) (bytesOf κ ν firstCapacity) ≤ Word.greatest)
    (hplace : host.heap.placement host.heap.history
      (Parcel.totalSize (blockAlign κ ν) (bytesOf κ ν firstCapacity)) = some base) :
    ∃ t host', create keying ν host = .ok t host' := by
  rcases (create_ends keying host valid bounds).run_eq with ⟨t, host', heq, _⟩ | ⟨_, _, _, _, hrefuses⟩
  · exact ⟨t, host', heq⟩
  · have hpos : 0 < bytesOf κ ν firstCapacity := Nat.mul_pos (by decide) (size_pos κ ν)
    rw [hrefuses.placement_eq_none hpos hsize] at hplace
    cases hplace

/-- With an alignment that is not supported no table is made, and the heap is not asked. -/
theorem create_of_not_valid (keying : Keying κ) (host : Host) (h : ¬ ValidAlign (blockAlign κ ν)) :
    (create keying ν).Ends host (fun _ _ => False) fun _ host' => host'.heap = host.heap := by
  have hpos : 0 < firstCapacity * Element.size (Entry κ ν) :=
    Nat.mul_pos (by decide) (size_pos κ ν)
  have hcleared := (Slots.cleared_of_not_valid host h hpos).mono (fun _ _ hfalse => hfalse)
    fun _ _ hfails => hfails.1
  exact hcleared.mapError.bind (fun _ _ hfalse => hfalse.elim) fun _ _ hheap => hheap

/-- A table is only ever made with a supported alignment. -/
theorem valid_of_create_eq_ok {keying : Keying κ} {host' : Host}
    (h : create keying ν host = .ok t host') : ValidAlign (blockAlign κ ν) := by
  by_contra hinvalid
  exact (create_of_not_valid keying host hinvalid).of_run_ok h

/-- The slot count can be doubled: a slot takes more than one byte, and the bytes of all slots can be
counted. -/
theorem Sound.mul_two_le (h : t.Sound) : t.capacity * 2 ≤ Word.greatest := by
  have hsize := h.fitted.ready.size_le
  have htwo : 2 ≤ t.slots.stride := by
    rw [h.fitted.stride_eq]
    exact Nat.le_trans (by decide) (hashSize_le_size κ ν)
  exact Nat.le_trans (Nat.mul_le_mul_left _ htwo) hsize

omit [LawfulElement κ] [LawfulElement ν] in
/-- A table always has a block, which it can give back. -/
theorem Sound.exists_block (h : t.Sound) : ∃ block, t.slots.block = some block ∧
    t.slots.base = some block.raw.base ∧ ∀ host : Host, block.release (ε := ContainerError) host =
      .ok () { host with heap := host.heap.after [.freed block.raw.base] } := by
  cases hblock : t.slots.block with
  | none =>
    have hzero := h.fitted.ready.unallocated hblock
    exact absurd hzero (Nat.pos_iff_ne_zero.mp h.fitted.capacity_pos)
  | some block =>
    refine ⟨block, rfl, ?_, Parcel.release_eq (h.fitted.ready.placed block hblock).2⟩
    unfold Slots.base
    rw [hblock]
    rfl

/-- The entries of a table find room in twice as many slots. -/
theorem Sound.exists_refilled (h : t.Sound) {blank : Slots} (hfitted : Fitted κ ν blank)
    (hcapacity : blank.capacity = t.capacity * 2)
    (hempty : ∀ i < t.capacity * 2, (blank.item i : Entry κ ν).hash = 0) :
    ∃ filled, rehash (ε := ContainerError) t.keying ν t.slots (List.range t.capacity) blank =
        .ok () filled ∧
      Doubled t { t with slots := filled } ∧ filled.base = blank.base := by
  have hlist : ∀ i ∈ List.range t.capacity, i < t.slots.capacity := fun i hi =>
    List.mem_range.mp hi
  have hblank : contents blank.capacity (blank.item (α := Entry κ ν)) = [] :=
    contents_of_empty (hcapacity ▸ hempty)
  have hentries := h.entries_lt
  have hroom : (contents blank.capacity (blank.item (α := Entry κ ν))).length +
      (gather (List.range t.capacity) (t.slots.item (α := Entry κ ν))).length <
        blank.capacity := by
    rw [hblank, List.length_nil, Nat.zero_add, hcapacity]
    exact Nat.lt_of_lt_of_le hentries (Nat.le_mul_of_pos_right _ (by decide))
  obtain ⟨_, filled, hrehash, row, hrehashes, hfilled⟩ :=
    (rehash_ends (ε := ContainerError) hfitted t.keying h.fitted hlist hroom).exists_ok
  refine ⟨filled, hrehash, ⟨hfilled.fitted, hfilled.capacity_eq.trans hcapacity, rfl, rfl,
    blank.item, ?_, ?_⟩, hfilled.base_eq⟩
  · intro i hi
    exact hempty i (hcapacity ▸ hfilled.capacity_eq ▸ hi)
  · show Rehashes t.keying filled.capacity _ _ _ filled.item
    rw [hfilled.item_eq, hfilled.capacity_eq]
    exact hrehashes

/-- **Growing** doubles the slots, or leaves the table as it is where the heap refuses.  The old block
is given back last. -/
theorem grow_ends (h : t.Sound) (host : Host) (bounds : host.heap.placement.InBounds) :
    grow.Ends (t, host)
      (fun _ s => ¬ Unavailable κ ν host.heap (t.capacity * 2) ∧ Doubled t s.1 ∧
        ∃ old new, t.slots.base = some old ∧ s.1.slots.base = some new ∧
          s.2.heap = host.heap.after [.freed old,
            .granted (Parcel.totalSize (blockAlign κ ν) (bytesOf κ ν (t.capacity * 2))) new])
      (fun e s => e = .error .badAlloc ∧ s.1 = t ∧
        Parcel.Refuses host.heap (blockAlign κ ν) (bytesOf κ ν (t.capacity * 2)) s.2.heap) := by
  have hpower : (t.capacity * 2).isPowerOfTwo :=
    Nat.isPowerOfTwo_mul_two_of_isPowerOfTwo h.fitted.power
  have hvalid : ValidAlign (blockAlign κ ν) :=
    h.fitted.align_eq ▸ h.fitted.ready.valid h.fitted.capacity_pos
  have hmul : Word.mul? t.capacity 2 = some (t.capacity * 2) := if_pos h.mul_two_le
  unfold grow
  apply Prog.Ends.bind_ok (Hosted.object_eq t host)
  simp only [hmul]
  rw [if_neg (not_not.mpr hpower)]
  apply Hosted.trace_ends
  intro log
  apply (Hosted.onHost_ends (cleared_ends ⟨host.heap, log⟩ hpower hvalid bounds)).bind
  · rintro blank _ ⟨host₁, rfl, hfitted, hcapacity, hempty, hgiven, new, hnew, hheap⟩
    obtain ⟨filled, hrehash, hdoubled, hfilled⟩ := h.exists_refilled hfitted hcapacity hempty
    obtain ⟨block, hblock, hbase, hrelease⟩ := h.exists_block
    refine Prog.Ends.bind_ok (show _ = EStateM.Result.ok filled (t, host₁) by simp only [hrehash]) ?_
    apply Prog.Ends.bind_ok (exchangeSlots_eq filled t host₁)
    simp only [hblock]
    have hback : (Hosted.onHost block.release : Hosted ContainerError (ProbeTable κ ν) Unit)
        ({ t with slots := filled }, host₁) = .ok () ({ t with slots := filled },
          { host₁ with heap := host₁.heap.after [.freed block.raw.base] }) := by
      simp only [Hosted.onHost, hrelease]
    refine Prog.Ends.of_ok hback
      ⟨hgiven, hdoubled, block.raw.base, new, hbase, hfilled.trans hnew, ?_⟩
    rw [hheap]
    rfl
  · rintro e _ ⟨host₁, rfl, he, hrefuses⟩
    exact ⟨he, rfl, hrefuses⟩

end Making

/-! ## Putting -/

/-- A put with room for another entry. -/
def stash (key : κ) (value : ν) : Hosted ContainerError (ProbeTable κ ν) (Option ν) := do
  let hash ← ask fun t => Failure.ofChecked (t.hashOf key)
  let keying ← ask fun t => .ok t.keying
  let replaced ← onSlots (place keying ⟨hash, key, value⟩)
  if replaced.isNone then
    let length ← ask fun t => .ok t.length
    setLength (← Word.add length 1)
  return replaced

theorem put_eq_stash (h : t.isHalfFull = false) (value : ν) :
    put key value (t, host) = stash key value (t, host) := by
  unfold put
  rw [Prog.bind_ok (ask_read isHalfFull t host), h]
  rfl

theorem put_eq_grow (h : t.isHalfFull = true) (value : ν) :
    put key value (t, host) = (grow >>= fun _ => stash key value) (t, host) := by
  unfold put
  rw [Prog.bind_ok (ask_read isHalfFull t host), h]
  rfl

/-- What a put does before it stores: a table that is at least half full is doubled. -/
def MadeRoom (t : ProbeTable κ ν) (host : Host) (t' : ProbeTable κ ν) (host' : Host) : Prop :=
  t.isHalfFull = false ∧ t' = t ∧ host'.heap = host.heap ∨
    t.isHalfFull = true ∧ Doubled t t' ∧ ∃ old new, t.slots.base = some old ∧
      t'.slots.base = some new ∧ host'.heap = host.heap.after [.freed old,
        .granted (Parcel.totalSize (blockAlign κ ν) (bytesOf κ ν (t.capacity * 2))) new]

section MadeRoom

variable {t' : ProbeTable κ ν} {host' : Host}

theorem MadeRoom.sound (hroom : MadeRoom t host t' host') (h : t.Sound) :
    t'.Sound ∧ t'.length < t'.capacity / 2 ∧ t'.keying = t.keying := by
  rcases hroom with ⟨hhalf, rfl, _⟩ | ⟨_, hdoubled, _⟩
  · exact ⟨h, Nat.not_le.mp (of_decide_eq_false hhalf), rfl⟩
  · exact ⟨hdoubled.sound h, hdoubled.length_lt h, hdoubled.keying_eq⟩

theorem MadeRoom.tidy (hroom : MadeRoom t host t' host') (h : t.Tidy)
    (hsymm : ∀ a b, t.keying.same a b = t.keying.same b a) :
    t'.Tidy ∧ t'.entries.Perm t.entries := by
  rcases hroom with ⟨_, rfl, _⟩ | ⟨_, hdoubled, _⟩
  · exact ⟨h, List.Perm.refl _⟩
  · exact ⟨hdoubled.tidy h hsymm, (hdoubled.entries_perm h hsymm).2⟩

theorem MadeRoom.placement_eq (hroom : MadeRoom t host t' host') :
    host'.heap.placement = host.heap.placement := by
  rcases hroom with ⟨_, _, hheap⟩ | ⟨_, _, _, _, _, _, hheap⟩ <;> rw [hheap]
  exact Heap.placement_after _ _

end MadeRoom

variable [LawfulElement κ] [LawfulElement ν]

theorem stash_ends (h : t.Sound) (hroom : t.length < t.capacity / 2)
    (hkey : t.keying.hash key ≠ 0) (value : ν) (host : Host) :
    (stash key value).Ends (t, host)
      (fun answer s => s.2 = host ∧ Stored t ⟨t.keying.hash key, key, value⟩ answer s.1)
      (fun _ _ => False) := by
  have hhash : (Failure.ofChecked (t.hashOf key) : Except (Failure ContainerError) UInt64) =
      .ok (t.keying.hash key) := by
    rw [hashOf_eq hkey]
    rfl
  unfold stash
  apply Prog.Ends.bind_ok (ask_eq (f := fun t : ProbeTable κ ν => Failure.ofChecked (t.hashOf key))
    hhash host)
  apply Prog.Ends.bind_ok (ask_read keying t host)
  have hplace := place_ends (ε := ContainerError) h.fitted h.exists_empty t.keying
    ⟨t.keying.hash key, key, value⟩
  apply (onSlots_ends hplace).bind _ fun _ _ hfalse => hfalse
  rintro answer _ ⟨slots, rfl, row, hplaced, hslots⟩
  have hplaced' : Placed t.keying t.capacity t.row ⟨t.keying.hash key, key, value⟩ answer
      (slots.item (α := Entry κ ν)) := hslots.item_eq ▸ hplaced
  cases answer with
  | some old =>
    exact Prog.Ends.pure ⟨rfl, hslots.fitted, hslots.capacity_eq, hslots.base_eq, rfl, rfl, hplaced'⟩
  | none =>
    have hword : t.capacity ≤ Word.greatest := h.fitted.ready.capacity_le
    apply Prog.Ends.bind_ok (ask_read length _ host)
    apply Prog.Ends.bind_ok (Prog.lift_ok (Word.add_eq_ok (by show t.length + 1 ≤ _; omega)))
    apply Prog.Ends.bind_ok (setLength_eq (t.length + 1) { t with slots } host)
    exact Prog.Ends.pure ⟨rfl, hslots.fitted, hslots.capacity_eq, hslots.base_eq, rfl, rfl, hplaced'⟩

/-- **A put** makes room and stores, or leaves the table as it is where the heap refuses. -/
theorem put_ends (h : t.Sound) (hkey : t.keying.hash key ≠ 0) (value : ν) (host : Host)
    (bounds : host.heap.placement.InBounds) :
    (put key value).Ends (t, host)
      (fun answer s => ∃ t', MadeRoom t host t' s.2 ∧
        Stored t' ⟨t.keying.hash key, key, value⟩ answer s.1)
      (fun e s => e = .error .badAlloc ∧ s.1 = t ∧ t.isHalfFull = true ∧
        Parcel.Refuses host.heap (blockAlign κ ν) (bytesOf κ ν (t.capacity * 2)) s.2.heap) := by
  cases hhalf : t.isHalfFull with
  | false =>
    have hroom : MadeRoom t host t host := .inl ⟨hhalf, rfl, rfl⟩
    obtain ⟨answer, s, heq, hhost, hstored⟩ :=
      (stash_ends h (hroom.sound h).2.1 hkey value host).exists_ok
    refine Prog.Ends.of_ok ((put_eq_stash hhalf value).trans heq) ⟨t, ?_, hstored⟩
    rw [hhost]
    exact hroom
  | true =>
    have hgrow : (grow >>= fun _ => stash key value).Ends (t, host)
        (fun answer s => ∃ t', MadeRoom t host t' s.2 ∧
          Stored t' ⟨t.keying.hash key, key, value⟩ answer s.1)
        (fun e s => e = .error .badAlloc ∧ s.1 = t ∧
          Parcel.Refuses host.heap (blockAlign κ ν) (bytesOf κ ν (t.capacity * 2)) s.2.heap) := by
      apply (grow_ends h host bounds).bind _ fun _ _ h => h
      rintro _ ⟨t', host'⟩ ⟨_, hdoubled, hheap⟩
      have hroom : MadeRoom t host t' host' := .inr ⟨hhalf, hdoubled, hheap⟩
      obtain ⟨hsound, hlength, hkeying⟩ := hroom.sound h
      rw [← hkeying] at hkey ⊢
      apply (stash_ends hsound hlength hkey value host').mono _ fun _ _ hfalse => hfalse.elim
      rintro answer ⟨t'', host''⟩ ⟨hhost, hstored⟩
      exact ⟨t', hhost ▸ hroom, hstored⟩
    rcases hgrow.run_eq with ⟨answer, s, heq, hq⟩ | ⟨e, s, heq, he, hs, hrefuses⟩
    · exact Prog.Ends.of_ok ((put_eq_grow hhalf value).trans heq) hq
    · exact Prog.Ends.of_error ((put_eq_grow hhalf value).trans heq) ⟨he, hs, rfl, hrefuses⟩

/-! ## Erasing -/

/-- **An erase** takes the entry of the key out and settles the entries behind it.  It never fails,
and the heap is not asked for anything. -/
theorem erase_ends (h : t.Sound) (hkey : t.keying.hash key ≠ 0) (host : Host) :
    (erase (ν := ν) key).Ends (t, host)
      (fun answer s => s.2.heap = host.heap ∧
        ((∃ q, Lands t.keying t.capacity t.row (t.keying.hash key) key (.vacant q) ∧
            answer = none ∧ s.1 = t) ∨
          ∃ q, Lands t.keying t.capacity t.row (t.keying.hash key) key (.occupied q) ∧
            answer = some (t.row q).value ∧ Erased t q s.1))
      (fun _ _ => False) := by
  have hask : ∀ {index : Option Nat}, t.locate key = .ok index →
      (Failure.ofChecked (t.locate key) : Except (Failure ContainerError) (Option Nat)) =
        .ok index := by
    intro index hlocate
    rw [hlocate]
    rfl
  unfold erase
  rcases locate_lands h hkey with ⟨q, hlands, hlocate⟩ | ⟨q, hlands, hlocate⟩
  · obtain ⟨hq, hfull, hmatch, hpassed⟩ := hlands
    apply Prog.Ends.bind_ok (ask_eq
      (f := fun t : ProbeTable κ ν => Failure.ofChecked (t.locate key)) (hask hlocate) host)
    apply (onSlots_ends (takeEntry_ends (ε := ContainerError) h.fitted hq)).bind _
      fun _ _ hfalse => hfalse
    rintro held _ ⟨slots, rfl, rfl, hslots⟩
    -- The length counts the entry, so that it can go down.
    have hpos := h.length_pos hq hfull
    apply Prog.Ends.bind_ok (ask_read length _ host)
    apply Prog.Ends.bind_ok (Prog.lift_ok (Word.sub_eq_ok hpos))
    apply Prog.Ends.bind_ok (setLength_eq (t.length - 1) { t with slots } host)
    apply Hosted.trace_ends
    intro log
    apply Prog.Ends.bind_ok (ask_read keying _ _)
    obtain ⟨z, hz, hempty⟩ := h.exists_empty
    have hzq : z ≠ q := by
      rintro rfl
      exact hfull hempty
    have hcapacity : slots.capacity = t.capacity := hslots.capacity_eq
    have hprobing : Probing t.keying slots.capacity t.row := hcapacity ▸ h.probing
    have hsettle := settle_ends (ε := ContainerError) hslots.fitted t.keying hprobing hslots.item_eq
      (hcapacity ▸ hq) (hcapacity ▸ hz) hzq hempty
    apply (onSlots_ends (t := { t with slots, length := t.length - 1 }) hsettle).bind _
      fun _ _ hfalse => hfalse
    rintro _ _ ⟨slots', rfl, row, hsettles, hslots'⟩
    rw [hcapacity] at hsettles
    have hwhole := hslots.trans hslots'
    refine Prog.Ends.pure ⟨rfl, .inr ⟨q, ⟨hq, hfull, hmatch, hpassed⟩, rfl, hwhole.fitted,
      hwhole.capacity_eq, hwhole.base_eq, rfl, rfl, ?_⟩⟩
    show Settles _ _ _ _ slots'.item
    rw [hwhole.item_eq]
    exact hsettles
  · apply Prog.Ends.bind_ok (ask_eq
      (f := fun t : ProbeTable κ ν => Failure.ofChecked (t.locate key)) (hask hlocate) host)
    exact Prog.Ends.pure ⟨rfl, .inl ⟨q, hlands, rfl, rfl⟩⟩

end ProbeTable

end AlignedSlots
