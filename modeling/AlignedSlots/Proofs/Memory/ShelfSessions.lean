import Mathlib
import AlignedSlots.Proofs.Memory.ShelfLedger

/-!
# Lives of aligned blocks

What holds after any run of allocations, resizes, releases and writes into payloads, on a heap that
may refuse any request.  A caller has to keep to `ShelfStep.Admissible`: he allocates under a new name,
passes a size that the block has when he resizes it, and writes into payloads only.

`ShelfStep.Moves` says what a step does, and `ShelfStep.session_intact` puts it together: after any
admissible run the blocks are whole, and a further step changes the bytes of a payload only by writing
to it or by moving it.
-/

namespace AlignedSlots

namespace ShelfStep

/-- What a caller has to keep to. -/
def Admissible (shelf : Shelf) (name : String) : ShelfStep → Prop
  | .allocate _ align _ => ValidAlign align ∧ shelf.find? name = none
  | .resizeNone align _ _ => ValidAlign align ∧ shelf.find? name = none
  | .resize align oldSize _ =>
    ValidAlign align ∧ ∀ item, shelf.find? name = some item → oldSize ≤ item.size
  | .release => True
  | .write offset bytes =>
    ∀ item, shelf.find? name = some item → offset + bytes.length ≤ item.size

/-- A step that gives the block back. -/
def GivesBack : ShelfStep → Prop
  | .release => True
  | .resize _ _ newSize => newSize = 0
  | _ => False

/-- What a step does with the blocks of a shelf, in whatever order they are. -/
inductive Moves (items : List ShelfItem) (heap : Heap) (name : String) :
    ShelfStep → List ShelfItem → Heap → Prop
  | kept {step : ShelfStep} {items' : List ShelfItem} {heap' : Heap} :
      items'.Perm items → heap.Unmoved heap' → Moves items heap name step items' heap'
  | made {step : ShelfStep} {items' : List ShelfItem} {align size base : Nat} {fill : UInt8}
      {b : Parcel} : (∀ i ∈ items, i.name ≠ name) → ValidAlign align →
      Parcel.Grants heap align size fill b base → items'.Perm (⟨name, b, size⟩ :: items) →
      Moves items heap name step items' (heap.after [.granted (Parcel.totalSize align size) base])
  | moved {items' rest : List ShelfItem} {old : ShelfItem} {align oldSize newSize base : Nat}
      {fill : UInt8} {b : Parcel} : old.name = name → items.Perm (old :: rest) → oldSize ≤ old.size →
      oldSize < newSize → ValidAlign align → Parcel.Grants heap align newSize fill b base →
      items'.Perm (⟨name, b.copy old.block oldSize, newSize⟩ :: rest) →
      Moves items heap name (.resize align oldSize newSize) items'
        (heap.after [.freed old.block.raw.base,
          .granted (Parcel.totalSize align newSize) base])
  | given {step : ShelfStep} {items' rest : List ShelfItem} {old : ShelfItem} : old.name = name →
      step.GivesBack → items.Perm (old :: rest) → items'.Perm rest →
      Moves items heap name step items' (heap.after [.freed old.block.raw.base])
  | written {items' rest : List ShelfItem} {old : ShelfItem} {offset : Nat} {bytes : List UInt8} :
      old.name = name → offset + bytes.length ≤ old.size → items.Perm (old :: rest) →
      items'.Perm (⟨name, old.block.writeBytes offset bytes, old.size⟩ :: rest) →
      Moves items heap name (.write offset bytes) items' heap

section Run

variable {shelf : Shelf} {host : Host} {name : String} {item : ShelfItem}

/-- Putting a block under a new name. -/
theorem put_perm_of_none (h : shelf.find? name = none) (b : Parcel) (size : Nat) :
    (shelf.put ⟨name, b, size⟩).items.Perm (⟨name, b, size⟩ :: shelf.items) := by
  have hput := Shelf.items_put_perm shelf ⟨name, b, size⟩
  rw [Shelf.without_of_find?_none h] at hput
  exact hput

theorem allocate_moves (zeroed : Bool) (align size : Nat)
    (hadm : (ShelfStep.allocate zeroed align size).Admissible shelf name)
    (bounds : host.heap.placement.InBounds) :
    Moves shelf.items host.heap name (.allocate zeroed align size)
      ((run name (.allocate zeroed align size)).after (shelf, host)).1.items
      ((run name (.allocate zeroed align size)).after (shelf, host)).2.heap := by
  obtain ⟨hvalid, hnone⟩ := hadm
  rcases (Parcel.allocate_ends zeroed size host hvalid bounds).run_eq with
    ⟨b, host', heq, base, hgrant, hheap⟩ | ⟨e, host', heq, _, hrefuses⟩
  · have hrun : run name (.allocate zeroed align size) (shelf, host) =
        .ok (some b) (shelf.put ⟨name, b, size⟩, host') := by
      simp only [run, heq]
    rw [Prog.after_of_ok hrun, hheap]
    exact .made (Shelf.name_ne_of_find?_none hnone) hvalid hgrant (put_perm_of_none hnone b size)
  · have hrun : run name (.allocate zeroed align size) (shelf, host) =
        .error e (shelf, host') := by
      simp only [run, heq]
    rw [Prog.after_of_error hrun]
    exact .kept (List.Perm.refl _) (hrefuses.unmoved)

theorem resizeNone_moves (align oldSize newSize : Nat)
    (hadm : (ShelfStep.resizeNone align oldSize newSize).Admissible shelf name)
    (bounds : host.heap.placement.InBounds) :
    Moves shelf.items host.heap name (.resizeNone align oldSize newSize)
      ((run name (.resizeNone align oldSize newSize)).after (shelf, host)).1.items
      ((run name (.resizeNone align oldSize newSize)).after (shelf, host)).2.heap := by
  obtain ⟨hvalid, hnone⟩ := hadm
  rcases (Parcel.resize_none_ends oldSize newSize host hvalid bounds).run_eq with
    ⟨r, host', heq, ⟨_, rfl, hheap⟩ | ⟨base, b, hgrant, rfl, hheap⟩⟩ |
      ⟨e, host', heq, _, _, hrefuses⟩
  · have hrun : run name (.resizeNone align oldSize newSize) (shelf, host) =
        .ok none (shelf, host') := by
      simp only [run, heq]
    rw [Prog.after_of_ok hrun]
    exact .kept (List.Perm.refl _) (.inl hheap)
  · have hrun : run name (.resizeNone align oldSize newSize) (shelf, host) =
        .ok (some b) (shelf.put ⟨name, b, newSize⟩, host') := by
      simp only [run, heq]
    rw [Prog.after_of_ok hrun, hheap]
    exact .made (Shelf.name_ne_of_find?_none hnone) hvalid hgrant
      (put_perm_of_none hnone b newSize)
  · have hrun : run name (.resizeNone align oldSize newSize) (shelf, host) =
        .error e (shelf, host') := by
      simp only [run, heq]
    rw [Prog.after_of_error hrun]
    exact .kept (List.Perm.refl _) (hrefuses.unmoved)

/-- How a resize of the block under a name ends, and what it leaves under the name. -/
theorem run_resize_ends {old : ShelfItem} (align oldSize newSize : Nat)
    (hledger : Shelf.Ledger shelf.items host.heap) (hfind : shelf.find? name = some old)
    (hvalid : ValidAlign align) (bounds : host.heap.placement.InBounds) :
    (run name (.resize align oldSize newSize)).Ends (shelf, host)
      (fun r s =>
        newSize = 0 ∧ r = none ∧ s.1 = shelf.without name ∧
            s.2.heap = host.heap.after [.freed old.block.raw.base] ∨
        0 < newSize ∧ newSize ≤ oldSize ∧ r = some old.block ∧ s.1 = shelf.put old ∧
            s.2.heap = host.heap ∨
        oldSize < newSize ∧ ∃ base b, Parcel.Grants host.heap align newSize host.heap.fresh b base ∧
          r = some (b.copy old.block oldSize) ∧
          s.1 = shelf.put ⟨name, b.copy old.block oldSize, newSize⟩ ∧
          s.2.heap = host.heap.after
            [.freed old.block.raw.base, .granted (Parcel.totalSize align newSize) base])
      (fun e s => e = .error .refused ∧ s.1 = shelf ∧ 0 < newSize ∧ oldSize < newSize ∧
        Parcel.Refuses host.heap align newSize s.2.heap) := by
  obtain ⟨hmem, hname⟩ := Shelf.mem_of_find? hfind
  obtain ⟨_, hplaced⟩ := hledger.placed old hmem
  rcases (Parcel.resize_ends oldSize newSize host hplaced hvalid bounds).run_eq with
    ⟨r, host', heq, ⟨hzero, rfl, hheap⟩ | ⟨hpos, hle, rfl, hheap⟩ |
      ⟨hlt, base, b, hgrant, rfl, hheap⟩⟩ | ⟨e, host', heq, he, hpos, hlt, hrefuses⟩
  · have hrun : run name (.resize align oldSize newSize) (shelf, host) =
        .ok none (shelf.without name, host') := by
      simp only [run, hfind, heq]
    exact .of_ok hrun (.inl ⟨hzero, rfl, rfl, hheap⟩)
  · have hrun : run name (.resize align oldSize newSize) (shelf, host) =
        .ok (some old.block) (shelf.put ⟨name, old.block, old.size⟩, host') := by
      simp only [run, hfind, heq, if_pos hle]
    subst hname
    exact .of_ok hrun (.inr (.inl ⟨hpos, hle, rfl, rfl, hheap⟩))
  · have hrun : run name (.resize align oldSize newSize) (shelf, host) =
        .ok (some (b.copy old.block oldSize))
          (shelf.put ⟨name, b.copy old.block oldSize, newSize⟩, host') := by
      simp only [run, hfind, heq, if_neg (Nat.not_le.mpr hlt)]
    exact .of_ok hrun (.inr (.inr ⟨hlt, base, b, hgrant, rfl, rfl, hheap⟩))
  · have hrun : run name (.resize align oldSize newSize) (shelf, host) =
        .error e (shelf, host') := by
      simp only [run, hfind, heq]
    exact .of_error hrun ⟨he, rfl, hpos, hlt, hrefuses⟩

theorem resize_moves (align oldSize newSize : Nat)
    (hledger : Shelf.Ledger shelf.items host.heap) (hnodup : shelf.names.Nodup)
    (hadm : (ShelfStep.resize align oldSize newSize).Admissible shelf name)
    (bounds : host.heap.placement.InBounds) :
    Moves shelf.items host.heap name (.resize align oldSize newSize)
      ((run name (.resize align oldSize newSize)).after (shelf, host)).1.items
      ((run name (.resize align oldSize newSize)).after (shelf, host)).2.heap := by
  obtain ⟨hvalid, hsize⟩ := hadm
  cases hfind : shelf.find? name with
  | none =>
    have hrun : run name (.resize align oldSize newSize) (shelf, host) =
        .ok none (shelf, host) := by
      simp only [run, hfind]
    rw [Prog.after_of_ok hrun]
    exact .kept (List.Perm.refl _) (.inl rfl)
  | some old =>
    obtain ⟨_, hname⟩ := Shelf.mem_of_find? hfind
    have hperm := Shelf.items_perm hnodup hfind
    rcases (run_resize_ends align oldSize newSize hledger hfind hvalid bounds).cases with
      ⟨_, _, ⟨hzero, _, hshelf, hheap⟩ | ⟨_, _, _, hshelf, hheap⟩ |
        ⟨hlt, base, b, hgrant, _, hshelf, hheap⟩⟩ | ⟨_, _, _, hshelf, _, _, hrefuses⟩
    · rw [hshelf, hheap]
      exact .given hname hzero hperm (List.Perm.refl _)
    · have hput := Shelf.items_put_perm shelf old
      rw [hname] at hput
      rw [hshelf]
      exact .kept (hput.trans hperm.symm) (.inl hheap)
    · rw [hshelf, hheap]
      exact .moved hname hperm (hsize old hfind) hlt hvalid hgrant
        (Shelf.items_put_perm shelf ⟨name, b.copy old.block oldSize, newSize⟩)
    · rw [hshelf]
      exact .kept (List.Perm.refl _) (hrefuses.unmoved)

/-- The block under a name is given back. -/
theorem run_release_eq {old : ShelfItem} (hledger : Shelf.Ledger shelf.items host.heap)
    (hfind : shelf.find? name = some old) :
    run name .release (shelf, host) = .ok none (shelf.without name,
      { host with heap := host.heap.after [.freed old.block.raw.base] }) := by
  obtain ⟨_, hplaced⟩ := hledger.placed old (Shelf.mem_of_find? hfind).1
  have hrelease := Parcel.release_eq (ε := Refusal) hplaced host
  simp only [run, hfind, hrelease]

theorem release_moves (hledger : Shelf.Ledger shelf.items host.heap) (hnodup : shelf.names.Nodup) :
    Moves shelf.items host.heap name .release
      ((run name .release).after (shelf, host)).1.items
      ((run name .release).after (shelf, host)).2.heap := by
  cases hfind : shelf.find? name with
  | none =>
    have hrun : run name .release (shelf, host) = .ok none (shelf, host) := by
      simp only [run, hfind]
    rw [Prog.after_of_ok hrun]
    exact .kept (List.Perm.refl _) (.inl rfl)
  | some old =>
    rw [Prog.after_of_ok (run_release_eq hledger hfind)]
    exact .given (Shelf.mem_of_find? hfind).2 trivial (Shelf.items_perm hnodup hfind)
      (List.Perm.refl _)

theorem write_moves (offset : Nat) (bytes : List UInt8) (hnodup : shelf.names.Nodup)
    (hadm : (ShelfStep.write offset bytes).Admissible shelf name) :
    Moves shelf.items host.heap name (.write offset bytes)
      ((run name (.write offset bytes)).after (shelf, host)).1.items
      ((run name (.write offset bytes)).after (shelf, host)).2.heap := by
  cases hfind : shelf.find? name with
  | none =>
    have hrun : run name (.write offset bytes) (shelf, host) = .ok none (shelf, host) := by
      simp only [run, hfind]
    rw [Prog.after_of_ok hrun]
    exact .kept (List.Perm.refl _) (.inl rfl)
  | some old =>
    obtain ⟨_, hname⟩ := Shelf.mem_of_find? hfind
    have hrun : run name (.write offset bytes) (shelf, host) =
        .ok (some (old.block.writeBytes offset bytes))
          (shelf.put ⟨name, old.block.writeBytes offset bytes, old.size⟩, host) := by
      simp only [run, hfind, hname]
    rw [Prog.after_of_ok hrun]
    exact .written hname (hadm old hfind) (Shelf.items_perm hnodup hfind)
      (Shelf.items_put_perm shelf ⟨name, old.block.writeBytes offset bytes, old.size⟩)

/-- **What an admissible step does.** -/
theorem run_moves (step : ShelfStep) (hledger : Shelf.Ledger shelf.items host.heap)
    (hnodup : shelf.names.Nodup) (hadm : step.Admissible shelf name)
    (bounds : host.heap.placement.InBounds) :
    Moves shelf.items host.heap name step ((run name step).after (shelf, host)).1.items
      ((run name step).after (shelf, host)).2.heap := by
  cases step with
  | allocate zeroed align size => exact allocate_moves zeroed align size hadm bounds
  | resizeNone align oldSize newSize => exact resizeNone_moves align oldSize newSize hadm bounds
  | resize align oldSize newSize =>
    exact resize_moves align oldSize newSize hledger hnodup hadm bounds
  | release => exact release_moves hledger hnodup
  | write offset bytes => exact write_moves offset bytes hnodup hadm

end Run

/-! ## Every step keeps the ledger -/

section Keep

variable {items items' rest : List ShelfItem} {heap heap' : Heap} {name : String} {step : ShelfStep}
  {old : ShelfItem}

theorem Moves.placement_eq (hmoves : Moves items heap name step items' heap') :
    heap'.placement = heap.placement := by
  cases hmoves with
  | kept _ hheap => rcases hheap with rfl | ⟨_, rfl⟩ <;> rfl
  | made _ _ _ _ => rfl
  | moved _ _ _ _ _ _ _ => rfl
  | given _ _ _ _ => rfl
  | written _ _ _ _ => rfl

/-- **Every step keeps the ledger.** -/
theorem Moves.ledger (hmoves : Moves items heap name step items' heap')
    (h : Shelf.Ledger items heap) (sound : heap.placement.Sound) : Shelf.Ledger items' heap' := by
  cases hmoves with
  | kept hperm hheap =>
    rcases hheap with rfl | ⟨_, rfl⟩
    · exact h.perm hperm
    · exact Shelf.Ledger.perm ⟨h.placed, h.apart, h.live, h.freed⟩ hperm
  | made _ hvalid hgrant hperm => exact (h.granted name hgrant hvalid sound).perm hperm
  | @moved _ rest old align oldSize newSize base fill b _ hold _ _ hvalid hgrant hperm =>
    -- The new block is there before the old one is given back.
    have hgranted := ((h.perm hold.symm).granted name hgrant hvalid sound).perm
      (List.Perm.swap _ _ _)
    have hplaced := (hgrant.placed hvalid sound.inBounds).1
    have hregion : (b.copy old.block oldSize).raw.region =
        (ShelfItem.mk name b newSize).region := by
      unfold ShelfItem.region RawBlock.region Parcel.copy RawBlock.size
      simp
    exact (hgranted.given.changed hregion (hplaced.copy old.block oldSize)).perm hperm
  | given _ _ hold hperm => exact (h.perm hold.symm).given.perm hperm
  | @written _ rest old offset bytes _ _ hold hperm =>
    have hledger := h.perm hold.symm
    obtain ⟨_, hplaced⟩ := hledger.placed old List.mem_cons_self
    have hregion : (old.block.writeBytes offset bytes).raw.region = old.region := by
      unfold ShelfItem.region RawBlock.region Parcel.writeBytes RawBlock.size
      simp
    exact (hledger.changed hregion (hplaced.writeBytes offset bytes)).perm hperm

/-- Every step keeps the names different. -/
theorem Moves.nodup (hmoves : Moves items heap name step items' heap')
    (h : (items.map ShelfItem.name).Nodup) : (items'.map ShelfItem.name).Nodup := by
  have hcons : ∀ {old : ShelfItem} {rest : List ShelfItem}, items.Perm (old :: rest) →
      (old.name :: rest.map ShelfItem.name).Nodup :=
    fun hold => (hold.map ShelfItem.name).nodup_iff.mp h
  cases hmoves with
  | kept hperm _ => exact (hperm.map ShelfItem.name).nodup_iff.mpr h
  | made hnew _ _ hperm =>
    refine (hperm.map ShelfItem.name).nodup_iff.mpr (List.nodup_cons.mpr ⟨?_, h⟩)
    intro hmem
    obtain ⟨i, hi, heq⟩ := List.mem_map.mp hmem
    exact hnew i hi heq
  | moved hname hold _ _ _ _ hperm =>
    have hnodup := hcons hold
    rw [hname] at hnodup
    exact (hperm.map ShelfItem.name).nodup_iff.mpr hnodup
  | given _ _ hold hperm =>
    exact (hperm.map ShelfItem.name).nodup_iff.mpr (List.nodup_cons.mp (hcons hold)).2
  | written hname _ hold hperm =>
    have hnodup := hcons hold
    rw [hname] at hnodup
    exact (hperm.map ShelfItem.name).nodup_iff.mpr hnodup

end Keep

/-! ## What a step does to the payloads -/

/-- A step that writes the byte `j` of a payload, and what it writes there. -/
def Writes (step : ShelfStep) (j : Nat) (cell : Option Cell) : Prop :=
  ∃ offset bytes, step = .write offset bytes ∧ offset ≤ j ∧ j < offset + bytes.length ∧
    cell = some (.byte (bytes.getD (j - offset) 0))

/-- What becomes of a block in a step with the block under a name. -/
inductive Fate (shelf : Shelf) (name : String) (step : ShelfStep) (shelf' : Shelf)
    (item : ShelfItem) : Prop
  /-- It is given back. -/
  | given : item.name = name → step.GivesBack → (∀ i ∈ shelf'.items, i.name ≠ name) →
      Fate shelf name step shelf' item
  /-- It stays where it is, and keeps every byte of its payload that is not written to. -/
  | stays (item' : ShelfItem) : item' ∈ shelf'.items → item'.name = item.name →
      item'.block.address = item.block.address → item'.size = item.size →
      (∀ j < item.size,
        shelf'.cellAt (item.block.address + j) = shelf.cellAt (item.block.address + j) ∨
          item.name = name ∧ step.Writes j (shelf'.cellAt (item.block.address + j))) →
      Fate shelf name step shelf' item
  /-- A resize moves it, and the bytes that were to be kept are there at its new place. -/
  | moves (item' : ShelfItem) (align oldSize newSize : Nat) : item' ∈ shelf'.items →
      item.name = name → item'.name = name → step = .resize align oldSize newSize →
      oldSize < newSize → item'.size = newSize →
      (∀ j < oldSize,
        shelf'.cellAt (item'.block.address + j) = shelf.cellAt (item.block.address + j)) →
      Fate shelf name step shelf' item

section Payload

variable {shelf shelf' : Shelf} {heap heap' : Heap} {name : String} {step : ShelfStep}
  {item : ShelfItem}

/-- A block that is on both shelves. -/
theorem fate_of_mem (h : Shelf.Ledger shelf.items heap) (h' : Shelf.Ledger shelf'.items heap')
    (hi : item ∈ shelf.items) (hi' : item ∈ shelf'.items) : Fate shelf name step shelf' item := by
  refine .stays item hi' rfl rfl rfl fun j hj => .inl ?_
  rw [h.cellAt_payload hi hj, h'.cellAt_payload hi' hj]

/-- A block that was moved: the copy came before the old block was given back. -/
theorem fate_of_moved (h : Shelf.Ledger shelf.items heap) (h' : Shelf.Ledger shelf'.items heap')
    (hi : item ∈ shelf.items) (hname : item.name = name) {align oldSize newSize : Nat} {b : Parcel}
    (hb : b.Placed align newSize) (hsize : oldSize ≤ item.size) (hlt : oldSize < newSize)
    (hnew : ⟨name, b.copy item.block oldSize, newSize⟩ ∈ shelf'.items) :
    Fate shelf name (.resize align oldSize newSize) shelf' item := by
  have hfits := hb.fits
  refine .moves _ align oldSize newSize hnew hname rfl rfl hlt rfl fun j hj => ?_
  rw [h'.cellAt_payload hnew (Nat.lt_trans hj hlt), h.cellAt_payload hi (by omega)]
  show some ((b.copy item.block oldSize).peek j) = _
  rw [Parcel.peek_copy (by omega), if_pos hj]

/-- A block that was written to. -/
theorem fate_of_written (h : Shelf.Ledger shelf.items heap) (h' : Shelf.Ledger shelf'.items heap')
    (hi : item ∈ shelf.items) (hname : item.name = name) {offset : Nat} {bytes : List UInt8}
    (hsize : offset + bytes.length ≤ item.size)
    (hnew : ⟨name, item.block.writeBytes offset bytes, item.size⟩ ∈ shelf'.items) :
    Fate shelf name (.write offset bytes) shelf' item := by
  have haddress : (item.block.writeBytes offset bytes).address = item.block.address := by
    unfold Parcel.address Parcel.writeBytes
    simp
  obtain ⟨_, hplaced⟩ := h.placed item hi
  have hfits := hplaced.fits
  refine .stays _ hnew hname.symm haddress rfl fun j hj => ?_
  have hpayload := h'.cellAt_payload hnew hj
  have hcell : shelf'.cellAt (item.block.address + j) =
      some ((item.block.writeBytes offset bytes).peek j) := haddress ▸ hpayload
  rw [Parcel.peek_writeBytes (by omega)] at hcell
  by_cases hwritten : offset ≤ j ∧ j < offset + bytes.length
  · rw [if_pos hwritten] at hcell
    exact .inr ⟨hname, offset, bytes, rfl, hwritten.1, hwritten.2, hcell⟩
  · rw [if_neg hwritten] at hcell
    rw [hcell, h.cellAt_payload hi hj]
    exact .inl rfl

/-- **Every step** leaves the payloads of the other blocks as they are. -/
theorem Moves.fate (hmoves : Moves shelf.items heap name step shelf'.items heap')
    (h : Shelf.Ledger shelf.items heap) (h' : Shelf.Ledger shelf'.items heap')
    (hnodup : shelf.names.Nodup) (bounds : heap.placement.InBounds) (hi : item ∈ shelf.items) :
    Fate shelf name step shelf' item := by
  generalize hitems : shelf.items = items at hmoves
  generalize hitems' : shelf'.items = items' at hmoves
  cases hmoves with
  | kept hperm _ =>
    have hi' : item ∈ shelf'.items := hitems' ▸ hperm.mem_iff.mpr (hitems ▸ hi)
    exact fate_of_mem h h' hi hi'
  | made _ _ _ hperm =>
    have hi' : item ∈ shelf'.items :=
      hitems' ▸ hperm.mem_iff.mpr (List.mem_cons_of_mem _ (hitems ▸ hi))
    exact fate_of_mem h h' hi hi'
  | @moved _ rest old align oldSize newSize base fill b hname hold hsize hlt hvalid hgrant hperm =>
    rcases List.mem_cons.mp (hold.mem_iff.mp (hitems ▸ hi)) with rfl | hrest
    · have hnew : ⟨name, b.copy item.block oldSize, newSize⟩ ∈ shelf'.items :=
        hitems' ▸ hperm.mem_iff.mpr List.mem_cons_self
      exact fate_of_moved h h' hi hname (hgrant.placed hvalid bounds).1 hsize hlt hnew
    · have hi' : item ∈ shelf'.items := hitems' ▸ hperm.mem_iff.mpr (List.mem_cons_of_mem _ hrest)
      exact fate_of_mem h h' hi hi'
  | @given _ _ rest old hname hback hold hperm =>
    have hnames : (old.name :: rest.map ShelfItem.name).Nodup :=
      (hold.map ShelfItem.name).nodup_iff.mp (hitems ▸ hnodup)
    rcases List.mem_cons.mp (hold.mem_iff.mp (hitems ▸ hi)) with rfl | hrest
    · refine .given hname hback fun i hi' heq => ?_
      have hmem : i ∈ rest := hperm.mem_iff.mp (hitems' ▸ hi')
      exact (List.nodup_cons.mp hnames).1 (List.mem_map.mpr ⟨i, hmem, heq.trans hname.symm⟩)
    · have hi' : item ∈ shelf'.items := hitems' ▸ hperm.mem_iff.mpr hrest
      exact fate_of_mem h h' hi hi'
  | @written _ rest old offset bytes hname hsize hold hperm =>
    rcases List.mem_cons.mp (hold.mem_iff.mp (hitems ▸ hi)) with rfl | hrest
    · have hnew : ⟨name, item.block.writeBytes offset bytes, item.size⟩ ∈ shelf'.items :=
        hitems' ▸ hperm.mem_iff.mpr List.mem_cons_self
      exact fate_of_written h h' hi hname hsize hnew
    · have hi' : item ∈ shelf'.items := hitems' ▸ hperm.mem_iff.mpr (List.mem_cons_of_mem _ hrest)
      exact fate_of_mem h h' hi hi'

end Payload

/-! ## Runs -/

/-- A step with the block under a name. -/
def call (c : String × ShelfStep) : Prog Refusal (Shelf × Host) (Option Parcel) := run c.1 c.2

/-- Every step is admissible where the steps before have led. -/
def AdmissibleAll : List (String × ShelfStep) → Shelf × Host → Prop
  | [], _ => True
  | c :: rest, s => c.2.Admissible s.1 c.1 ∧ AdmissibleAll rest ((call c).after s)

/-- What a run keeps. -/
structure Kept (s : Shelf × Host) : Prop where
  ledger : Shelf.Ledger s.1.items s.2.heap
  nodup : s.1.names.Nodup
  sound : s.2.heap.placement.Sound

/-- A shelf without blocks, before the first call to the heap. -/
theorem kept_empty {host : Host} (sound : host.heap.placement.Sound) (hnew : host.heap.history = []) :
    Kept (Shelf.empty, host) := by
  have hnone : ∀ i ∈ Shelf.empty.items, ∃ align, i.block.Placed align i.size :=
    fun i hi => absurd hi List.not_mem_nil
  refine ⟨⟨hnone, List.Pairwise.nil, ?_, ?_⟩, List.nodup_nil, sound⟩
  · rw [hnew]
    exact List.Perm.refl _
  · rw [hnew]
    exact trivial

theorem Kept.moves {s : Shelf × Host} (h : Kept s) {c : String × ShelfStep}
    (hadm : c.2.Admissible s.1 c.1) :
    Moves s.1.items s.2.heap c.1 c.2 ((call c).after s).1.items ((call c).after s).2.heap :=
  run_moves c.2 h.ledger h.nodup hadm h.sound.inBounds

theorem Kept.step {s : Shelf × Host} (h : Kept s) {c : String × ShelfStep}
    (hadm : c.2.Admissible s.1 c.1) : Kept ((call c).after s) := by
  have hmoves := h.moves hadm
  refine ⟨hmoves.ledger h.ledger h.sound, hmoves.nodup h.nodup, ?_⟩
  rw [hmoves.placement_eq]
  exact h.sound

theorem Kept.session {s : Shelf × Host} (h : Kept s) {calls : List (String × ShelfStep)}
    (hadm : AdmissibleAll calls s) : Kept (Prog.session call calls s).2 := by
  induction calls generalizing s with
  | nil => exact h
  | cons c rest ih => exact ih (h.step hadm.1) hadm.2

/-- **Blocks stay whole.** After any admissible run the distances and the payloads of the blocks lie in
their own raw blocks and apart from one another, every distance leads back to its raw block, and every
free took back a block that was out.  A further step changes the bytes of a payload only by writing to
it, or by a resize that moves it. -/
theorem session_intact {host : Host} (sound : host.heap.placement.Sound)
    (hnew : host.heap.history = []) (calls : List (String × ShelfStep))
    (hadm : AdmissibleAll calls (Shelf.empty, host)) :
    (Prog.session call calls (Shelf.empty, host)).2.1.Intact
        (Prog.session call calls (Shelf.empty, host)).2.2.heap ∧
      ∀ c : String × ShelfStep,
        c.2.Admissible (Prog.session call calls (Shelf.empty, host)).2.1 c.1 →
        ∀ item ∈ (Prog.session call calls (Shelf.empty, host)).2.1.items,
          Fate (Prog.session call calls (Shelf.empty, host)).2.1 c.1 c.2
            ((call c).after (Prog.session call calls (Shelf.empty, host)).2).1 item := by
  have hkept := (kept_empty sound hnew).session hadm
  refine ⟨hkept.ledger.intact, fun c hc item hi => ?_⟩
  exact (hkept.moves hc).fate hkept.ledger (hkept.step hc).ledger hkept.nodup hkept.sound.inBounds hi

/-- Two blocks, one of which is written to and given back: the other one keeps its place and its bytes. -/
theorem session_intact_two_blocks :
    ∃ (s s' : Shelf × Host) (b b' : ShelfItem),
      let calls : List (String × ShelfStep) := [("a", .allocate false 64 10), ("b", .allocate true 8 3),
        ("b", .write 1 [5]), ("a", .write 2 [7, 8])]
      Host.ordinary.heap.placement.Sound ∧ AdmissibleAll calls (Shelf.empty, Host.ordinary) ∧
      (Prog.session call calls (Shelf.empty, Host.ordinary)).2 = s ∧ s.1.Intact s.2.heap ∧
      (call ("a", .release)).after s = s' ∧
      b ∈ s.1.items ∧ b.name = "b" ∧ b.size = 3 ∧ s.1.cellAt (b.block.address + 1) = some (.byte 5) ∧
      b' ∈ s'.1.items ∧ b'.name = "b" ∧ b'.block.address = b.block.address ∧ b'.size = 3 ∧
      ∀ k < 3, s'.1.cellAt (b.block.address + k) = s.1.cellAt (b.block.address + k) := by
  let calls : List (String × ShelfStep) := [("a", .allocate false 64 10), ("b", .allocate true 8 3),
    ("b", .write 1 [5]), ("a", .write 2 [7, 8])]
  have hwrites : ∀ {found : Option ShelfItem} {n m : Nat}, found.map ShelfItem.size = some n → m ≤ n →
      ∀ item, found = some item → m ≤ item.size := by
    rintro _ n m hsize hle item rfl
    exact (Option.some.inj hsize).symm ▸ hle
  have hadm : AdmissibleAll calls (Shelf.empty, Host.ordinary) :=
    ⟨⟨by decide, rfl⟩, ⟨by decide, rfl⟩, hwrites (n := 3) rfl (by decide),
      hwrites (n := 10) rfl (by decide), trivial⟩
  obtain ⟨hintact, hfate⟩ := session_intact Host.ordinary_sound rfl calls hadm
  obtain ⟨b, hb, hname, hsize, hcell⟩ :
      ∃ b ∈ (Prog.session call calls (Shelf.empty, Host.ordinary)).2.1.items, b.name = "b" ∧
        b.size = 3 ∧ (Prog.session call calls (Shelf.empty, Host.ordinary)).2.1.cellAt
          (b.block.address + 1) = some (.byte 5) := by
    decide +kernel
  -- Only a block under the name of the step can be given back, moved or written to.
  have hother : b.name ≠ "a" := by
    rw [hname]
    decide
  cases hfate ("a", .release) trivial b hb with
  | given hsame _ _ => exact absurd hsame hother
  | moves _ _ _ _ _ hsame _ _ _ _ _ => exact absurd hsame hother
  | stays b' hb' hname' haddress hsize' hbytes =>
    refine ⟨_, _, b, b', Host.ordinary_sound, hadm, rfl, hintact, rfl, hb, hname, hsize,
      hcell, hb', hname'.trans hname, haddress, hsize'.trans hsize, fun k hk => ?_⟩
    rcases hbytes k (hsize.symm ▸ hk) with hsame | ⟨hsame, _⟩
    · exact hsame
    · exact absurd hsame hother

end ShelfStep

end AlignedSlots
