import Mathlib
import AlignedSlots.Proofs.Memory.Carving
import AlignedSlots.Proofs.Memory.ShelfSessions

/-!
# Resizing, case by case

`ShelfStep.Resized` lists what a resize of a block can come to: the block is given back, kept or moved,
or the resize fails with the heap not asked or with the heap asked in vain.  The conditions of the five
cases exclude one another, and each case says which calls the heap saw and what the memory holds.

`ShelfStep.reached_resize` proves it for every block that a run leaves on the shelf, and follows one
byte through `ShelfStep.chain`, a series of resizes of which some may fail.
-/

namespace AlignedSlots

/-- Resizing nothing is allocating, unless nothing is asked for. -/
theorem Parcel.resize_none_eq (align oldSize newSize : Nat) (host : Host) :
    ∃ log, resize none align oldSize newSize host =
      if newSize = 0 then .ok none ⟨host.heap, log⟩
      else (some <$> allocate false align newSize) ⟨host.heap, log⟩ := by
  unfold resize
  by_cases hzero : newSize = 0
  · simp only [if_pos hzero]
    exact ⟨_, rfl⟩
  · simp only [if_neg hzero]
    exact ⟨_, rfl⟩

namespace ShelfStep

/-- The shelves that admissible runs reach on a heap that may refuse any request. -/
def Reached (s : Shelf × Host) : Prop :=
  ∃ host calls, host.heap.placement.Sound ∧ host.heap.history = [] ∧
    AdmissibleAll calls (Shelf.empty, host) ∧ s = (Prog.session call calls (Shelf.empty, host)).2

/-- What a failed resize leaves: the shelf with every byte on it, and a block that can be given back. -/
structure Untouched (s s' : Shelf × Host) (name : String) (item : ShelfItem) : Prop where
  shelf_eq : s'.1 = s.1
  answer_release : (run name .release).answer s' = .ok none
  heap_release : ((run name .release).after s').2.heap =
    s'.2.heap.after [.freed item.block.raw.base]

/-- What the resize of the block `item` under a name comes to. -/
inductive Resized (s : Shelf × Host) (name : String) (item : ShelfItem)
    (align oldSize newSize : Nat) (answer : Except (Failure Refusal) (Option Parcel))
    (s' : Shelf × Host) : Prop
  /-- Nothing is asked for: the raw block is freed, and the block is gone. -/
  | given : newSize = 0 → answer = .ok none → s'.1 = s.1.without name →
      s'.2.heap = s.2.heap.after [.freed item.block.raw.base] →
      Resized s name item align oldSize newSize answer s'
  /-- The block suffices: there is no call, and no byte changes. -/
  | kept : 0 < newSize → newSize ≤ oldSize → answer = .ok (some item.block) →
      s'.1.find? name = some item → s'.1.cellAt = s.1.cellAt → s'.2.heap = s.2.heap →
      Resized s name item align oldSize newSize answer s'
  /-- The raw block of a larger one would be no word: the heap is not asked. -/
  | unasked : oldSize < newSize → Word.greatest < newSize + align + 1 →
      answer = .error (.error .refused) → Untouched s s' name item → s'.2.heap = s.2.heap →
      Resized s name item align oldSize newSize answer s'
  /-- The heap has no place for a larger block. -/
  | refused : oldSize < newSize → newSize + align + 1 ≤ Word.greatest →
      s.2.heap.placement s.2.heap.history (newSize + align + 1) = none →
      answer = .error (.error .refused) → Untouched s s' name item →
      s'.2.heap = s.2.heap.after [.refused (newSize + align + 1)] →
      Resized s name item align oldSize newSize answer s'
  /-- A larger block is granted and takes over the bytes, and then the old one is freed. -/
  | moved (base : Nat) (b : Parcel) : oldSize < newSize → newSize + align + 1 ≤ Word.greatest →
      s.2.heap.placement s.2.heap.history (newSize + align + 1) = some base →
      answer = .ok (some b) → b.raw.base = base → b.Placed align newSize →
      s'.1.find? name = some ⟨name, b, newSize⟩ →
      (∀ j < oldSize, s'.1.cellAt (b.address + j) = s.1.cellAt (item.block.address + j)) →
      s'.2.heap = s.2.heap.after
        [.freed item.block.raw.base, .granted (newSize + align + 1) base] →
      Resized s name item align oldSize newSize answer s'

/-- The size that a block is known to have after a resize: the new one, if the resize worked. -/
def knownSize (answer : Except (Failure Refusal) (Option Parcel)) (size newSize : Nat) : Nat :=
  match answer with
  | .ok _ => newSize
  | .error _ => size

/-- Resizes the block under a name again and again, each time with an alignment and a new size.  The
first resize passes the size `size`, and each other one what the last one that worked has brought. -/
def chain (name : String) : List (Nat × Nat) → Nat → Shelf × Host → Shelf × Host
  | [], _, s => s
  | (align, newSize) :: rest, size, s =>
    let step := run name (.resize align size newSize)
    chain name rest (knownSize (step.answer s) size newSize) (step.after s)

theorem chain_cons (name : String) (align newSize : Nat) (rest : List (Nat × Nat)) (size : Nat)
    (s : Shelf × Host) :
    chain name ((align, newSize) :: rest) size s =
      chain name rest (knownSize ((run name (.resize align size newSize)).answer s) size newSize)
        ((run name (.resize align size newSize)).after s) := rfl

section Kept

variable {s s' : Shelf × Host} {name : String} {item : ShelfItem} {align oldSize : Nat}

theorem Reached.kept (h : Reached s) : Kept s := by
  obtain ⟨host, calls, sound, hnew, hadm, rfl⟩ := h
  exact (kept_empty sound hnew).session hadm

/-- Shelves stay kept when a block is resized. -/
theorem Kept.resize (h : Kept s) (newSize : Nat) (hfind : s.1.find? name = some item)
    (hvalid : ValidAlign align) (hsize : oldSize ≤ item.size) :
    Kept ((run name (.resize align oldSize newSize)).after s) := by
  have hadm : (ShelfStep.resize align oldSize newSize).Admissible s.1 name := by
    refine ⟨hvalid, fun item' hfind' => ?_⟩
    obtain rfl := Option.some.inj (hfind.symm.trans hfind')
    exact hsize
  exact Kept.step (c := (name, .resize align oldSize newSize)) h hadm

/-- A step that left the shelf as it was. -/
theorem Kept.untouched (h : Kept s') (hshelf : s'.1 = s.1) (hfind : s.1.find? name = some item) :
    Untouched s s' name item := by
  have hrelease := run_release_eq h.ledger (hshelf ▸ hfind)
  exact ⟨hshelf, Prog.answer_of_ok hrelease, by rw [Prog.after_of_ok hrelease]⟩

/-- **Every resize of a block on the shelf** comes to one of the five cases. -/
theorem Kept.resized (h : Kept s) (newSize : Nat) (hfind : s.1.find? name = some item)
    (hvalid : ValidAlign align) (hsize : oldSize ≤ item.size) :
    Resized s name item align oldSize newSize ((run name (.resize align oldSize newSize)).answer s)
      ((run name (.resize align oldSize newSize)).after s) := by
  obtain ⟨hmem, hname⟩ := Shelf.mem_of_find? hfind
  have hkept := h.resize newSize hfind hvalid hsize
  have htotal := Parcel.totalSize_eq align newSize
  rcases (run_resize_ends align oldSize newSize h.ledger hfind hvalid h.sound.inBounds).cases with
    ⟨r, hr, ⟨hzero, rfl, hshelf, hheap⟩ | ⟨hpos, hle, rfl, hshelf, hheap⟩ |
      ⟨hlt, base, b, hgrant, rfl, hshelf, hheap⟩⟩ | ⟨e, he, rfl, hshelf, hpos, hlt, hrefuses⟩
  · exact .given hzero hr hshelf hheap
  · have hput := Shelf.find?_put s.1 item
    have hperm := Shelf.items_put_perm s.1 item
    rw [hname] at hput hperm
    refine .kept hpos hle hr (hshelf ▸ hput) ?_ hheap
    rw [hshelf]
    exact Shelf.memory_perm h.ledger.apart (hperm.trans (Shelf.items_perm h.nodup hfind).symm)
  · obtain ⟨hplaced, hbase, _, _⟩ := hgrant.placed hvalid h.sound.inBounds
    obtain ⟨_, hword, hplace, _⟩ := hgrant
    have hput := Shelf.find?_put s.1 ⟨name, b.copy item.block oldSize, newSize⟩
    rw [← hshelf] at hput
    have hfits := hplaced.fits
    rw [htotal] at hword hplace hheap
    refine .moved base (b.copy item.block oldSize) hlt hword hplace hr ?_
      (hplaced.copy item.block oldSize) hput (fun j hj => ?_) hheap
    · rw [← hbase]
      exact Parcel.base_mapCells _ _
    · have hnew := hkept.ledger.cellAt_payload (Shelf.mem_of_find? hput).1 (Nat.lt_trans hj hlt)
      rw [hnew, h.ledger.cellAt_payload hmem (by omega)]
      show some ((b.copy item.block oldSize).peek j) = _
      rw [Parcel.peek_copy (by omega), if_pos hj]
  · have huntouched := hkept.untouched hshelf hfind
    rcases hrefuses with ⟨hzero | hlarge, hheap⟩ | ⟨_, hword, hnone, hheap⟩
    · omega
    · rw [htotal] at hlarge
      exact .unasked hlt hlarge he huntouched hheap
    · rw [htotal] at hword hnone hheap
      exact .refused hlt hword hnone he huntouched hheap

/-- **Every resize of a chain** leaves the byte `j` in its place or brings it along. -/
theorem Kept.chain_cellAt {links : List (Nat × Nat)} (hvalid : ∀ l ∈ links, ValidAlign l.1) {j : Nat}
    (hlinks : ∀ l ∈ links, j < l.2) {size : Nat} (hj : j < size) (h : Kept s)
    (hfind : s.1.find? name = some item) (hsize : size ≤ item.size) :
    ∃ item', (chain name links size s).1.find? name = some item' ∧
      (chain name links size s).1.cellAt (item'.block.address + j) =
        s.1.cellAt (item.block.address + j) := by
  induction links generalizing size s item with
  | nil => exact ⟨item, hfind, rfl⟩
  | cons l rest ih =>
    obtain ⟨align, newSize⟩ := l
    have hlink : j < newSize := hlinks _ List.mem_cons_self
    have halign : ValidAlign align := hvalid _ List.mem_cons_self
    have hkept := h.resize newSize hfind halign hsize
    have hnext {size' : Nat} {item' : ShelfItem} (hj' : j < size')
        (hfind' : ((run name (.resize align size newSize)).after s).1.find? name = some item')
        (hsize' : size' ≤ item'.size) :=
      ih (fun l hl => hvalid l (List.mem_cons_of_mem _ hl))
        (fun l hl => hlinks l (List.mem_cons_of_mem _ hl)) hj' hkept hfind' hsize'
    rw [chain_cons]
    cases h.resized newSize hfind halign hsize with
    | given hzero => omega
    | kept _ hle hanswer hfind' hcell _ =>
      rw [hanswer, ← hcell]
      exact hnext hlink hfind' (hle.trans hsize)
    | unasked _ _ hanswer huntouched _ =>
      rw [hanswer, ← huntouched.shelf_eq]
      exact hnext hj (huntouched.shelf_eq ▸ hfind) hsize
    | refused _ _ _ hanswer huntouched _ =>
      rw [hanswer, ← huntouched.shelf_eq]
      exact hnext hj (huntouched.shelf_eq ▸ hfind) hsize
    | moved base b _ _ _ hanswer _ _ hfind' hcell _ =>
      rw [hanswer, ← hcell j hj]
      exact hnext hlink hfind' (Nat.le_refl _)

end Kept

/-- **Resizing is exact and keeps content.** Resizing nothing allocates, or does nothing where nothing
is asked for.  A resize of a block on the shelf, with a size that it has and any alignment that can be
asked for, comes to one of five cases; and along a chain of such resizes, whether they work or fail,
a byte stays at its place in the block as long as it is within every size that is asked for. -/
theorem reached_resize {s : Shelf × Host} (hreached : Reached s) :
    (∀ align oldSize newSize host, ∃ log, Parcel.resize none align oldSize newSize host =
      if newSize = 0 then .ok none ⟨host.heap, log⟩
      else (some <$> Parcel.allocate false align newSize) ⟨host.heap, log⟩) ∧
    ∀ name item, s.1.find? name = some item →
      (∀ align oldSize newSize, ValidAlign align → oldSize ≤ item.size →
        Resized s name item align oldSize newSize
          ((run name (.resize align oldSize newSize)).answer s)
          ((run name (.resize align oldSize newSize)).after s)) ∧
      ∀ links : List (Nat × Nat), (∀ l ∈ links, ValidAlign l.1) →
        ∀ size ≤ item.size, ∀ j < size, (∀ l ∈ links, j < l.2) →
        ∃ item', (chain name links size s).1.find? name = some item' ∧
          (chain name links size s).1.cellAt (item'.block.address + j) =
            s.1.cellAt (item.block.address + j) := by
  have hkept := hreached.kept
  refine ⟨Parcel.resize_none_eq, fun name item hfind => ⟨?_, ?_⟩⟩
  · intro align oldSize newSize hvalid hsize
    exact hkept.resized newSize hfind hvalid hsize
  · intro links hvalid size hsize j hj hlinks
    exact hkept.chain_cellAt hvalid hlinks hj hfind hsize

/-- The last byte of a block, through a growth, a growth that no heap can serve, a shrink that keeps
the block, and another growth. -/
theorem reached_resize_last_byte :
    Reached (Prog.session call [("a", .allocate false 64 10), ("a", .write 9 [7])]
      (Shelf.empty, Host.ordinary)).2 ∧
    ∃ item, (chain "a" [(8, 100), (64, 2 ^ 64 - 1), (16, 12), (32, 50)] 10
        (Prog.session call [("a", .allocate false 64 10), ("a", .write 9 [7])]
          (Shelf.empty, Host.ordinary)).2).1.find? "a" = some item ∧
      (chain "a" [(8, 100), (64, 2 ^ 64 - 1), (16, 12), (32, 50)] 10
        (Prog.session call [("a", .allocate false 64 10), ("a", .write 9 [7])]
          (Shelf.empty, Host.ordinary)).2).1.cellAt (item.block.address + 9) = some (.byte 7) := by
  generalize hs : (Prog.session call [("a", .allocate false 64 10), ("a", .write 9 [7])]
    (Shelf.empty, Host.ordinary)).2 = s
  have hreached : Reached s := by
    refine ⟨Host.ordinary, [("a", .allocate false 64 10), ("a", .write 9 [7])], Host.ordinary_sound,
      rfl, ⟨⟨by decide, rfl⟩, fun item hfind => ?_, trivial⟩, hs.symm⟩
    have hsize : some item.size = some 10 :=
      (congrArg (Option.map ShelfItem.size) hfind).symm.trans rfl
    show 9 + 1 ≤ item.size
    rw [Option.some.inj hsize]
  have hitem : (s.1.find? "a").map (fun item =>
      (item.size, s.1.cellAt (item.block.address + 9))) = some (10, some (.byte 7)) := by
    subst hs
    decide +kernel
  obtain ⟨item, hfind, hpair⟩ := Option.map_eq_some_iff.mp hitem
  have hsize : item.size = 10 := congrArg Prod.fst hpair
  have hbyte : s.1.cellAt (item.block.address + 9) = some (.byte 7) := congrArg Prod.snd hpair
  have hchain := ((reached_resize hreached).2 "a" item hfind).2
    [(8, 100), (64, 2 ^ 64 - 1), (16, 12), (32, 50)] (by decide) 10 (by omega) 9 (by decide)
    (by decide)
  rw [hbyte] at hchain
  exact ⟨hreached, hchain⟩

end ShelfStep

end AlignedSlots
