import Mathlib
import AlignedSlots.Memory.Shelf
import AlignedSlots.Proofs.Memory.Placing

/-!
# Shelves as memory

The blocks on a shelf are values, but they stand for parts of one memory.  `Shelf.cellAt` reads that
memory by address, and `Shelf.Apart` says that no two blocks share an address.  Then each block can be
read in the memory (`Shelf.memory_eq`), whatever the order of the blocks is (`Shelf.memory_perm`).

The first section says what the operations of a shelf do to its list of blocks, up to order.
-/

namespace AlignedSlots

namespace Shelf

variable {s : Shelf} {name : String} {item : ShelfItem}

/-! ## The list of blocks -/

theorem items_put_perm (s : Shelf) (item : ShelfItem) :
    (s.put item).items.Perm (item :: (s.without item.name).items) := by
  have hsplit : (s.without item.name).items.takeWhile (fun i => decide (i.name < item.name)) ++
      (s.without item.name).items.dropWhile (fun i => decide (i.name < item.name)) =
        (s.without item.name).items := List.takeWhile_append_dropWhile
  show (_ ++ item :: _).Perm _
  refine List.perm_middle.trans ?_
  rw [hsplit]

theorem mem_of_find? (h : s.find? name = some item) : item ∈ s.items ∧ item.name = name := by
  unfold find? at h
  have hname : (item.name == name) = true :=
    List.find?_some (p := fun i : ShelfItem => i.name == name) h
  exact ⟨List.mem_of_find?_eq_some h, eq_of_beq hname⟩

theorem name_ne_of_find?_none (h : s.find? name = none) : ∀ i ∈ s.items, i.name ≠ name := by
  intro i hi heq
  have hfalse := List.find?_eq_none.mp h i hi
  rw [heq, beq_self_eq_true] at hfalse
  exact hfalse rfl

theorem without_of_find?_none (h : s.find? name = none) : (s.without name).items = s.items := by
  apply List.filter_eq_self.mpr
  intro i hi
  exact bne_iff_ne.mpr (name_ne_of_find?_none h i hi)

/-- The block that was put under a name is the one there. -/
theorem find?_put (s : Shelf) (item : ShelfItem) : (s.put item).find? item.name = some item := by
  have hbefore : ∀ i ∈ (s.without item.name).items.takeWhile (fun i => decide (i.name < item.name)),
      ¬ (i.name == item.name) = true := by
    intro i hi heq
    have hmem := (List.takeWhile_prefix fun i : ShelfItem => decide (i.name < item.name)).subset hi
    exact bne_iff_ne.mp (List.mem_filter.mp hmem).2 (eq_of_beq heq)
  have hself : (item.name == item.name) = true := beq_self_eq_true _
  show List.find? _ (_ ++ item :: _) = _
  rw [List.find?_append, List.find?_eq_none.mpr hbefore, Option.none_or, List.find?_cons, hself]

/-- A shelf is the block under a name and the rest. -/
theorem items_perm (hnodup : s.names.Nodup) (h : s.find? name = some item) :
    s.items.Perm (item :: (s.without name).items) := by
  obtain ⟨hname, before, after, hitems, hbefore⟩ := List.find?_eq_some_iff_append.mp h
  have hname : item.name = name := eq_of_beq hname
  have hkeep : ∀ i ∈ before ++ after, (i.name != name) = true := by
    intro i hi
    rcases List.mem_append.mp hi with hi | hi
    · exact hbefore i hi
    · apply bne_iff_ne.mpr
      rintro heq
      have hnodup : (before.map ShelfItem.name ++ item.name :: after.map ShelfItem.name).Nodup := by
        have := hnodup
        unfold names at this
        rw [hitems, List.map_append, List.map_cons] at this
        exact this
      have hrest := (List.nodup_cons.mp (List.nodup_append.mp hnodup).2.1).1
      exact hrest (List.mem_map.mpr ⟨i, hi, heq.trans hname.symm⟩)
  have hwithout : (s.without name).items = before ++ after := by
    show s.items.filter (fun i => i.name != name) = _
    have hdrop : (item.name != name) = false := by simp [hname]
    rw [hitems, List.filter_append, List.filter_cons_of_neg (by simp [hdrop]), ← List.filter_append]
    exact List.filter_eq_self.mpr hkeep
  rw [hwithout, hitems]
  exact List.perm_middle

/-! ## Blocks in memory -/

end Shelf

namespace ShelfItem

/-- The addresses of the raw block. -/
def region (i : ShelfItem) : Region := i.block.raw.region

/-- The address is one of the raw block. -/
def Covers (i : ShelfItem) (address : Nat) : Prop :=
  i.block.raw.base ≤ address ∧ address < i.block.raw.base + i.block.raw.size

instance (i : ShelfItem) (address : Nat) : Decidable (i.Covers address) :=
  inferInstanceAs (Decidable (_ ∧ _))

/-- The content of the raw block at an address. -/
def cellAt (i : ShelfItem) (address : Nat) : Cell :=
  i.block.raw.cells.peek (address - i.block.raw.base)

end ShelfItem

namespace Shelf

/-- No two raw blocks have an address in common. -/
def Apart (items : List ShelfItem) : Prop :=
  items.Pairwise fun i j => i.region.Apart j.region

/-- The memory that blocks stand for: the content of an address that one of them covers. -/
def memory (items : List ShelfItem) (address : Nat) : Option Cell :=
  (items.find? fun i => decide (i.Covers address)).map fun i => i.cellAt address

/-- The memory of a shelf. -/
def cellAt (s : Shelf) (address : Nat) : Option Cell := memory s.items address

variable {items items' rest : List ShelfItem} {i j : ShelfItem} {address : Nat}

theorem Apart.perm (h : Apart items) (hperm : items'.Perm items) : Apart items' :=
  (hperm.pairwise_iff fun hab => Region.Apart.symm hab).mpr h

theorem not_covers_of_apart (h : i.region.Apart j.region) (hi : i.Covers address) :
    ¬ j.Covers address := by
  rintro ⟨hlow, hhigh⟩
  obtain ⟨hlow', hhigh'⟩ := hi
  have h : i.block.raw.base + i.block.raw.size ≤ j.block.raw.base ∨
      j.block.raw.base + j.block.raw.size ≤ i.block.raw.base := h
  omega

/-- One block laid over the memory of the others. -/
theorem memory_cons (i : ShelfItem) (rest : List ShelfItem) (address : Nat) :
    memory (i :: rest) address =
      if i.Covers address then some (i.cellAt address) else memory rest address := by
  unfold memory
  rw [List.find?_cons]
  by_cases hcovers : i.Covers address
  · rw [decide_eq_true hcovers, if_pos hcovers]
    rfl
  · rw [decide_eq_false hcovers, if_neg hcovers]

/-- Every block can be read in the memory. -/
theorem memory_eq (h : Apart items) (hmem : i ∈ items) (hcovers : i.Covers address) :
    memory items address = some (i.cellAt address) := by
  induction items with
  | nil => cases hmem
  | cons j rest ih =>
    obtain ⟨hhead, htail⟩ := List.pairwise_cons.mp h
    rw [memory_cons]
    rcases List.mem_cons.mp hmem with rfl | hmem
    · rw [if_pos hcovers]
    · have hnot : ¬ j.Covers address :=
        not_covers_of_apart (Region.Apart.symm (hhead i hmem)) hcovers
      rw [if_neg hnot]
      exact ih htail hmem

theorem memory_eq_none (h : ∀ i ∈ items, ¬ i.Covers address) : memory items address = none := by
  unfold memory
  rw [List.find?_eq_none.mpr (by simpa using h)]
  rfl

/-- The memory does not depend on the order of the blocks. -/
theorem memory_perm (h : Apart items) (hperm : items'.Perm items) :
    memory items' = memory items := by
  funext address
  by_cases hcovered : ∃ i ∈ items, i.Covers address
  · obtain ⟨i, hi, hcovers⟩ := hcovered
    rw [memory_eq h hi hcovers, memory_eq (h.perm hperm) (hperm.mem_iff.mpr hi) hcovers]
  · have hnone : ∀ i ∈ items, ¬ i.Covers address := fun i hi hcovers => hcovered ⟨i, hi, hcovers⟩
    rw [memory_eq_none hnone, memory_eq_none fun i hi => hnone i (hperm.mem_iff.mp hi)]

end Shelf

end AlignedSlots
