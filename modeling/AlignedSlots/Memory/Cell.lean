import AlignedSlots.FixedInt

/-!
# Memory cells

One byte of memory is a `Cell`.  It holds a byte, or one part of a reference to a text: such a
reference takes sixteen cells, and the address it holds cannot be seen from outside.

A stretch of memory is a size and what its cells hold.  Memory that nobody wrote to yet holds the same
cell everywhere, so only the cells up to the last one written are kept one by one, and a large block
costs no more than what is written to it.  `Cells.overwrite` is the one way to change a part of a
stretch, and `Cells.peek_overwrite` says all there is to know about it.
-/

namespace AlignedSlots

/-- The content of one byte of memory. -/
inductive Cell where
  | byte (value : UInt8)
  /-- The part with this number of a reference to a text. -/
  | text (value : String) (part : Nat)
  deriving DecidableEq, Inhabited

/-- The byte of a cell.  Parts of references have none to show. -/
@[inline] def Cell.toByte : Cell → UInt8
  | byte value => value
  | text _ _ => 0

/-- A stretch of memory: the cells at its front one by one, and the cell that all others hold. -/
structure Cells where
  size : Nat
  front : Array Cell
  rest : Cell
  deriving DecidableEq, Inhabited

namespace Cells

/-- A stretch in which every byte is the same. -/
def filled (size : Nat) (value : UInt8) : Cells := ⟨size, #[], .byte value⟩

/-- The cell at an offset. -/
@[inline] def peek (m : Cells) (offset : Nat) : Cell :=
  if offset < m.size then m.front.getD offset m.rest else .byte 0

theorem peek_filled {size i : Nat} (value : UInt8) (h : i < size) :
    (filled size value).peek i = .byte value := if_pos h

/-- The front made up to at least `stop` cells. -/
def extend (front : Array Cell) (rest : Cell) (stop : Nat) : Array Cell :=
  if stop ≤ front.size then front else front ++ Array.replicate (stop - front.size) rest

theorem le_size_extend (front : Array Cell) (rest : Cell) (stop : Nat) :
    stop ≤ (extend front rest stop).size := by
  unfold extend
  split
  · assumption
  · rw [Array.size_append, Array.size_replicate]
    omega

theorem getD_extend (front : Array Cell) (rest : Cell) (stop i : Nat) :
    (extend front rest stop).getD i rest = front.getD i rest := by
  unfold extend
  split
  · rfl
  · rw [Array.getD_eq_getD_getElem?, Array.getD_eq_getD_getElem?, Array.getElem?_append]
    split
    · rfl
    · next outside =>
      rw [Array.getElem?_eq_none (Nat.le_of_not_lt outside), Array.getElem?_replicate]
      split <;> rfl

/-- Writes cells over a range of an array. -/
def write (front : Array Cell) (start count : Nat) (source : Nat → Cell) : Array Cell :=
  Nat.fold count (fun i _ front => front.setIfInBounds (start + i) (source i)) front

/-- After writing, a cell in the range holds what was written there, and every other cell what it
held. -/
theorem getElem?_write (front : Array Cell) (start count : Nat) (source : Nat → Cell) (i : Nat) :
    (write front start count source)[i]? =
      if start ≤ i ∧ i < start + count ∧ i < front.size then some (source (i - start))
      else front[i]? := by
  have same : ∀ count, (write front start count source).size = front.size := by
    intro count
    unfold write
    induction count with
    | zero => rfl
    | succ n ih => simp [Nat.fold_succ, ih]
  induction count with
  | zero =>
    have : ¬ (start ≤ i ∧ i < start + 0 ∧ i < front.size) := by omega
    rw [if_neg this]
    rfl
  | succ n ih =>
    have step : write front start (n + 1) source =
        (write front start n source).setIfInBounds (start + n) (source n) := rfl
    rw [step, Array.getElem?_setIfInBounds, ih, same]
    by_cases h : start + n = i
    · subst h
      by_cases hm : start + n < front.size
      · rw [if_pos rfl, if_pos hm, if_pos (by omega)]
        simp
      · rw [if_pos rfl, if_neg hm, if_neg (by omega)]
        simp
        omega
    · rw [if_neg h]
      by_cases hr : start ≤ i ∧ i < start + n ∧ i < front.size
      · rw [if_pos hr, if_pos (by omega)]
      · rw [if_neg hr, if_neg (by omega)]

/-- Writes the cells `source 0` to `source (count - 1)` from the offset `start` on, as far as the
stretch reaches. -/
def overwrite (m : Cells) (start count : Nat) (source : Nat → Cell) : Cells :=
  match m with
  | ⟨size, front, rest⟩ =>
    let stop := min (start + count) size
    ⟨size, write (extend front rest stop) start (stop - start) source, rest⟩

@[simp] theorem size_overwrite (m : Cells) (start count : Nat) (source : Nat → Cell) :
    (m.overwrite start count source).size = m.size := rfl

/-- After writing, a cell in the range holds what was written there, and every other cell what it
held. -/
theorem peek_overwrite (m : Cells) (start count : Nat) (source : Nat → Cell) (i : Nat) :
    (m.overwrite start count source).peek i =
      if start ≤ i ∧ i < start + count ∧ i < m.size then source (i - start) else m.peek i := by
  rcases m with ⟨size, front, rest⟩
  by_cases inside : i < size
  · have long := le_size_extend front rest (min (start + count) size)
    have held := getD_extend front rest (min (start + count) size) i
    have wrote := getElem?_write (extend front rest (min (start + count) size)) start
      (min (start + count) size - start) source i
    change (if i < size then
        (write (extend front rest (min (start + count) size)) start
          (min (start + count) size - start) source).getD i rest else .byte 0) =
      if start ≤ i ∧ i < start + count ∧ i < size then source (i - start)
      else if i < size then front.getD i rest else .byte 0
    rw [if_pos inside, if_pos inside, Array.getD_eq_getD_getElem?, wrote]
    by_cases range : start ≤ i ∧ i < start + count
    · rw [if_pos (by omega), if_pos (by omega)]
      rfl
    · rw [if_neg (by omega), if_neg (by omega), ← Array.getD_eq_getD_getElem?, held]
  · change (if i < size then _ else Cell.byte 0) =
      if start ≤ i ∧ i < start + count ∧ i < size then _ else if i < size then _ else Cell.byte 0
    rw [if_neg inside, if_neg (by omega), if_neg inside]

theorem peek_overwrite_of_mem {m : Cells} {start count i : Nat} (source : Nat → Cell)
    (hl : start ≤ i) (hr : i < start + count) (hm : i < m.size) :
    (m.overwrite start count source).peek i = source (i - start) := by
  rw [peek_overwrite, if_pos ⟨hl, hr, hm⟩]

theorem peek_overwrite_of_notMem {m : Cells} {start count i : Nat} (source : Nat → Cell)
    (h : i < start ∨ start + count ≤ i) :
    (m.overwrite start count source).peek i = m.peek i := by
  rw [peek_overwrite, if_neg (by omega)]

/-- The word whose bytes, from the low end, are at an offset. -/
def word (m : Cells) (offset : Nat) : UInt64 :=
  wordOfBytes (fun i => (m.peek (offset + i)).toByte) 8 0

/-- Writes one byte over a range. -/
def fill (m : Cells) (start count : Nat) (value : UInt8) : Cells :=
  if start = 0 ∧ m.size ≤ count then filled m.size value
  else m.overwrite start count (fun _ => .byte value)

theorem peek_fill (m : Cells) (start count : Nat) (value : UInt8) (i : Nat) :
    (m.fill start count value).peek i =
      if start ≤ i ∧ i < start + count ∧ i < m.size then .byte value else m.peek i := by
  unfold fill
  split
  · next whole =>
    by_cases inside : i < m.size
    · rw [peek_filled value inside, if_pos (by omega)]
    · rw [if_neg (by omega)]
      exact (if_neg inside).trans (if_neg inside).symm
  · exact peek_overwrite m start count _ i

/-- Writes bytes from the offset `start` on. -/
def writeBytes (m : Cells) (start : Nat) (bytes : List UInt8) : Cells :=
  let bytes := bytes.toArray
  m.overwrite start bytes.size (fun i => .byte (bytes.getD i 0))

/-- Moves a range to the offset `target`, as if through a copy: the two ranges may overlap. -/
def move (m : Cells) (source target count : Nat) : Cells :=
  let copy := m.front.extract source (source + count)
  let rest := m.rest
  let reach := min count (m.size - source)
  m.overwrite target reach (fun i => copy.getD i rest)

/-- Writes `count` cells of another stretch, from its offset `origin` on, at the offset `start`.  Where
both hold the same cell anyway, nothing has to be written. -/
def copy (m : Cells) (start : Nat) (source : Cells) (origin count : Nat) : Cells :=
  let known := min count (source.front.size - origin)
  if source.rest = m.rest ∧ m.front.size ≤ start + known ∧ origin + count ≤ source.size then
    m.overwrite start known (fun i => source.peek (origin + i))
  else m.overwrite start count (fun i => source.peek (origin + i))

/-- A cell past the front holds what all such cells hold. -/
theorem peek_of_front_le {m : Cells} {i : Nat} (past : m.front.size ≤ i) (inside : i < m.size) :
    m.peek i = m.rest := by
  unfold peek
  rw [if_pos inside, Array.getD_eq_getD_getElem?, Array.getElem?_eq_none past]
  rfl

theorem peek_copy (m : Cells) (start : Nat) (source : Cells) (origin count i : Nat) :
    (m.copy start source origin count).peek i =
      if start ≤ i ∧ i < start + count ∧ i < m.size then source.peek (origin + (i - start))
      else m.peek i := by
  by_cases same : source.rest = m.rest ∧
      m.front.size ≤ start + min count (source.front.size - origin) ∧ origin + count ≤ source.size
  · have part : m.copy start source origin count = m.overwrite start
        (min count (source.front.size - origin)) (fun i => source.peek (origin + i)) := if_pos same
    obtain ⟨rest, short, inside⟩ := same
    rw [part, peek_overwrite]
    by_cases range : start ≤ i ∧ i < start + count ∧ i < m.size
    · by_cases known : i < start + min count (source.front.size - origin)
      · rw [if_pos (by omega), if_pos range]
      · rw [if_neg (by omega), if_pos range, peek_of_front_le (by omega) range.2.2,
          peek_of_front_le (by omega) (by omega), rest]
    · rw [if_neg (by omega), if_neg range]
  · have all : m.copy start source origin count =
        m.overwrite start count (fun i => source.peek (origin + i)) := if_neg same
    rw [all, peek_overwrite]

/-- The bytes of a range, as far as the stretch reaches. -/
def bytes (m : Cells) (start count : Nat) : List UInt8 :=
  (List.range (min count (m.size - start))).map fun i => (m.peek (start + i)).toByte

end Cells

end AlignedSlots
