import Mathlib
import AlignedSlots.Container.Buffer
import AlignedSlots.Container.ProbeTable
import AlignedSlots.Container.Sequence
import AlignedSlots.Container.StaticArray
import AlignedSlots.Memory.Arena
import AlignedSlots.Memory.Shelf
import AlignedSlots.Proofs.Log.Blind

/-!
# Operations that are blind to the log

Every operation of the allocators and of the containers is blind to the log.  The proofs follow the text of
the operations; nothing is asked of the state that an operation starts in, so that operations that fail are
covered like any other.
-/

namespace AlignedSlots

open Prog (Blind)

variable {ε : Type}

/-! ## Blocks -/

namespace Parcel

theorem blind_allocate (zeroed : Bool) (align size : Nat) :
    Host.Blind (allocate zeroed align size) := by
  unfold allocate
  refine .bind (Host.blind_trace _) fun _ => .ite (.crash_bind _ _) (.ite (.fail_bind _ _) ?_)
  refine .bind (.lift _) fun _ => .bind (.lift _) fun _ => ?_
  split
  · refine .bind (Host.blind_trace _) fun _ => .bind (Host.blind_request _) fun raw => ?_
    cases raw with
    | none => exact .fail _
    | some raw =>
      exact .bind (.lift _) fun _ => .bind (Host.blind_trace _) fun _ => .pure _
  · exact .fail _

theorem blind_release (b : Parcel) : Host.Blind (b.release : Prog ε Host Unit) :=
  Host.blind_free _

theorem blind_resize (block : Option Parcel) (align oldSize newSize : Nat) :
    Host.Blind (resize block align oldSize newSize) := by
  unfold resize
  refine .bind (Host.blind_trace _) fun _ => ?_
  cases block with
  | none => exact .ite (.pure _) (.bind (blind_allocate _ _ _) fun _ => .pure _)
  | some old =>
    refine .ite (.bind (blind_release old) fun _ => .pure _) (.ite (.pure _) ?_)
    exact .bind (blind_allocate _ _ _) fun _ => .bind (blind_release old) fun _ => .pure _

end Parcel

/-! ## Slots -/

namespace Slots

theorem blind_cleared (stride align capacity : Nat) :
    Host.Blind (cleared stride align capacity) := by
  unfold cleared
  split
  · exact .ite (.pure _) (.bind (Parcel.blind_allocate _ _ _) fun _ => .pure _)
  · exact .fail _

theorem blind_locate (index : Nat) : Hosted.Blind (locate index : Hosted ε Slots Nat) := by
  rintro ⟨s, heap⟩
  cases hoffset : s.offset index with
  | ok offset =>
    refine .of_eq (.ok offset (s, heap)) fun log => ?_
    simp only [Hosted.join, locate, hoffset]
    rfl
  | error f =>
    refine .of_eq (.error (.fault f) (s, heap)) fun log => ?_
    simp only [Hosted.join, locate, hoffset]
    rfl

theorem blind_reserve (requested : Nat) : Hosted.Blind (reserve requested) := by
  unfold reserve
  refine .bind Hosted.blind_object fun s => .ite ?_ ?_
  · exact .bind (Hosted.blind_trace _) fun _ => .pure _
  · refine .bind (.lift_failure _) fun _ => .bind (Hosted.blind_trace _) fun _ => ?_
    refine .bind (.lift _) fun _ => .bind (.lift _) fun _ => ?_
    exact .bind (Parcel.blind_resize _ _ _ _).onHost fun _ =>
      .bind (Hosted.blind_update _) fun _ => .pure _

theorem blind_initialise (α : Type) [Element α] [Initial α] (start count : Nat) :
    Hosted.Blind (initialise α start count : Hosted ε Slots Unit) := by
  induction count generalizing start with
  | zero => exact .pure _
  | succ count ih =>
    unfold initialise
    exact .bind (blind_locate start) fun _ => .bind (Hosted.blind_update _) fun _ => ih (start + 1)

theorem blind_release : Hosted.Blind (release : Hosted ε Slots Unit) := by
  unfold release
  refine .bind Hosted.blind_object fun s => ?_
  split
  · exact .bind (Parcel.blind_release _).onHost fun _ => Hosted.blind_update _
  · exact Hosted.blind_update _

end Slots

/-! ## Sequences -/

namespace Sequence

variable {α β ν : Type}

theorem blind_onSlots {m : Hosted Refusal Slots β} (h : Hosted.Blind m) :
    Hosted.Blind (onSlots m : Hosted ContainerError (Sequence α) β) := by
  rintro ⟨⟨slots, length⟩, heap⟩
  refine (h (slots, heap)).within (fun b t => .ok b (⟨t.1, length⟩, t.2))
    (fun e t => .error (e.map .ofAlloc) (⟨t.1, length⟩, t.2)) ?_ ?_
  all_goals
    intro _ t log log' hrun
    have hrun : m (slots, ⟨heap, log⟩) = _ := hrun
    show onSlots m (⟨slots, length⟩, ⟨heap, log⟩) = _
    simp only [onSlots, hrun]
    rfl

theorem blind_ask (f : Sequence α → Except (Failure ε) β) : Hosted.Blind (ask f) := by
  refine Hosted.blind_of_question f ?_ ?_
  all_goals
    intro v host _ hf
    simp only [ask, hf]

theorem blind_updateSlots (f : Slots → Slots) :
    Hosted.Blind (updateSlots f : Hosted ε (Sequence α) Unit) :=
  Hosted.blind_of_change (fun _ => ()) (fun v => { v with slots := f v.slots }) fun _ _ => rfl

theorem blind_setLength (length : Nat) :
    Hosted.Blind (setLength length : Hosted ε (Sequence α) Unit) :=
  Hosted.blind_of_change (fun _ => ()) (fun v => { v with length }) fun _ _ => rfl

theorem blind_drop : Hosted.Blind (drop : Hosted ContainerError (Sequence α) Unit) :=
  blind_onSlots Slots.blind_release

theorem blind_reserve (capacity : Nat) :
    Hosted.Blind (reserve capacity : Hosted ContainerError (Sequence α) Unit) := by
  unfold reserve
  exact .bind (blind_onSlots (Slots.blind_reserve capacity)) fun _ => .pure _

variable [Element α]

theorem blind_insert (index : Nat) (x : α) : Hosted.Blind (insert index x) := by
  unfold insert
  refine .bind (blind_ask _) fun length => ?_
  split
  · refine .bind (blind_reserve _) fun _ => .bind (Hosted.blind_trace _) fun _ => ?_
    have hstored : ∀ (i n : Nat), Hosted.Blind (do
        let offset ← locate i
        updateSlots fun s => s.store offset x
        setLength n : Hosted ContainerError (Sequence α) Unit) := fun i n =>
      .bind (blind_ask _) fun _ => .bind (blind_updateSlots _) fun _ => blind_setLength n
    refine .ite ?_ (hstored _ _)
    refine .bind (blind_ask _) fun _ => .bind (.lift _) fun _ => .bind (blind_ask _) fun _ => ?_
    exact .bind (.lift _) fun _ => .bind (blind_updateSlots _) fun _ => hstored _ _
  · exact .fail _

theorem blind_push (x : α) : Hosted.Blind (push x) :=
  .bind (blind_ask _) fun length => blind_insert length x

theorem blind_set (index : Nat) (x : α) : Hosted.Blind (set index x) := by
  unfold set
  refine .bind (blind_ask _) fun length => .ite (.fail_bind _ _) ?_
  exact .bind (blind_ask _) fun _ => blind_updateSlots _

theorem blind_pop : Hosted.Blind (pop : Hosted ContainerError (Sequence α) α) := by
  unfold pop
  refine .bind (blind_ask _) fun _ => .bind (blind_ask _) fun _ => .bind (.lift _) fun _ => ?_
  exact .bind (blind_setLength _) fun _ => .pure _

theorem blind_erase (index : Nat) :
    Hosted.Blind (erase index : Hosted ContainerError (Sequence α) Unit) := by
  unfold erase
  refine .bind (blind_ask _) fun length => .ite (.fail_bind _ _) ?_
  refine .bind (Hosted.blind_trace _) fun _ => .bind (.lift _) fun _ => .bind (.lift _) fun _ => ?_
  have hshortened : Hosted.Blind (do
      setLength (← Word.sub length 1) : Hosted ContainerError (Sequence α) Unit) :=
    .bind (.lift _) fun _ => blind_setLength _
  refine .ite ?_ hshortened
  refine .bind (.lift _) fun _ => .bind (blind_ask _) fun _ => .bind (blind_ask _) fun _ => ?_
  exact .bind (blind_updateSlots _) fun _ => hshortened

theorem blind_pushAll (xs : List α) : Hosted.Blind (pushAll xs) := by
  induction xs with
  | nil => exact .pure _
  | cons x xs ih => exact .bind (blind_push x) fun _ => ih

theorem blind_extend (xs : List α) : Hosted.Blind (extend xs) := by
  unfold extend
  refine .bind (blind_ask _) fun length => ?_
  split
  · exact .bind (blind_reserve _) fun _ => blind_pushAll xs
  · exact .fail _

theorem blind_setIndex (index : Nat) (x : α) : Hosted.Blind (setIndex index x) := by
  unfold setIndex
  exact .bind (blind_ask _) fun length => .ite (.crash_bind _ _) (blind_updateSlots _)

theorem blind_rearrange (f : List α → List α) :
    Hosted.Blind (rearrange f : Hosted ε (Sequence α) Unit) := by
  unfold rearrange
  exact .bind Hosted.blind_object fun _ => blind_updateSlots _

end Sequence

/-! ## Buffers -/

namespace Buffer

variable {α β ν : Type}

theorem blind_onSlots {m : Hosted Refusal Slots β} (h : Hosted.Blind m) :
    Hosted.Blind (onSlots m : Hosted ContainerError (Buffer α) β) := by
  rintro ⟨⟨slots, limit⟩, heap⟩
  refine (h (slots, heap)).within (fun b t => .ok b (⟨t.1, limit⟩, t.2))
    (fun e t => .error (e.map .ofAlloc) (⟨t.1, limit⟩, t.2)) ?_ ?_
  all_goals
    intro _ t log log' hrun
    have hrun : m (slots, ⟨heap, log⟩) = _ := hrun
    show onSlots m (⟨slots, limit⟩, ⟨heap, log⟩) = _
    simp only [onSlots, hrun]
    rfl

theorem blind_ask (f : Buffer α → Except (Failure ε) β) : Hosted.Blind (ask f) := by
  refine Hosted.blind_of_question f ?_ ?_
  all_goals
    intro b host _ hf
    simp only [ask, hf]

theorem blind_updateSlots (f : Slots → Slots) :
    Hosted.Blind (updateSlots f : Hosted ε (Buffer α) Unit) :=
  Hosted.blind_of_change (fun _ => ()) (fun b => { b with slots := f b.slots }) fun _ _ => rfl

theorem blind_setLimit (limit : Nat) :
    Hosted.Blind (setLimit limit : Hosted ε (Buffer α) Unit) :=
  Hosted.blind_of_change (fun _ => ()) (fun b => { b with limit := min limit b.slots.capacity })
    fun _ _ => rfl

theorem blind_clear : Hosted.Blind (clear : Hosted ε (Buffer α) Unit) :=
  Hosted.blind_of_change (fun _ => ()) (fun b => { b with limit := 0 }) fun _ _ => rfl

theorem blind_fillSlot (index : Nat) (value : UInt8) :
    Hosted.Blind (fillSlot index value : Hosted ContainerError (Buffer α) Unit) := by
  unfold fillSlot
  exact .bind (blind_ask _) fun _ => blind_updateSlots _

theorem blind_drop : Hosted.Blind (drop : Hosted ContainerError (Buffer α) Unit) :=
  blind_onSlots Slots.blind_release

variable [Element α]

theorem blind_replace (index : Nat) (x : α) : Hosted.Blind (replace index x) := by
  unfold replace
  refine .bind (blind_ask _) fun _ => .bind (blind_ask _) fun _ => ?_
  exact .bind (blind_updateSlots _) fun _ => .pure _

theorem blind_replaceLast (x : α) : Hosted.Blind (replaceLast x) := by
  unfold replaceLast
  refine .bind (blind_ask _) fun limit => ?_
  cases limit with
  | zero => exact .fail _
  | succ n => exact blind_replace n x

variable [Initial α]

theorem blind_reserve (capacity : Nat) :
    Hosted.Blind (reserve capacity : Hosted ContainerError (Buffer α) Unit) := by
  unfold reserve
  refine blind_onSlots (.bind (Slots.blind_reserve capacity) fun _ => ?_)
  exact .bind Hosted.blind_object fun _ => Slots.blind_initialise α _ _

theorem blind_expose : Hosted.Blind (expose : Hosted ContainerError (Buffer α) Nat) := by
  unfold expose
  refine .bind (blind_ask _) fun index => ?_
  split
  · next required _ =>
    refine .bind (blind_reserve required) fun _ => .bind ?_ fun _ => ?_
    · exact Hosted.blind_of_change (fun _ => ()) (fun b => { b with limit := required })
        fun _ _ => rfl
    · refine .bind (blind_ask _) fun _ => .bind (Hosted.blind_trace _) fun _ => blind_ask _
  · exact .fail _

theorem blind_emplace : Hosted.Blind (emplace : Hosted ContainerError (Buffer α) α) :=
  .bind blind_expose fun _ => blind_ask _

theorem blind_push (x : α) : Hosted.Blind (push x) := by
  unfold push
  refine .bind blind_expose fun _ => .bind (blind_updateSlots _) fun _ => ?_
  exact .bind (blind_ask _) fun _ => .lift _

end Buffer

/-! ## Static arrays -/

namespace StaticArray

variable {α : Type} {n : Nat}

theorem blind_drop : Hosted.Blind (drop : Hosted ContainerError (StaticArray α n) Unit) := by
  rintro ⟨⟨slots⟩, heap⟩
  refine (Slots.blind_release (slots, heap)).within (fun a t => .ok a (⟨t.1⟩, t.2))
    (fun e t => .error e (⟨t.1⟩, t.2)) ?_ ?_
  all_goals
    intro _ t log log' hrun
    have hrun : Slots.release (slots, ⟨heap, log⟩) = _ := hrun
    show drop (⟨slots⟩, ⟨heap, log⟩) = _
    simp only [drop, hrun]
    rfl

variable [Element α]

theorem blind_create (α : Type) [Element α] [Initial α] (n align : Nat) :
    Host.Blind (create α n align) := by
  unfold create
  refine .bind (.lift _) fun _ => .bind (.lift _) fun stride => ?_
  refine .bind ((Slots.blind_cleared _ _ _).mapError _) fun slots => ?_
  intro heap
  refine (Slots.blind_initialise α 0 n (slots, heap)).within (fun _ s => .ok ⟨s.1⟩ s.2)
    (fun e s => .error e s.2) ?_ ?_
  all_goals
    intro _ s log log' hrun
    have hrun : Slots.initialise α 0 n (slots, ⟨heap, log⟩) = _ := hrun
    simp only [hrun]
    rfl

theorem blind_replace (index : Nat) (x : α) :
    Hosted.Blind (replace index x : Hosted ContainerError (StaticArray α n) α) := by
  rintro ⟨⟨slots⟩, heap⟩
  by_cases hn : n ≤ index
  · exact .of_eq (.error (.error .illegalArgument) (⟨slots⟩, heap)) fun log => if_pos hn
  cases hoffset : slots.offset index with
  | ok offset =>
    refine .of_eq (.ok (slots.load offset) (⟨slots.store offset x⟩, heap)) fun log =>
      (if_neg hn).trans ?_
    simp only [hoffset]
    rfl
  | error f =>
    refine .of_eq (.error (.fault f) (⟨slots⟩, heap)) fun log => (if_neg hn).trans ?_
    simp only [hoffset]
    rfl

theorem blind_replaceLast (x : α) :
    Hosted.Blind (replaceLast x : Hosted ContainerError (StaticArray α n) α) :=
  .bind (.lift_failure _) fun index => blind_replace index x

end StaticArray

/-! ## Probe tables -/

namespace ProbeTable

variable {κ ν β : Type}

theorem blind_onSlots (m : Prog ε Slots β) :
    Hosted.Blind (onSlots m : Hosted ε (ProbeTable κ ν) β) := by
  rintro ⟨⟨slots, length, keying⟩, heap⟩
  cases hrun : m slots with
  | ok b slots' =>
    refine .of_eq (.ok b (⟨slots', length, keying⟩, heap)) fun log => ?_
    simp only [Hosted.join, onSlots, hrun]
    rfl
  | error e slots' =>
    refine .of_eq (.error e (⟨slots', length, keying⟩, heap)) fun log => ?_
    simp only [Hosted.join, onSlots, hrun]
    rfl

theorem blind_ask (f : ProbeTable κ ν → Except (Failure ε) β) : Hosted.Blind (ask f) := by
  refine Hosted.blind_of_question f ?_ ?_
  all_goals
    intro t host _ hf
    simp only [ask, hf]

theorem blind_setLength (length : Nat) :
    Hosted.Blind (setLength length : Hosted ε (ProbeTable κ ν) Unit) :=
  Hosted.blind_of_change (fun _ => ()) (fun t => { t with length }) fun _ _ => rfl

theorem blind_drop : Hosted.Blind (drop : Hosted ContainerError (ProbeTable κ ν) Unit) := by
  rintro ⟨⟨slots, length, keying⟩, heap⟩
  refine (Slots.blind_release (slots, heap)).within (fun a t => .ok a (⟨t.1, length, keying⟩, t.2))
    (fun e t => .error e (⟨t.1, length, keying⟩, t.2)) ?_ ?_
  all_goals
    intro _ t log log' hrun
    have hrun : Slots.release (slots, ⟨heap, log⟩) = _ := hrun
    show drop (⟨slots, length, keying⟩, ⟨heap, log⟩) = _
    simp only [drop, hrun]
    rfl

variable [Element κ] [Element ν]

theorem blind_create (keying : Keying κ) : Host.Blind (create keying ν) := by
  unfold create
  exact .bind ((Slots.blind_cleared _ _ _).mapError _) fun _ => .pure _

theorem blind_grow : Hosted.Blind (grow : Hosted ContainerError (ProbeTable κ ν) Unit) := by
  unfold grow
  refine .bind Hosted.blind_object fun t => ?_
  split
  · refine .ite (.crash_bind _ _) (.bind (Hosted.blind_trace _) fun _ => ?_)
    refine .bind ((Slots.blind_cleared _ _ _).mapError _).onHost fun slots => .bind ?_ fun slots => ?_
    · cases hrehash : rehash (ε := ContainerError) t.keying ν t.slots (List.range t.capacity) slots with
      | ok _ new => exact fun s => .of_eq (.ok new s) fun _ => rfl
      | error e _ => exact fun s => .of_eq (.error e s) fun _ => rfl
    · refine .bind (Hosted.blind_of_change (fun t => t.slots) (fun t => { t with slots })
        fun _ _ => rfl) fun old => ?_
      split
      · exact (Parcel.blind_release _).onHost
      · exact .pure _
  · exact .crash _

theorem blind_put (key : κ) (value : ν) : Hosted.Blind (put key value) := by
  unfold put
  refine .bind (blind_ask _) fun full => ?_
  have hplaced : Hosted.Blind (do
      let hash ← ask fun t => Failure.ofChecked (t.hashOf key)
      let keying ← ask fun t => .ok t.keying
      let replaced ← onSlots (place keying ⟨hash, key, value⟩)
      if replaced.isNone then
        let length ← ask fun t => .ok t.length
        setLength (← Word.add length 1)
      return replaced : Hosted ContainerError (ProbeTable κ ν) (Option ν)) := by
    refine .bind (blind_ask _) fun _ => .bind (blind_ask _) fun _ => ?_
    refine .bind (blind_onSlots _) fun replaced => .ite ?_ (.pure _)
    refine .bind (blind_ask _) fun _ => .bind (.lift _) fun _ => ?_
    exact .bind (blind_setLength _) fun _ => .pure _
  exact .ite (.bind blind_grow fun _ => hplaced) hplaced

theorem blind_erase (key : κ) :
    Hosted.Blind (erase key : Hosted ContainerError (ProbeTable κ ν) (Option ν)) := by
  unfold erase
  refine .bind (blind_ask _) fun found => ?_
  cases found with
  | none => exact .pure _
  | some index =>
    refine .bind (blind_onSlots _) fun _ => .bind (blind_ask _) fun _ => .bind (.lift _) fun _ => ?_
    refine .bind (blind_setLength _) fun _ => .bind (Hosted.blind_trace _) fun _ => ?_
    exact .bind (blind_ask _) fun _ => .bind (blind_onSlots _) fun _ => .pure _

theorem blind_update (key : κ) (value : Option ν) : Hosted.Blind (update key value) := by
  cases value with
  | none => exact blind_erase key
  | some value => exact blind_put key value

end ProbeTable

/-! ## Arenas -/

namespace Arena

theorem blind_create (size : Nat) : Host.Blind (create size) :=
  .bind (Parcel.blind_allocate _ _ _) fun _ => .pure _

theorem blind_setOffset (offset : Nat) : Hosted.Blind (setOffset offset : Hosted ε Arena Unit) :=
  Hosted.blind_of_change (fun _ => ()) (fun a => { a with offset }) fun _ _ => rfl

theorem blind_currentOffset : Hosted.Blind (currentOffset : Hosted ε Arena Nat) :=
  Hosted.blind_of_change (fun a => a.offset) id fun _ _ => rfl

theorem blind_updateBlock (f : Parcel → Parcel) :
    Hosted.Blind (updateBlock f : Hosted ε Arena Unit) :=
  Hosted.blind_of_change (fun _ => ()) (fun a => { a with block := f a.block }) fun _ _ => rfl

theorem blind_take (size : Nat) : Hosted.Blind (take size : Hosted ε Arena (Option Nat)) := by
  unfold take
  refine .ite (.pure _) (.bind (.lift _) fun rounded => ?_)
  cases rounded with
  | none => exact .pure _
  | some rounded =>
    refine .bind blind_currentOffset fun offset => ?_
    split
    · refine .bind (Hosted.blind_of_change (fun a => a.size) id fun _ _ => rfl) fun _ => .ite ?_ ?_
      · exact .bind (Hosted.blind_trace _) fun _ => .pure _
      · exact .bind (blind_setOffset _) fun _ => .pure _
    · exact .pure _

theorem blind_takeZeroed (size : Nat) :
    Hosted.Blind (takeZeroed size : Hosted ε Arena (Option Nat)) := by
  unfold takeZeroed
  refine .bind blind_currentOffset fun start => .bind (blind_take size) fun piece => ?_
  cases piece with
  | none => exact .pure _
  | some piece =>
    refine .bind blind_currentOffset fun stop => .bind (.lift _) fun _ => ?_
    exact .bind (blind_updateBlock _) fun _ => .pure _

theorem blind_drop : Hosted.Blind (drop : Hosted ε Arena Unit) :=
  .bind Hosted.blind_object fun a => (Parcel.blind_release a.block).onHost

end Arena

/-! ## Shelves -/

namespace ShelfStep

theorem blind_run (name : String) (step : ShelfStep) : Hosted.Blind (step.run name) := by
  rintro ⟨shelf, heap⟩
  cases step with
  | allocate zeroed align size =>
    refine (Parcel.blind_allocate zeroed align size heap).within
      (fun block heap => .ok (some block) (shelf.put ⟨name, block, size⟩, heap))
      (fun e heap => .error e (shelf, heap)) ?_ ?_
    all_goals
      intro _ heap' log log' hrun
      simp only [Hosted.join, run, hrun]
      rfl
  | resizeNone align oldSize newSize =>
    refine (Parcel.blind_resize none align oldSize newSize heap).within
      (fun block heap => .ok block
        (block.elim shelf fun block => shelf.put ⟨name, block, newSize⟩, heap))
      (fun e heap => .error e (shelf, heap)) ?_ ?_
    · intro block heap' log log' hrun
      cases block <;> simp only [Hosted.join, run, hrun] <;> rfl
    · intro e heap' log log' hrun
      simp only [Hosted.join, run, hrun]
      rfl
  | resize align oldSize newSize =>
    cases hfind : shelf.find? name with
    | none =>
      refine .of_eq (.ok none (shelf, heap)) fun log => ?_
      simp only [Hosted.join, run, hfind]
      rfl
    | some item =>
      refine (Parcel.blind_resize (some item.block) align oldSize newSize heap).within
        (fun block heap => .ok block (block.elim (shelf.without name) fun block =>
          shelf.put ⟨name, block, if newSize ≤ oldSize then item.size else newSize⟩, heap))
        (fun e heap => .error e (shelf, heap)) ?_ ?_
      · intro block heap' log log' hrun
        cases block <;> simp only [Hosted.join, run, hfind, hrun] <;> rfl
      · intro e heap' log log' hrun
        simp only [Hosted.join, run, hfind, hrun]
        rfl
  | release =>
    cases hfind : shelf.find? name with
    | none =>
      refine .of_eq (.ok none (shelf, heap)) fun log => ?_
      simp only [Hosted.join, run, hfind]
      rfl
    | some item =>
      refine (Parcel.blind_release item.block heap).within
        (fun _ heap => .ok none (shelf.without name, heap))
        (fun e heap => .error e (shelf, heap)) ?_ ?_
      all_goals
        intro _ heap' log log' hrun
        simp only [Hosted.join, run, hfind, hrun]
        rfl
  | write offset bytes =>
    cases hfind : shelf.find? name with
    | none =>
      refine .of_eq (.ok none (shelf, heap)) fun log => ?_
      simp only [Hosted.join, run, hfind]
      rfl
    | some item =>
      refine .of_eq (.ok (some (item.block.writeBytes offset bytes))
        (shelf.put { item with block := item.block.writeBytes offset bytes }, heap)) fun log => ?_
      simp only [Hosted.join, run, hfind]
      rfl

theorem blind_releaseAll (names : List String) : Hosted.Blind (releaseAll names) := by
  induction names with
  | nil => exact .pure _
  | cons name rest ih => exact .bind (blind_run name .release) fun _ => ih

end ShelfStep

end AlignedSlots
