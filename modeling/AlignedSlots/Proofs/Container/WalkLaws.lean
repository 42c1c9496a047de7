import Mathlib
import AlignedSlots.Container.Walk
import AlignedSlots.Proofs.Container.SlotStorage

/-!
# Walks

A walk that only reads, and a search, fail as their visitor does and in no other way.

A walk in place over slots is the same walk over the row of elements that they hold: `Walk.visitRow` says
it on a function of the index, and `Walk.visitList` on the list of the elements that are visited one after
the other.  What a visitor leaves in an element is kept, whether the visitor fails there or not, and no
other element changes.
-/

namespace AlignedSlots

namespace Walk

variable {ε ν α : Type}

theorem lt_of_mem_forward {n i : Nat} (h : i ∈ forward n) : i < n := List.mem_range.mp h

theorem lt_of_mem_backward {n i : Nat} (h : i ∈ backward n) : i < n :=
  List.mem_range.mp (List.mem_reverse.mp h)

/-! ## Walks that only read -/

section Reading

variable {β : Type} {read : Nat → Except Fault α} {indices : List Nat}

/-- The visitor fails so on some element. -/
def Raises (visitor : Nat → α → Prog ε ν β) (e : Failure ε) : Prop :=
  ∃ i x, (visitor i x).Raises e

/-- A walk over elements that can be read fails only as its visitor does. -/
theorem visit_ends (hread : ∀ i ∈ indices, ∃ x, read i = .ok x) (visitor : Nat → α → Prog ε ν Unit)
    (n : ν) :
    (visit read visitor indices).Ends n (fun _ _ => True) fun e _ => Raises visitor e := by
  induction indices generalizing n with
  | nil => exact Prog.Ends.pure trivial
  | cons i rest ih =>
    obtain ⟨x, hx⟩ := hread i List.mem_cons_self
    unfold visit
    apply Prog.Ends.bind_ok (Prog.lift_ok hx)
    apply (Prog.ends_raises (visitor i x) n).bind
    · intro _ n' _
      exact ih (fun j hj => hread j (List.mem_cons_of_mem i hj)) n'
    · exact fun e _ hraises => ⟨i, x, hraises⟩

/-- So does a search. -/
theorem find_ends (hread : ∀ i ∈ indices, ∃ x, read i = .ok x) (property : Nat → α → Prog ε ν Bool)
    (otherwise : Nat) (n : ν) :
    (find read property otherwise indices).Ends n (fun _ _ => True)
      fun e _ => Raises property e := by
  induction indices generalizing n with
  | nil => exact Prog.Ends.pure trivial
  | cons i rest ih =>
    obtain ⟨x, hx⟩ := hread i List.mem_cons_self
    unfold find
    apply Prog.Ends.bind_ok (Prog.lift_ok hx)
    apply (Prog.ends_raises (property i x) n).bind
    · intro here n' _
      cases here with
      | true => exact Prog.Ends.pure trivial
      | false => exact ih (fun j hj => hread j (List.mem_cons_of_mem i hj)) n'
    · exact fun e _ hraises => ⟨i, x, hraises⟩

end Reading

/-! ## Walks over a row -/

/-- Visits one element of a row. -/
def visitEntry (i : Nat) (visitor : Prog ε (α × ν) Unit) : Prog ε ((Nat → α) × ν) Unit :=
  fun (row, n) =>
    match visitor (row i, n) with
    | .ok () (x, n) => .ok () (Function.update row i x, n)
    | .error e (x, n) => .error e (Function.update row i x, n)

/-- Visits the elements of a row at the given indices. -/
def visitRow (visitor : Nat → Prog ε (α × ν) Unit) : List Nat → Prog ε ((Nat → α) × ν) Unit
  | [] => pure ()
  | i :: rest => do
    visitEntry i (visitor i)
    visitRow visitor rest

/-- Visits the elements of a list, whose first one has the given index, and answers with the list that
the visitor leaves. -/
def visitList (visitor : Nat → Prog ε (α × ν) Unit) :
    Nat → List α → ν → EStateM.Result (Failure ε) (List α × ν) Unit
  | _, [], n => .ok () ([], n)
  | i, x :: rest, n =>
    match visitor i (x, n) with
    | .error e (y, n) => .error e (y :: rest, n)
    | .ok () (y, n) =>
      match visitList visitor (i + 1) rest n with
      | .error e (ys, n) => .error e (y :: ys, n)
      | .ok () (ys, n) => .ok () (y :: ys, n)

variable {visitor : Nat → Prog ε (α × ν) Unit} {row : Nat → α} {n : ν} {i : Nat}

/-- The list that a walk leaves is as long as the one it is given. -/
theorem length_visitList (visitor : Nat → Prog ε (α × ν) Unit) (i : Nat) (l : List α) (n : ν) :
    (∀ l' n', visitList visitor i l n = .ok () (l', n') → l'.length = l.length) ∧
      ∀ e l' n', visitList visitor i l n = .error e (l', n') → l'.length = l.length := by
  induction l generalizing i n with
  | nil =>
    refine ⟨fun l' n' h => ?_, nofun⟩
    cases h
    rfl
  | cons x rest ih =>
    unfold visitList
    cases visitor i (x, n) with
    | error e s =>
      refine ⟨nofun, fun e' l' n' h => ?_⟩
      cases h
      rfl
    | ok _ s =>
      obtain ⟨hok, herror⟩ := ih (i + 1) s.2
      simp only
      cases hrest : visitList visitor (i + 1) rest s.2 with
      | ok _ t =>
        refine ⟨fun l' n' h => ?_, nofun⟩
        cases h
        exact congrArg Nat.succ (hok _ _ hrest)
      | error e t =>
        refine ⟨nofun, fun e' l' n' h => ?_⟩
        cases h
        exact congrArg Nat.succ (herror _ _ _ hrest)

/-- The visitor fails so on some element in place. -/
def RaisesInPlace (visitor : Nat → Prog ε (α × ν) Unit) (e : Failure ε) : Prop :=
  ∃ i, (visitor i).Raises e

/-- A walk over a list fails only as its visitor does. -/
theorem raises_of_visitList {e : Failure ε} {l : List α} {s : List α × ν}
    (h : visitList visitor i l n = .error e s) : RaisesInPlace visitor e := by
  induction l generalizing i n s with
  | nil => cases h
  | cons x rest ih =>
    unfold visitList at h
    cases hvisit : visitor i (x, n) with
    | error e' t =>
      rw [hvisit] at h
      cases h
      exact ⟨i, (x, n), t, hvisit⟩
    | ok _ t =>
      rw [hvisit] at h
      cases hrest : visitList visitor (i + 1) rest t.2 with
      | ok _ _ =>
        simp only [hrest] at h
        cases h
      | error e' t' =>
        simp only [hrest] at h
        cases h
        exact ih hrest

theorem visitEntry_ends (visitor : Prog ε (α × ν) Unit) (row : Nat → α) (n : ν) (i : Nat) :
    (visitEntry i visitor).Ends (row, n)
      (fun _ s => ∃ x, visitor (row i, n) = .ok () (x, s.2) ∧ s.1 = Function.update row i x)
      (fun e s => ∃ x, visitor (row i, n) = .error e (x, s.2) ∧ s.1 = Function.update row i x) := by
  cases hvisit : visitor (row i, n) with
  | ok _ s =>
    have hrun : visitEntry i visitor (row, n) = .ok () (Function.update row i s.1, s.2) := by
      simp only [visitEntry, hvisit]
    exact Prog.Ends.of_ok hrun ⟨s.1, rfl, rfl⟩
  | error e s =>
    have hrun : visitEntry i visitor (row, n) = .error e (Function.update row i s.1, s.2) := by
      simp only [visitEntry, hvisit]
    exact Prog.Ends.of_error hrun ⟨s.1, rfl, rfl⟩

/-- A walk over a row fails only as its visitor does. -/
theorem visitRow_raises (visitor : Nat → Prog ε (α × ν) Unit) (indices : List Nat) (row : Nat → α)
    (n : ν) :
    (visitRow visitor indices).Ends (row, n) (fun _ _ => True)
      fun e _ => RaisesInPlace visitor e := by
  induction indices generalizing row n with
  | nil => exact Prog.Ends.pure trivial
  | cons i rest ih =>
    unfold visitRow
    apply (visitEntry_ends (visitor i) row n i).bind
    · rintro _ ⟨row', n'⟩ _
      exact ih row' n'
    · rintro e s ⟨x, hvisit, _⟩
      exact ⟨i, (row i, n), (x, s.2), hvisit⟩

/-- **No other element** is changed by a walk. -/
theorem visitRow_frame (visitor : Nat → Prog ε (α × ν) Unit) (indices : List Nat) (row : Nat → α)
    (n : ν) :
    (visitRow visitor indices).Ends (row, n) (fun _ s => ∀ j ∉ indices, s.1 j = row j)
      (fun _ s => ∀ j ∉ indices, s.1 j = row j) := by
  induction indices generalizing row n with
  | nil => exact Prog.Ends.pure fun _ _ => rfl
  | cons i rest ih =>
    have hkept : ∀ x : α, ∀ j ∉ i :: rest, Function.update row i x j = row j := by
      intro x j hj
      exact Function.update_of_ne (List.ne_of_not_mem_cons hj) x row
    unfold visitRow
    apply (visitEntry_ends (visitor i) row n i).bind
    · rintro _ ⟨row', n'⟩ ⟨x, _, rfl⟩
      apply (ih (Function.update row i x) n').mono
      · intro _ s hs j hj
        rw [hs j (List.not_mem_of_not_mem_cons hj), hkept x j hj]
      · intro _ s hs j hj
        rw [hs j (List.not_mem_of_not_mem_cons hj), hkept x j hj]
    · rintro e s ⟨x, _, hs⟩ j hj
      rw [hs, hkept x j hj]

/-- **A walk over a range** of a row is the walk over the list of its elements. -/
theorem visitRow_range (visitor : Nat → Prog ε (α × ν) Unit) (i count : Nat) (row : Nat → α) (n : ν) :
    (visitRow visitor (List.range' i count)).Ends (row, n)
      (fun _ s => visitList visitor i ((List.range' i count).map row) n =
        .ok () ((List.range' i count).map s.1, s.2))
      (fun e s => visitList visitor i ((List.range' i count).map row) n =
        .error e ((List.range' i count).map s.1, s.2)) := by
  induction count generalizing i row n with
  | zero => exact Prog.Ends.pure rfl
  | succ count ih =>
    have hrest : ∀ x : α, (List.range' (i + 1) count).map (Function.update row i x) =
        (List.range' (i + 1) count).map row := by
      intro x
      apply List.map_congr_left
      intro j hj
      have hlt : i < j := (List.mem_range'_1.mp hj).1
      exact Function.update_of_ne (Nat.ne_of_gt hlt) x row
    have hout : i ∉ List.range' (i + 1) count := by
      intro hmem
      exact Nat.lt_irrefl i (List.mem_range'_1.mp hmem).1
    rw [List.range'_succ]
    unfold visitRow
    simp only [List.map_cons, visitList]
    apply (visitEntry_ends (visitor i) row n i).bind
    · rintro _ ⟨row', n'⟩ ⟨x, hvisit, rfl⟩
      have hwalk := ih (i + 1) (Function.update row i x) n'
      have hframe := visitRow_frame visitor (List.range' (i + 1) count) (Function.update row i x) n'
      rw [hrest] at hwalk
      apply (hwalk.and hframe).mono
      · rintro _ ⟨row'', n''⟩ ⟨hlist, hkept⟩
        have hself : row'' i = x := (hkept i hout).trans (Function.update_self i x row)
        simp only [hvisit, hlist, hself]
      · rintro e ⟨row'', n''⟩ ⟨hlist, hkept⟩
        have hself : row'' i = x := (hkept i hout).trans (Function.update_self i x row)
        simp only [hvisit, hlist, hself]
    · rintro e ⟨row', n'⟩ ⟨x, hvisit, rfl⟩
      simp only [hvisit, hrest, Function.update_self]

/-! ## Walks over slots -/

variable [Element α] {s : Slots} {offset : Slots → Nat → Except Fault Nat}

/-- Slots in the same place, with the elements of a row. -/
structure Carries (s s' : Slots) (row : Nat → α) : Prop where
  place : Slots.SamePlace s s'
  ready : s'.Ready
  item_eq : s'.item = row

/-- Element `i` starts at its offset, for all indices and whatever the elements are. -/
def Locates (α : Type) [Element α] (offset : Slots → Nat → Except Fault Nat) (s : Slots)
    (indices : List Nat) : Prop :=
  ∀ s', Slots.SamePlace s s' → s'.Ready → ∀ i ∈ indices, ∃ o, offset s' i = .ok o ∧ s'.Reaches α i o

theorem visitInPlace_ends {o : Nat} (visitor : Prog ε (α × ν) Unit) (h : s.Ready)
    (hoffset : offset s i = .ok o) (hreaches : s.Reaches α i o) (n : ν) :
    (visitInPlace (fun slots => offset slots i) visitor).Ends (s, n)
      (fun _ s' => ∃ row, visitEntry i visitor (s.item, n) = .ok () (row, s'.2) ∧ Carries s s'.1 row)
      (fun e s' => ∃ row, visitEntry i visitor (s.item, n) = .error e (row, s'.2) ∧
        Carries s s'.1 row) := by
  have hcarries : ∀ x : α, Carries s (s.store o x) (Function.update s.item i x) := fun x =>
    ⟨Slots.samePlace_store s o x, h.store o x, hreaches.item_store x⟩
  cases hvisit : visitor (s.item i, n) with
  | ok _ t =>
    have hrun : visitInPlace (fun slots => offset slots i) visitor (s, n) =
        .ok () (s.store o t.1, t.2) := by
      simp only [visitInPlace, hoffset, hreaches.load_eq, hvisit]
    refine Prog.Ends.of_ok hrun ⟨_, ?_, hcarries t.1⟩
    simp only [visitEntry, hvisit]
  | error e t =>
    have hrun : visitInPlace (fun slots => offset slots i) visitor (s, n) =
        .error e (s.store o t.1, t.2) := by
      simp only [visitInPlace, hoffset, hreaches.load_eq, hvisit]
    refine Prog.Ends.of_error hrun ⟨_, ?_, hcarries t.1⟩
    simp only [visitEntry, hvisit]

/-- **A walk over slots** is the walk over the row of their elements. -/
theorem visitAllInPlace_ends (offset : Slots → Nat → Except Fault Nat)
    (visitor : Nat → Prog ε (α × ν) Unit) {indices : List Nat} (h : s.Ready)
    (hoffset : Locates α offset s indices) (n : ν) :
    (visitAllInPlace offset visitor indices).Ends (s, n)
      (fun _ s' => ∃ row, visitRow visitor indices (s.item, n) = .ok () (row, s'.2) ∧
        Carries s s'.1 row)
      (fun e s' => ∃ row, visitRow visitor indices (s.item, n) = .error e (row, s'.2) ∧
        Carries s s'.1 row) := by
  induction indices generalizing s n with
  | nil => exact Prog.Ends.pure ⟨_, rfl, .refl s, h, rfl⟩
  | cons i rest ih =>
    obtain ⟨o, ho, hreaches⟩ := hoffset s (.refl s) h i List.mem_cons_self
    unfold visitAllInPlace visitRow
    apply (visitInPlace_ends (visitor i) h ho hreaches n).bind
    · rintro _ ⟨s₁, n₁⟩ ⟨row₁, hfirst, hplace, hready, rfl⟩
      have hrest := ih (s := s₁) hready (fun s' hplace' hready' j hj =>
        hoffset s' (hplace.trans hplace') hready' j (List.mem_cons_of_mem _ hj)) n₁
      apply hrest.mono
      · rintro _ s₂ ⟨row₂, hsecond, hcarries⟩
        refine ⟨row₂, ?_, hplace.trans hcarries.place, hcarries.ready, hcarries.item_eq⟩
        rw [Prog.bind_ok hfirst]
        exact hsecond
      · rintro e s₂ ⟨row₂, hsecond, hcarries⟩
        refine ⟨row₂, ?_, hplace.trans hcarries.place, hcarries.ready, hcarries.item_eq⟩
        rw [Prog.bind_ok hfirst]
        exact hsecond
    · rintro e ⟨s₁, n₁⟩ ⟨row₁, hfirst, hcarries⟩
      exact ⟨row₁, Prog.bind_error hfirst, hcarries⟩

/-- Slots that there are have their elements at their offsets. -/
theorem locates_offset [LawfulElement α] {indices : List Nat} (hsize : Element.size α ≤ s.stride)
    (hindices : ∀ i ∈ indices, i < s.capacity) : Locates α Slots.offset s indices := by
  intro s' hplace hready i hi
  have hcapacity : i < s'.capacity := hplace.capacity_eq ▸ hindices i hi
  exact ⟨_, hready.offset_eq hcapacity, hready.reaches hcapacity (hplace.stride_eq ▸ hsize)⟩

/-- A walk over slots that there are, at their offsets, is one over the row of their elements. -/
theorem visitSlots_ends [LawfulElement α] (visitor : Nat → Prog ε (α × ν) Unit)
    {indices : List Nat} (h : s.Ready) (hsize : Element.size α ≤ s.stride)
    (hindices : ∀ i ∈ indices, i < s.capacity) (n : ν) :
    (visitAllInPlace Slots.offset visitor indices).Ends (s, n)
      (fun _ s' => ∃ row, visitRow visitor indices (s.item, n) = .ok () (row, s'.2) ∧
        Carries s s'.1 row)
      (fun e s' => ∃ row, visitRow visitor indices (s.item, n) = .error e (row, s'.2) ∧
        Carries s s'.1 row) :=
  visitAllInPlace_ends Slots.offset visitor h (locates_offset hsize hindices) n

end Walk

end AlignedSlots
