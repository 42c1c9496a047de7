import Mathlib
import AlignedSlots.Proofs.Container.ArrayCalls

/-!
# Static arrays as functions

The elements of a static array are a function on its indices, and every call of the array does to it what
`ArrayCall.onRow` says: it reads the function, updates it at one index, or walks over it.  There are no
slots and no bytes in this, and no host.  `StaticArray.respond_mirrors` is that an array does the same,
with the same answers.

A function that was updated many times is at each index what was written there last.  `ArrayCall.writes`
are the writes of one call, of a walk in place one for each element that was visited.
-/

namespace AlignedSlots

/-- What a call of an array answers. -/
inductive ArrayAnswer (α : Type) where
  | done
  | element (x : α)
  | elements (l : List α)
  deriving DecidableEq

namespace ArrayCall

variable {ε α β ν : Type} {n : Nat}

/-- Runs a call, and answers all that it answers. -/
def respond [Element α] :
    ArrayCall α ν → Hosted ContainerError (StaticArray α n × ν) (ArrayAnswer α)
  | get i => .element <$> Hosted.asking fun a => a.get i
  | last => .element <$> Hosted.asking StaticArray.last
  | replace i x => .element <$> Hosted.onObject (StaticArray.replace i x)
  | replaceLast x => .element <$> Hosted.onObject (StaticArray.replaceLast x)
  | each visitor => (fun _ => .done) <$> Hosted.reading fun a => a.each visitor
  | eachReverse visitor => (fun _ => .done) <$> Hosted.reading fun a => a.eachReverse visitor
  | eachInPlace visitor => (fun _ => .done) <$> Hosted.offHost (StaticArray.eachInPlace visitor)
  | eachReverseInPlace visitor =>
    (fun _ => .done) <$> Hosted.offHost (StaticArray.eachReverseInPlace visitor)
  | list => .elements <$> Hosted.asking fun a => Failure.ofChecked a.toList

/-! ## Calls on functions -/

/-- Asks something of the elements. -/
def askRow (f : (Fin n → α) → Except (Failure ε) β) : Prog ε ((Fin n → α) × ν) β := fun (row, m) =>
  match f row with
  | .ok b => .ok b (row, m)
  | .error e => .error e (row, m)

/-- A program of the visitors that knows the elements. -/
def readRow (f : (Fin n → α) → Prog ε ν β) : Prog ε ((Fin n → α) × ν) β := fun (row, m) =>
  match f row m with
  | .ok b m => .ok b (row, m)
  | .error e m => .error e (row, m)

/-- The element at an index, if it is one. -/
def entry (i : Nat) (row : Fin n → α) : Except (Failure ContainerError) α :=
  if h : i < n then .ok (row ⟨i, h⟩) else .error (.error .illegalArgument)

/-- Puts an element at an index, and answers the one that was there. -/
def putEntry (i : Nat) (x : α) : Prog ContainerError ((Fin n → α) × ν) α := fun (row, m) =>
  if h : i < n then .ok (row ⟨i, h⟩) (Function.update row ⟨i, h⟩ x, m)
  else .error (.error .illegalArgument) (row, m)

/-- Hands an element to a visitor and keeps what the visitor leaves, also if it fails. -/
def visitEntry (visitor : Nat → Prog ε (α × ν) Unit) (i : Fin n) :
    Prog ε ((Fin n → α) × ν) Unit := fun (row, m) =>
  match visitor i (row i, m) with
  | .ok () (x, m) => .ok () (Function.update row i x, m)
  | .error e (x, m) => .error e (Function.update row i x, m)

/-- What a call does to a function on the indices and to the state of the visitors. -/
def onRow (n : Nat) : ArrayCall α ν → Prog ContainerError ((Fin n → α) × ν) (ArrayAnswer α)
  | get i => .element <$> askRow (entry i)
  | last => .element <$> askRow (entry (n - 1))
  | replace i x => .element <$> putEntry i x
  | replaceLast x => .element <$> putEntry (n - 1) x
  | each visitor => (fun _ => .done) <$>
      readRow fun row => forM (List.finRange n) fun i : Fin n => visitor i (row i)
  | eachReverse visitor => (fun _ => .done) <$>
      readRow fun row => forM (List.finRange n).reverse fun i : Fin n => visitor i (row i)
  | eachInPlace visitor => (fun _ => .done) <$> forM (List.finRange n) (visitEntry visitor)
  | eachReverseInPlace visitor =>
    (fun _ => .done) <$> forM (List.finRange n).reverse (visitEntry visitor)
  | list => .elements <$> askRow fun row => .ok (List.ofFn row)

/-! ## What was written last -/

/-- The writes of a walk in place: what the visitor has left in each element that it was handed. -/
def writesOf (visitor : Nat → Prog ε (α × ν) Unit) :
    List (Fin n) → (Fin n → α) × ν → List (Fin n × α)
  | [], _ => []
  | i :: rest, (row, m) =>
    match visitor i (row i, m) with
    | .ok () (x, m) => (i, x) :: writesOf visitor rest (Function.update row i x, m)
    | .error _ (x, _) => [(i, x)]

/-- The write of a replacement, unless there is no such index. -/
def writeAt (i : Nat) (x : α) : List (Fin n × α) := if h : i < n then [(⟨i, h⟩, x)] else []

/-- The writes of a call, in their order. -/
def writes : ArrayCall α ν → (Fin n → α) × ν → List (Fin n × α)
  | replace i x, _ => writeAt i x
  | replaceLast x, _ => writeAt (n - 1) x
  | eachInPlace visitor, s => writesOf visitor (List.finRange n) s
  | eachReverseInPlace visitor, s => writesOf visitor (List.finRange n).reverse s
  | _, _ => []

/-- All writes of a run of calls, in their order. -/
def written : List (ArrayCall α ν) → (Fin n → α) × ν → List (Fin n × α)
  | [], _ => []
  | c :: rest, s => c.writes s ++ written rest ((c.onRow n).after s)

/-- The value that was written last at an index. -/
def lastValue (i : Fin n) : List (Fin n × α) → Option α
  | [] => none
  | p :: rest => (lastValue i rest).or (if p.1 = i then some p.2 else none)

theorem lastValue_append (i : Fin n) (l l' : List (Fin n × α)) :
    lastValue i (l ++ l') = (lastValue i l').or (lastValue i l) := by
  induction l with
  | nil => simp [lastValue]
  | cons p rest ih => simp [lastValue, ih, Option.or_assoc]

/-- One more write before all others counts only where there is no other. -/
theorem getD_lastValue_cons (i j : Fin n) (x : α) (l : List (Fin n × α)) (row : Fin n → α) :
    (lastValue i ((j, x) :: l)).getD (row i) =
      (lastValue i l).getD (Function.update row j x i) := by
  show ((lastValue i l).or (if j = i then some x else none)).getD (row i) = _
  cases lastValue i l with
  | some y => rfl
  | none =>
    by_cases hij : j = i
    · subst hij
      simp
    · rw [if_neg hij, Function.update_of_ne (Ne.symm hij)]
      rfl

theorem after_forM_visitEntry (visitor : Nat → Prog ε (α × ν) Unit) (order : List (Fin n))
    (row : Fin n → α) (m : ν) (i : Fin n) :
    ((forM order (visitEntry visitor)).after (row, m)).1 i =
      (lastValue i (writesOf visitor order (row, m))).getD (row i) := by
  induction order generalizing row m with
  | nil => rfl
  | cons j rest ih =>
    rw [List.forM_cons]
    unfold writesOf
    cases hvisit : visitor j (row j, m) with
    | ok _ t =>
      have hrun : visitEntry visitor j (row, m) = .ok () (Function.update row j t.1, t.2) := by
        simp only [visitEntry, hvisit]
      have hafter : (visitEntry visitor j >>= fun _ => forM rest (visitEntry visitor)).after (row, m) =
          (forM rest (visitEntry visitor)).after (Function.update row j t.1, t.2) := by
        unfold Prog.after
        rw [Prog.bind_ok hrun]
      rw [hafter, ih, getD_lastValue_cons]
    | error e t =>
      have hrun : visitEntry visitor j (row, m) = .error e (Function.update row j t.1, t.2) := by
        simp only [visitEntry, hvisit]
      rw [Prog.after_of_error (Prog.bind_error hrun), getD_lastValue_cons]
      rfl

theorem after_putEntry (i : Nat) (x : α) (s : (Fin n → α) × ν) (j : Fin n) :
    ((putEntry i x).after s).1 j = (lastValue j (writeAt i x)).getD (s.1 j) := by
  unfold writeAt putEntry Prog.after
  by_cases hi : i < n
  · simp only [dif_pos hi, getD_lastValue_cons]
    rfl
  · simp only [dif_neg hi]
    rfl

@[simp] theorem after_askRow (f : (Fin n → α) → Except (Failure ε) β) (s : (Fin n → α) × ν) :
    (askRow f).after s = s := by
  cases hf : f s.1 <;> simp only [Prog.after, askRow, hf]

@[simp] theorem after_readRow (f : (Fin n → α) → Prog ε ν β) (row : Fin n → α) (m : ν) :
    (readRow f).after (row, m) = (row, (f row).after m) := by
  cases hf : f row m <;> simp only [Prog.after, readRow, hf]

/-- **After a call** the function is at each index what the call has written there last, or what it was. -/
theorem after_onRow (c : ArrayCall α ν) (s : (Fin n → α) × ν) (i : Fin n) :
    ((c.onRow n).after s).1 i = (lastValue i (c.writes s)).getD (s.1 i) := by
  obtain ⟨row, m⟩ := s
  cases c with
  | get j => simp [onRow, writes, lastValue]
  | last => simp [onRow, writes, lastValue]
  | list => simp [onRow, writes, lastValue]
  | each visitor => simp [onRow, writes, lastValue]
  | eachReverse visitor => simp [onRow, writes, lastValue]
  | replace j x => simpa [onRow, writes] using after_putEntry j x (row, m) i
  | replaceLast x => simpa [onRow, writes] using after_putEntry (n - 1) x (row, m) i
  | eachInPlace visitor => simpa [onRow, writes] using after_forM_visitEntry visitor _ row m i
  | eachReverseInPlace visitor => simpa [onRow, writes] using after_forM_visitEntry visitor _ row m i

/-- **After a run** it is what was written there last in all of the run. -/
theorem session_onRow_eq (calls : List (ArrayCall α ν)) (s : (Fin n → α) × ν) (i : Fin n) :
    (Prog.session (onRow n) calls s).2.1 i = (lastValue i (written calls s)).getD (s.1 i) := by
  induction calls generalizing s with
  | nil => rfl
  | cons c rest ih =>
    rw [Prog.session_cons, ih, after_onRow, written, lastValue_append]
    cases lastValue i (written rest ((c.onRow n).after s)) <;> simp

/-! ## Rows -/

/-- An update of a row is one of its function. -/
theorem update_val (r : Nat → α) (i : Fin n) (x : α) :
    (fun j : Fin n => Function.update r i x j) = Function.update (fun j : Fin n => r j) i x :=
  Function.update_comp_eq_of_injective r Fin.val_injective i x

/-- A walk over a row, at indices of the array, is one over its function. -/
theorem visitRow_ends_forM (visitor : Nat → Prog ε (α × ν) Unit) (order : List (Fin n))
    (r : Nat → α) (m : ν) :
    (Walk.visitRow visitor (order.map Fin.val)).Ends (r, m)
      (fun _ s => forM order (visitEntry visitor) (fun j : Fin n => r j, m) =
        .ok ⟨⟩ (fun j : Fin n => s.1 j, s.2))
      (fun e s => forM order (visitEntry visitor) (fun j : Fin n => r j, m) =
        .error e (fun j : Fin n => s.1 j, s.2)) := by
  induction order generalizing r m with
  | nil => exact Prog.Ends.pure rfl
  | cons i rest ih =>
    rw [List.map_cons, List.forM_cons]
    unfold Walk.visitRow
    apply (Walk.visitEntry_ends (visitor i) r m i).bind
    · rintro _ ⟨r', m'⟩ ⟨x, hvisit, rfl⟩
      have hfirst : visitEntry visitor i (fun j : Fin n => r j, m) =
          .ok () (fun j : Fin n => Function.update r i x j, m') := by
        simp only [visitEntry, hvisit, update_val]
      rw [Prog.bind_ok hfirst]
      exact ih (Function.update r i x) m'
    · rintro e ⟨r', m'⟩ ⟨x, hvisit, rfl⟩
      refine Prog.bind_error ?_
      simp only [visitEntry, hvisit, update_val]

end ArrayCall

/-! ## Arrays and their functions -/

namespace StaticArray

variable {ε α β ν : Type} {n i : Nat} [Element α] {a : StaticArray α n} {m : ν} {host : Host}

/-- The elements as a function on the indices. -/
def row (a : StaticArray α n) : Fin n → α := fun i => a.slots.item i

/-- What a program leaves of an array: it is sound, in its place, and with the elements and the visitors
of `t`.  The host is as it was. -/
structure Kept (a : StaticArray α n) (host : Host) (t : (Fin n → α) × ν)
    (s : (StaticArray α n × ν) × Host) : Prop where
  state_eq : (s.1.1.row, s.1.2) = t
  host_eq : s.2 = host
  sound : s.1.1.Sound
  place : Slots.SamePlace a.slots s.1.1.slots

/-- The program does to the array what the other one does to its elements, with the same answer. -/
def Mirrors (P : Hosted ε (StaticArray α n × ν) β) (Q : Prog ε ((Fin n → α) × ν) β)
    (a : StaticArray α n) (m : ν) (host : Host) : Prop :=
  P.Ends ((a, m), host) (fun b s => ∃ t, Q (a.row, m) = .ok b t ∧ Kept a host t s)
    fun e s => ∃ t, Q (a.row, m) = .error e t ∧ Kept a host t s

namespace Mirrors

variable {P : Hosted ε (StaticArray α n × ν) β} {Q : Prog ε ((Fin n → α) × ν) β}

theorem map {γ : Type} (h : Mirrors P Q a m host) (f : β → γ) :
    Mirrors (f <$> P) (f <$> Q) a m host := by
  apply Prog.Ends.map
  apply h.mono
  · rintro b s ⟨t, hQ, hkept⟩
    exact ⟨t, Prog.map_ok hQ f, hkept⟩
  · rintro e s ⟨t, hQ, hkept⟩
    exact ⟨t, Prog.map_error hQ f, hkept⟩

theorem answer_eq (h : Mirrors P Q a m host) :
    P.answer ((a, m), host) = Q.answer (a.row, m) := by
  rcases Prog.Ends.cases h with ⟨b, hP, t, hQ, _⟩ | ⟨e, hP, t, hQ, _⟩
  · rw [hP, Prog.answer_of_ok hQ]
  · rw [hP, Prog.answer_of_error hQ]

theorem kept (h : Mirrors P Q a m host) :
    Kept a host (Q.after (a.row, m)) (P.after ((a, m), host)) := by
  rcases Prog.Ends.cases h with ⟨b, _, t, hQ, hkept⟩ | ⟨e, _, t, hQ, hkept⟩
  · rw [Prog.after_of_ok hQ]
    exact hkept
  · rw [Prog.after_of_error hQ]
    exact hkept

end Mirrors

theorem Sound.kept (h : a.Sound) (m : ν) (host : Host) :
    Kept a host (a.row, m) ((a, m), host) := ⟨rfl, rfl, h, .refl _⟩

theorem mirrors_asking {f : StaticArray α n → Except (Failure ε) β}
    {g : (Fin n → α) → Except (Failure ε) β} (h : a.Sound) (heq : f a = g a.row) (m : ν)
    (host : Host) : Mirrors (Hosted.asking f) (ArrayCall.askRow g) a m host := by
  cases hg : g a.row with
  | ok b =>
    have hrun : Hosted.asking f ((a, m), host) = .ok b ((a, m), host) := by
      simp only [Hosted.asking, heq, hg]
    exact Prog.Ends.of_ok hrun ⟨(a.row, m), by simp only [ArrayCall.askRow, hg], h.kept m host⟩
  | error e =>
    have hrun : Hosted.asking f ((a, m), host) = .error e ((a, m), host) := by
      simp only [Hosted.asking, heq, hg]
    exact Prog.Ends.of_error hrun ⟨(a.row, m), by simp only [ArrayCall.askRow, hg], h.kept m host⟩

theorem mirrors_reading {f : StaticArray α n → Prog ε ν β} {g : (Fin n → α) → Prog ε ν β}
    (h : a.Sound) (heq : f a = g a.row) (m : ν) (host : Host) :
    Mirrors (Hosted.reading f) (ArrayCall.readRow g) a m host := by
  cases hg : g a.row m with
  | ok b m' =>
    have hrun : Hosted.reading f ((a, m), host) = .ok b ((a, m'), host) := by
      simp only [Hosted.reading, heq, hg]
    exact Prog.Ends.of_ok hrun ⟨(a.row, m'), by simp only [ArrayCall.readRow, hg], h.kept m' host⟩
  | error e m' =>
    have hrun : Hosted.reading f ((a, m), host) = .error e ((a, m'), host) := by
      simp only [Hosted.reading, heq, hg]
    exact Prog.Ends.of_error hrun
      ⟨(a.row, m'), by simp only [ArrayCall.readRow, hg], h.kept m' host⟩

theorem last_eq_get (a : StaticArray α n) : a.last = a.get (n - 1) := by
  cases n <;> rfl

theorem replaceLast_eq (x : α) :
    (replaceLast x : Hosted ContainerError (StaticArray α n) α) = replace (n - 1) x := by
  cases n <;> rfl

/-- A walk that only reads. -/
theorem visit_eq_forM (h : a.Sound) (visitor : Nat → α → Prog ε ν Unit) (order : List (Fin n)) :
    Walk.visit a.read visitor (order.map Fin.val) =
      forM order fun i : Fin n => visitor i (a.row i) := by
  induction order with
  | nil => rfl
  | cons i rest ih =>
    rw [List.map_cons, List.forM_cons, ← ih]
    funext m
    exact Prog.bind_ok (Prog.lift_ok (h.read_eq i.isLt))

theorem forward_eq (n : Nat) : Walk.forward n = (List.finRange n).map Fin.val :=
  List.map_coe_finRange_eq_range.symm

theorem backward_eq (n : Nat) : Walk.backward n = (List.finRange n).reverse.map Fin.val := by
  rw [List.map_reverse, ← forward_eq]
  rfl

theorem get_eq_entry (h : a.Sound) (i : Nat) : a.get i = ArrayCall.entry i a.row := by
  rw [get_eq h]
  rfl

theorem toList_eq_ofFn (h : a.Sound) : a.toList = .ok (List.ofFn a.row) := by
  rw [toList_eq h, List.ofFn_eq_map, ← List.map_coe_finRange_eq_range, List.map_map]
  rfl

variable [LawfulElement α]

theorem mirrors_replace (h : a.Sound) (i : Nat) (x : α) (m : ν) (host : Host) :
    Mirrors (Hosted.onObject (replace i x)) (ArrayCall.putEntry i x) a m host := by
  by_cases hi : i < n
  · have hcapacity : i < a.slots.capacity := h.capacity_eq.symm ▸ hi
    have hplace := Slots.samePlace_store a.slots (i * a.slots.stride) x
    have hrun := Hosted.onObject_ok (replace_eq h hi x host) m
    refine Prog.Ends.of_ok hrun ⟨(Function.update a.row ⟨i, hi⟩ x, m), ?_, ?_, rfl,
      h.rewritten hplace (h.ready.store _ _), hplace⟩
    · have hload : a.slots.load (i * a.slots.stride) = a.row ⟨i, hi⟩ := (h.reaches hi).load_eq
      simp only [ArrayCall.putEntry, dif_pos hi, hload]
    · refine Prod.ext ?_ rfl
      show (fun j : Fin n => (a.slots.store (i * a.slots.stride) x).item (j : Nat)) = _
      rw [Slots.item_store h.ready hcapacity h.size_le]
      exact ArrayCall.update_val a.slots.item ⟨i, hi⟩ x
  · have hrun : Hosted.onObject (replace i x) ((a, m), host) =
        .error (.error .illegalArgument) ((a, m), host) := by
      simp only [Hosted.onObject, replace_error (Nat.le_of_not_lt hi)]
    refine Prog.Ends.of_error hrun ⟨(a.row, m), ?_, h.kept m host⟩
    simp only [ArrayCall.putEntry, dif_neg hi]

theorem mirrors_visit (h : a.Sound) (visitor : Nat → Prog ε (α × ν) Unit) (order : List (Fin n))
    (m : ν) (host : Host) :
    Mirrors (Hosted.offHost (visitInOrder (order.map Fin.val) visitor))
      (forM order (ArrayCall.visitEntry visitor)) a m host := by
  have hindices : ∀ i ∈ order.map Fin.val, i < a.slots.capacity := by
    intro i hi
    obtain ⟨j, _, rfl⟩ := List.mem_map.mp hi
    rw [h.capacity_eq]
    exact j.isLt
  have hforM := ArrayCall.visitRow_ends_forM visitor order a.slots.item m
  rcases (Walk.visitSlots_ends visitor h.ready h.size_le hindices m).run_eq with
    ⟨_, s, heq, r, hrow, hplace, hready, rfl⟩ | ⟨e, s, heq, r, hrow, hplace, hready, rfl⟩
  · have hrun : Hosted.offHost (visitInOrder (order.map Fin.val) visitor) ((a, m), host) =
        .ok () (((⟨s.1⟩ : StaticArray α n), s.2), host) := by
      simp only [Hosted.offHost, visitInOrder, heq]
    exact Prog.Ends.of_ok hrun
      ⟨_, hforM.of_run_ok hrow, rfl, rfl, h.rewritten hplace hready, hplace⟩
  · have hrun : Hosted.offHost (visitInOrder (order.map Fin.val) visitor) ((a, m), host) =
        .error e (((⟨s.1⟩ : StaticArray α n), s.2), host) := by
      simp only [Hosted.offHost, visitInOrder, heq]
    exact Prog.Ends.of_error hrun
      ⟨_, hforM.of_run_error hrow, rfl, rfl, h.rewritten hplace hready, hplace⟩

/-- **Every call** does to an array what it does to the function of its elements. -/
theorem respond_mirrors (c : ArrayCall α ν) (h : a.Sound) (m : ν) (host : Host) :
    Mirrors c.respond (c.onRow n) a m host := by
  cases c with
  | get i => exact (mirrors_asking h (get_eq_entry h i) m host).map _
  | last =>
    exact (mirrors_asking h ((last_eq_get a).trans (get_eq_entry h (n - 1))) m host).map _
  | replace i x => exact (mirrors_replace h i x m host).map _
  | replaceLast x =>
    refine Mirrors.map ?_ _
    rw [replaceLast_eq]
    exact mirrors_replace h (n - 1) x m host
  | each visitor =>
    refine Mirrors.map (mirrors_reading h ?_ m host) _
    rw [← visit_eq_forM h, ← forward_eq]
    rfl
  | eachReverse visitor =>
    refine Mirrors.map (mirrors_reading h ?_ m host) _
    rw [← visit_eq_forM h, ← backward_eq]
    rfl
  | eachInPlace visitor =>
    refine Mirrors.map ?_ _
    unfold eachInPlace
    rw [forward_eq]
    exact mirrors_visit h visitor _ m host
  | eachReverseInPlace visitor =>
    refine Mirrors.map ?_ _
    unfold eachReverseInPlace
    rw [backward_eq]
    exact mirrors_visit h visitor _ m host
  | list =>
    refine Mirrors.map (mirrors_asking h ?_ m host) _
    rw [toList_eq_ofFn h]
    rfl

end StaticArray

end AlignedSlots
