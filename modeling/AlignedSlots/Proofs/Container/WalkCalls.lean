import Mathlib
import AlignedSlots.Proofs.Container.WalkLaws

/-!
# The calls of a walk

`Walk.Calls` is what it means to call for items one after the other and to stop early: which calls are
made, what comes of them, and which state the calls leave.  It says nothing about a container.
`Walk.Conducts` and `Walk.ConductsInPlace` then say of a walk that this is all it does, whatever it calls,
and that a visitor that keeps a log finds exactly these calls in it.

The three loops over indices are taken here, each by one induction over the indices: `visit_calls`,
`find_calls`, and `visitRow_calls` for a walk in place.
-/

namespace AlignedSlots

/-- The end of a program, from what it answers and the state that it leaves. -/
def Prog.ending {ε σ β : Type} (answer : Except (Failure ε) β) (s : σ) :
    EStateM.Result (Failure ε) σ β :=
  match answer with
  | .ok b => .ok b s
  | .error e => .error e s

theorem Prog.after_eq_of_ending {ε σ β : Type} {m : Prog ε σ β} {s s' : σ}
    {answer : Except (Failure ε) β} (h : m s = Prog.ending answer s') : m.after s = s' := by
  cases answer with
  | ok b => exact Prog.after_of_ok h
  | error e => exact Prog.after_of_error h

namespace Walk

variable {ε ν ι α β γ C : Type}

/-! ## Calling for items -/

/-- The calls that are made for items in their order, the result, and the state that the calls leave.
The result is the item at which an answer has stopped the calls, if one has, or the failure of a call. -/
inductive Calls (call : ι → Prog ε ν β) (stops : β → Bool) :
    List ι → ν → List ι → Except (Failure ε) (Option ι) → ν → Prop
  /-- All items have been called for. -/
  | finished (n : ν) : Calls call stops [] n [] (.ok none) n
  /-- The call for an item fails, and no later item is called for. -/
  | failed {x : ι} {rest : List ι} {n n' : ν} {e : Failure ε} : call x n = .error e n' →
      Calls call stops (x :: rest) n [x] (.error e) n'
  /-- The call for an item answers so that no later item is called for. -/
  | found {x : ι} {rest : List ι} {n n' : ν} {b : β} : call x n = .ok b n' → stops b = true →
      Calls call stops (x :: rest) n [x] (.ok (some x)) n'
  /-- The next item is called for. -/
  | next {x : ι} {rest made : List ι} {n n₁ n' : ν} {b : β} {result : Except (Failure ε) (Option ι)} :
      call x n = .ok b n₁ → stops b = false → Calls call stops rest n₁ made result n' →
      Calls call stops (x :: rest) n (x :: made) result n'

/-- No answer of a visitor stops a walk. -/
def never (_ : Unit) : Bool := false

/-- Items with their positions. -/
def numbered (l : List α) : List (Nat × α) := l.mapIdx Prod.mk

/-- A call that is written down in a log, whether it fails or not. -/
def logged (call : ι → Prog ε ν β) (x : ι) : Prog ε (List ι × ν) β := fun (log, n) =>
  match call x n with
  | .ok b n => .ok b (log ++ [x], n)
  | .error e n => .error e (log ++ [x], n)

section Calls

variable {call : ι → Prog ε ν β} {stops : β → Bool} {items made made' : List ι} {n n' n'' : ν}
  {result result' : Except (Failure ε) (Option ι)}

/-- The calls are made in the order of the items and leave none out before the last one. -/
theorem Calls.made_prefix (h : Calls call stops items n made result n') : made <+: items := by
  induction h with
  | finished n => exact List.prefix_rfl
  | failed _ => exact List.prefix_append [_] _
  | found _ _ => exact List.prefix_append [_] _
  | next _ _ _ ih => exact (List.prefix_cons_inj _).mpr ih

/-- Where nothing stops the calls, all items are called for. -/
theorem Calls.made_eq (h : Calls call stops items n made result n') (hresult : result = .ok none) :
    made = items := by
  induction h with
  | finished n => rfl
  | failed _ => cases hresult
  | found _ _ => cases hresult
  | next _ _ _ ih => rw [ih hresult]

/-- The calls, the result and the state are determined. -/
theorem Calls.unique (h : Calls call stops items n made result n')
    (h' : Calls call stops items n made' result' n'') :
    made' = made ∧ result' = result ∧ n'' = n' := by
  induction h generalizing made' with
  | finished n =>
    cases h'
    exact ⟨rfl, rfl, rfl⟩
  | failed hcall =>
    cases h' with
    | failed hcall' =>
      rw [hcall] at hcall'
      cases hcall'
      exact ⟨rfl, rfl, rfl⟩
    | found hcall' _ => simp [hcall] at hcall'
    | next hcall' _ _ => simp [hcall] at hcall'
  | found hcall hstops =>
    cases h' with
    | failed hcall' => simp [hcall] at hcall'
    | found hcall' _ =>
      rw [hcall] at hcall'
      cases hcall'
      exact ⟨rfl, rfl, rfl⟩
    | next hcall' hstops' _ =>
      rw [hcall] at hcall'
      cases hcall'
      simp [hstops] at hstops'
  | next hcall hstops _ ih =>
    cases h' with
    | failed hcall' => simp [hcall] at hcall'
    | found hcall' hstops' =>
      rw [hcall] at hcall'
      cases hcall'
      simp [hstops] at hstops'
    | next hcall' _ hrest =>
      rw [hcall] at hcall'
      cases hcall'
      obtain ⟨rfl, hsame⟩ := ih hrest
      exact ⟨rfl, hsame⟩

/-- A log holds the calls that were made. -/
theorem Calls.logged (h : Calls call stops items n made result n') (log : List ι) :
    Calls (logged call) stops items (log, n) made result (log ++ made, n') := by
  induction h generalizing log with
  | finished n =>
    rw [List.append_nil]
    exact .finished _
  | failed hcall => exact .failed (by simp only [Walk.logged, hcall])
  | found hcall hstops => exact .found (by simp only [Walk.logged, hcall]) hstops
  | @next x rest made n n₁ n' b result hcall hstops _ ih =>
    have hlogged : Walk.logged call x (log, n) = .ok b (log ++ [x], n₁) := by
      simp only [Walk.logged, hcall]
    rw [List.append_cons]
    exact .next hlogged hstops (ih _)

end Calls

/-! ## Walks that only read -/

/-- How a walk over items goes. -/
structure Conducted (walk : ∀ ν : Type, (ι → Prog ε ν β) → Prog ε ν γ) (stops : β → Bool)
    (items : List ι) (answer : Option ι → γ) (call : ι → Prog ε ν β) (n : ν) (made : List ι)
    (result : Except (Failure ε) (Option ι)) (n' : ν) : Prop where
  calls : Calls call stops items n made result n'
  made_prefix : made <+: items
  made_eq : result = .ok none → made = items
  run_eq : walk ν call n = Prog.ending (result.map answer) n'
  /-- A log of the calls holds those and no others. -/
  log_eq : walk (List ι × ν) (logged call) ([], n) = Prog.ending (result.map answer) (made, n')

/-- The walk calls for the items in their order, for every visitor and whatever its state is. -/
def Conducts (stops : β → Bool) (items : List ι) (answer : Option ι → γ)
    (walk : ∀ ε ν : Type, (ι → Prog ε ν β) → Prog ε ν γ) : Prop :=
  ∀ (ε ν : Type) (call : ι → Prog ε ν β) (n : ν), ∃ made result n',
    Conducted (walk ε) stops items answer call n made result n'

theorem conducts_of_calls {stops : β → Bool} {items : List ι} {answer : Option ι → γ}
    {walk : ∀ ε ν : Type, (ι → Prog ε ν β) → Prog ε ν γ}
    (h : ∀ (ε ν : Type) (call : ι → Prog ε ν β) (n : ν), ∃ made result n',
      Calls call stops items n made result n' ∧
        walk ε ν call n = Prog.ending (result.map answer) n') :
    Conducts stops items answer walk := by
  intro ε ν call n
  obtain ⟨made, result, n', hcalls, hrun⟩ := h ε ν call n
  refine ⟨made, result, n', hcalls, hcalls.made_prefix, hcalls.made_eq, hrun, ?_⟩
  -- The logged calls are among those that the walk is known to make.
  obtain ⟨_, _, _, hlogged, hrun⟩ := h ε (List ι × ν) (logged call) ([], n)
  obtain ⟨_, rfl, rfl⟩ := (hcalls.logged []).unique hlogged
  exact hrun

section Reading

variable {read : Nat → Except Fault α} {row : Nat → α} {indices : List Nat}

/-- **A walk** calls for what it views at its indices, in their order. -/
theorem visit_calls {visitor : Nat → α → Prog ε ν Unit} (view : Nat → α → Option ι)
    (call : ι → Prog ε ν Unit) (hread : ∀ i ∈ indices, read i = .ok (row i))
    (hvisitor : ∀ i x, visitor i x = (view i x).elim (pure ()) call) (n : ν) :
    ∃ made result n', Calls call never (indices.filterMap fun i => view i (row i)) n made result n' ∧
      visit read visitor indices n = Prog.ending (result.map fun _ => ()) n' := by
  induction indices generalizing n with
  | nil => exact ⟨[], .ok none, n, .finished n, rfl⟩
  | cons i rest ih =>
    have ih := ih fun j hj => hread j (List.mem_cons_of_mem i hj)
    have hstep : visit read visitor (i :: rest) n =
        (visitor i (row i) >>= fun _ => visit read visitor rest) n :=
      Prog.bind_ok (Prog.lift_ok (hread i List.mem_cons_self))
    rw [hstep, hvisitor, List.filterMap_cons]
    cases view i (row i) with
    | none => exact ih n
    | some x =>
      show ∃ made result n', Calls call never (x :: _) n made result n' ∧
        (call x >>= fun _ => visit read visitor rest) n = _
      cases hcall : call x n with
      | error e n₁ => exact ⟨[x], .error e, n₁, .failed hcall, Prog.bind_error hcall⟩
      | ok b n₁ =>
        obtain ⟨made, result, n', hcalls, hrun⟩ := ih n₁
        exact ⟨x :: made, result, n', .next hcall rfl hcalls, (Prog.bind_ok hcall).trans hrun⟩

/-- **A search** calls for the elements at its indices up to the first one with the property. -/
theorem find_calls (hread : ∀ i ∈ indices, read i = .ok (row i)) (call : Nat × α → Prog ε ν Bool)
    (otherwise : Nat) (n : ν) :
    ∃ made result n', Calls call id (indices.map fun i => (i, row i)) n made result n' ∧
      find read (fun i x => call (i, x)) otherwise indices n =
        Prog.ending (result.map fun found => found.elim otherwise Prod.fst) n' := by
  induction indices generalizing n with
  | nil => exact ⟨[], .ok none, n, .finished n, rfl⟩
  | cons i rest ih =>
    have ih := ih fun j hj => hread j (List.mem_cons_of_mem i hj)
    have hstep : find read (fun i x => call (i, x)) otherwise (i :: rest) n =
        (call (i, row i) >>= fun here => if here then pure i
          else find read (fun i x => call (i, x)) otherwise rest) n :=
      Prog.bind_ok (Prog.lift_ok (hread i List.mem_cons_self))
    rw [hstep, List.map_cons]
    cases hcall : call (i, row i) n with
    | error e n₁ => exact ⟨_, .error e, n₁, .failed hcall, Prog.bind_error hcall⟩
    | ok here n₁ =>
      rw [Prog.bind_ok hcall]
      cases here with
      | true => exact ⟨_, .ok (some (i, row i)), n₁, .found hcall rfl, rfl⟩
      | false =>
        obtain ⟨made, result, n', hcalls, hrun⟩ := ih n₁
        exact ⟨_, result, n', .next hcall rfl hcalls, hrun⟩

end Reading

/-! ## Walks in place -/

/-- A visitor in place is given an element, and what it leaves there is noted, whether it fails or not. -/
def leaving (visitor : Nat → Prog ε (α × ν) Unit) (p : Nat × α) :
    Prog ε (List (Nat × α) × ν) Unit := fun (left, n) =>
  match visitor p.1 (p.2, n) with
  | .ok () (x, n) => .ok () (left ++ [(p.1, x)], n)
  | .error e (x, n) => .error e (left ++ [(p.1, x)], n)

/-- A visitor in place that writes down in a log what it is called with. -/
def loggedInPlace (visitor : Nat → Prog ε (α × ν) Unit) (i : Nat) :
    Prog ε (α × List (Nat × α) × ν) Unit := fun (x, log, n) =>
  match visitor i (x, n) with
  | .ok () (y, n) => .ok () (y, log ++ [(i, x)], n)
  | .error e (y, n) => .error e (y, log ++ [(i, x)], n)

/-- What visited elements are left as is read afterwards, and elsewhere nothing has changed. -/
structure Changes (made left : List (Nat × α)) (before after : Nat → Except Fault α) : Prop where
  indices_eq : left.map Prod.fst = made.map Prod.fst
  visited : ∀ p ∈ left, after p.1 = .ok p.2
  others : ∀ i ∉ made.map Prod.fst, after i = before i

/-- How a walk in place over items goes.  `read` reads a container, and `Kept` says what else of it stays
as it is. -/
structure ConductedInPlace (walk : ∀ ν : Type, (Nat → Prog ε (α × ν) Unit) → Prog ε (C × ν) Unit)
    (read : C → Nat → Except Fault α) (Kept : C → C → Prop) (items : List (Nat × α)) (c : C)
    (visitor : Nat → Prog ε (α × ν) Unit) (n : ν) (made left : List (Nat × α))
    (result : Except (Failure ε) (Option (Nat × α))) (n' : ν) (c' : C) : Prop where
  calls : Calls (leaving visitor) never items ([], n) made result (left, n')
  made_prefix : made <+: items
  made_eq : result = .ok none → made = items
  run_eq : walk ν visitor (c, n) = Prog.ending (result.map fun _ => ()) (c', n')
  changes : Changes made left (read c) (read c')
  kept : Kept c c'
  /-- A log of the calls holds those and no others. -/
  log_eq : ((walk (List (Nat × α) × ν) (loggedInPlace visitor)).after (c, [], n)).2 = (made, n')

/-- The walk calls for the items of a container in their order, for every visitor and whatever its state
is, and what the visitor leaves in them is all that changes. -/
def ConductsInPlace (read : C → Nat → Except Fault α) (Kept : C → C → Prop) (items : List (Nat × α))
    (c : C) (walk : ∀ ε ν : Type, (Nat → Prog ε (α × ν) Unit) → Prog ε (C × ν) Unit) : Prop :=
  ∀ (ε ν : Type) (visitor : Nat → Prog ε (α × ν) Unit) (n : ν), ∃ made left result n' c',
    ConductedInPlace (walk ε) read Kept items c visitor n made left result n' c'

section InPlace

variable {visitor : Nat → Prog ε (α × ν) Unit} {items made left : List (Nat × α)} {i : Nat}
  {n : ν} {row row' : Nat → α}

theorem leaving_loggedInPlace (visitor : Nat → Prog ε (α × ν) Unit) (p : Nat × α)
    (s : List (Nat × α) × ν) (log : List (Nat × α)) :
    leaving (loggedInPlace visitor) p (s.1, log, s.2) =
      match leaving visitor p s with
      | .ok () s' => .ok () (s'.1, log ++ [p], s'.2)
      | .error e s' => .error e (s'.1, log ++ [p], s'.2) := by
  cases hvisit : visitor p.1 (p.2, s.2) with
  | ok _ t => simp only [leaving, loggedInPlace, hvisit]
  | error e t => simp only [leaving, loggedInPlace, hvisit]

/-- A visitor in place that keeps a log finds in it the calls that were made. -/
theorem Calls.loggedInPlace {s s' : List (Nat × α) × ν}
    {result : Except (Failure ε) (Option (Nat × α))}
    (h : Calls (leaving visitor) never items s made result s') (log : List (Nat × α)) :
    Calls (leaving (loggedInPlace visitor)) never items (s.1, log, s.2) made result
      (s'.1, log ++ made, s'.2) := by
  induction h generalizing log with
  | finished s =>
    rw [List.append_nil]
    exact .finished _
  | failed hcall => exact .failed (by rw [leaving_loggedInPlace, hcall])
  | found _ hstops => cases hstops
  | @next p rest made s s₁ s' b result hcall hstops _ ih =>
    have hlogged : leaving (Walk.loggedInPlace visitor) p (s.1, log, s.2) =
        .ok b (s₁.1, log ++ [p], s₁.2) := by
      rw [leaving_loggedInPlace, hcall]
    rw [List.append_cons]
    exact .next hlogged hstops (ih _)

/-- The one element that was visited. -/
theorem Changes.single (row : Nat → α) (i : Nat) (x : α) :
    Changes [(i, row i)] [(i, x)] (fun j => .ok (row j)) fun j => .ok (Function.update row i x j) := by
  refine ⟨rfl, ?_, ?_⟩
  · intro p hp
    obtain rfl := List.mem_singleton.mp hp
    simp
  · intro j hj
    have hne : j ≠ i := by simpa using hj
    simp [hne]

/-- One more element that is visited before the others. -/
theorem Changes.cons {x : α} (hout : i ∉ made.map Prod.fst)
    (h : Changes made left (fun j => .ok (Function.update row i x j)) fun j => .ok (row' j)) :
    Changes ((i, row i) :: made) ((i, x) :: left) (fun j => .ok (row j)) fun j => .ok (row' j) := by
  refine ⟨congrArg (i :: ·) h.indices_eq, ?_, ?_⟩
  · intro p hp
    rcases List.mem_cons.mp hp with rfl | hp
    · rw [h.others i hout, Function.update_self]
    · exact h.visited p hp
  · intro j hj
    rw [List.map_cons, List.mem_cons, not_or] at hj
    rw [h.others j hj.2, Function.update_of_ne hj.1]

/-- **A walk in place** over a row calls for its elements at the indices, in their order. -/
theorem visitRow_calls {indices : List Nat} (hnodup : indices.Nodup)
    (visitor : Nat → Prog ε (α × ν) Unit) (row : Nat → α) (before : List (Nat × α)) (n : ν) :
    ∃ made left result n' row',
      Calls (leaving visitor) never (indices.map fun i => (i, row i)) (before, n) made result
        (before ++ left, n') ∧
      visitRow visitor indices (row, n) = Prog.ending (result.map fun _ => ()) (row', n') ∧
      Changes made left (fun i => .ok (row i)) fun i => .ok (row' i) := by
  induction indices generalizing row before n with
  | nil =>
    refine ⟨[], [], .ok none, n, row, ?_, rfl, rfl, nofun, fun _ _ => rfl⟩
    rw [List.append_nil]
    exact .finished _
  | cons i rest ih =>
    obtain ⟨hout, hnodup⟩ := List.nodup_cons.mp hnodup
    rw [List.map_cons]
    cases hvisit : visitor i (row i, n) with
    | error e s =>
      have hcall : leaving visitor (i, row i) (before, n) = .error e (before ++ [(i, s.1)], s.2) := by
        simp only [leaving, hvisit]
      have hentry : visitEntry i (visitor i) (row, n) =
          .error e (Function.update row i s.1, s.2) := by
        simp only [visitEntry, hvisit]
      exact ⟨_, _, .error e, s.2, _, .failed hcall, Prog.bind_error hentry, .single row i s.1⟩
    | ok _ s =>
      have hcall : leaving visitor (i, row i) (before, n) = .ok () (before ++ [(i, s.1)], s.2) := by
        simp only [leaving, hvisit]
      have hentry : visitEntry i (visitor i) (row, n) =
          .ok () (Function.update row i s.1, s.2) := by
        simp only [visitEntry, hvisit]
      obtain ⟨made, left, result, n', row', hcalls, hrun, hchanges⟩ :=
        ih hnodup (Function.update row i s.1) (before ++ [(i, s.1)]) s.2
      -- The element that was visited is none of those that are still to be called for.
      have hitems : (rest.map fun j => (j, Function.update row i s.1 j)) =
          rest.map fun j => (j, row j) := by
        apply List.map_congr_left
        intro j hj
        rw [Function.update_of_ne (ne_of_mem_of_not_mem hj hout)]
      rw [hitems, List.append_assoc] at hcalls
      have hmade : i ∉ made.map Prod.fst := by
        intro hmem
        have hsub := (hcalls.made_prefix.map Prod.fst).subset hmem
        simp at hsub
        exact hout hsub
      exact ⟨_, _, result, n', row', .next hcall rfl hcalls, (Prog.bind_ok hentry).trans hrun,
        hchanges.cons hmade⟩

theorem conductsInPlace_of_calls {read : C → Nat → Except Fault α} {Kept : C → C → Prop} {c : C}
    {walk : ∀ ε ν : Type, (Nat → Prog ε (α × ν) Unit) → Prog ε (C × ν) Unit}
    (h : ∀ (ε ν : Type) (visitor : Nat → Prog ε (α × ν) Unit) (n : ν), ∃ made left result n' c',
      Calls (leaving visitor) never items ([], n) made result (left, n') ∧
        walk ε ν visitor (c, n) = Prog.ending (result.map fun _ => ()) (c', n') ∧
        Changes made left (read c) (read c') ∧ Kept c c') :
    ConductsInPlace read Kept items c walk := by
  intro ε ν visitor n
  obtain ⟨made, left, result, n', c', hcalls, hrun, hchanges, hkept⟩ := h ε ν visitor n
  refine ⟨made, left, result, n', c', hcalls, hcalls.made_prefix, hcalls.made_eq, hrun, hchanges,
    hkept, ?_⟩
  obtain ⟨_, _, _, s, c'', hlogged, hrun, _⟩ :=
    h ε (List (Nat × α) × ν) (Walk.loggedInPlace visitor) ([], n)
  obtain ⟨rfl, rfl, hstate⟩ := (hcalls.loggedInPlace []).unique hlogged
  obtain ⟨_, rfl⟩ := Prod.mk.inj hstate
  rw [Prog.after_eq_of_ending hrun]
  rfl

end InPlace

/-! ## Walks over slots -/

section Slots

variable [Element α] {s : Slots} {indices : List Nat} {offset : Slots → Nat → Except Fault Nat}

/-- A walk over slots ends as the one over the row of their elements does. -/
theorem visitAllInPlace_ending (visitor : Nat → Prog ε (α × ν) Unit) (h : s.Ready)
    (hoffset : Locates α offset s indices) {n n' : ν} {answer : Except (Failure ε) Unit}
    {row : Nat → α}
    (hrow : visitRow visitor indices (s.item, n) = Prog.ending answer (row, n')) :
    ∃ s', visitAllInPlace offset visitor indices (s, n) = Prog.ending answer (s', n') ∧
      Carries s s' row := by
  rcases (visitAllInPlace_ends offset visitor h hoffset n).run_eq with
    ⟨_, t, hrun, row', hrow', hcarries⟩ | ⟨e, t, hrun, row', hrow', hcarries⟩
  · rw [hrow] at hrow'
    cases answer with
    | ok _ =>
      cases hrow'
      exact ⟨t.1, hrun, hcarries⟩
    | error _ => cases hrow'
  · rw [hrow] at hrow'
    cases answer with
    | ok _ => cases hrow'
    | error _ =>
      cases hrow'
      exact ⟨t.1, hrun, hcarries⟩

/-- **A walk in place over slots** calls for their elements at the indices, in their order, and changes no
other element. -/
theorem visitAllInPlace_calls (hnodup : indices.Nodup) (visitor : Nat → Prog ε (α × ν) Unit)
    (h : s.Ready) (hoffset : Locates α offset s indices) (n : ν) :
    ∃ made left result n' s',
      Calls (leaving visitor) never (indices.map fun i => (i, s.item i)) ([], n) made result
        (left, n') ∧
      visitAllInPlace offset visitor indices (s, n) =
        Prog.ending (result.map fun _ => ()) (s', n') ∧
      Changes made left (fun i => .ok (s.item i)) (fun i => .ok (s'.item i)) ∧
      Slots.SamePlace s s' ∧ s'.Ready := by
  obtain ⟨made, left, result, n', row, hcalls, hrow, hchanges⟩ :=
    visitRow_calls hnodup visitor s.item [] n
  obtain ⟨s', hrun, hplace, hready, rfl⟩ := visitAllInPlace_ending visitor h hoffset hrow
  exact ⟨made, left, result, n', s', hcalls, hrun, hchanges, hplace, hready⟩

end Slots

end Walk

end AlignedSlots
