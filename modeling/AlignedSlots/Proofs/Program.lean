import AlignedSlots.Host

/-!
# Reasoning about programs

`Prog.Ends m s Q E` says how a program ends when it is started in `s`: with a value and a state that
satisfy `Q`, or with a failure and a state that satisfy `E`.  The laws below take a program apart at its
binds, so that a proof follows the text of the program and states what holds between two steps.

A session is a list of steps that are run one after the other.  A step that fails leaves its state
behind, and the session goes on from there.
-/

namespace AlignedSlots

/-- A checked computation goes on with the value of its first part. -/
theorem checked_bind {ε α β : Type} (a : α) (f : α → Except ε β) : (Except.ok a >>= f) = f a := rfl

/-- A checked computation that faults at most goes on in one that may answer an error, too. -/
theorem lifted_bind {ε α β : Type} (a : α) (f : α → Except (Failure ε) β) :
    ((liftM (Except.ok a : Except Fault α) : Except (Failure ε) α) >>= f) = f a := rfl

/-- A checked computation succeeds with another second part that does so wherever the first one does. -/
theorem checked_bind_mono {ε α β : Type} {x : Except ε α} {f g : α → Except ε β} {b : β}
    (h : (x >>= f) = .ok b) (hmono : ∀ a, f a = .ok b → g a = .ok b) : (x >>= g) = .ok b := by
  cases x with
  | error e => cases h
  | ok a => exact hmono a h

/-- Checked computations that all succeed. -/
theorem mapM_eq_ok {ε α β : Type} {f : α → Except ε β} {g : α → β} {l : List α}
    (h : ∀ a ∈ l, f a = .ok (g a)) : l.mapM f = .ok (l.map g) := by
  induction l with
  | nil => rfl
  | cons a rest ih =>
    rw [List.mapM_cons, h a List.mem_cons_self, checked_bind,
      ih fun b hb => h b (List.mem_cons_of_mem _ hb)]
    rfl

namespace Prog

variable {ε ε' σ α β : Type} {m : Prog ε σ α} {f : α → Prog ε σ β} {s s' : σ}

/-! ## How a program ends -/

/-- The program ends with a value that satisfies `Q`, or fails in a way that satisfies `E`. -/
def Ends (m : Prog ε σ α) (s : σ) (Q : α → σ → Prop) (E : Failure ε → σ → Prop) : Prop :=
  match m s with
  | .ok a s' => Q a s'
  | .error e s' => E e s'

theorem bind_ok {a : α} (h : m s = .ok a s') : (m >>= f) s = f a s' := by
  show EStateM.bind m f s = f a s'
  simp only [EStateM.bind, h]

theorem bind_error {e : Failure ε} (h : m s = .error e s') : (m >>= f) s = .error e s' := by
  show EStateM.bind m f s = .error e s'
  simp only [EStateM.bind, h]

/-- A program succeeds with another second part that does so wherever the first one does. -/
theorem bind_mono {g : α → Prog ε σ β} {b : β} (h : (m >>= f) s = .ok b s')
    (hmono : ∀ a t, f a t = .ok b s' → g a t = .ok b s') : (m >>= g) s = .ok b s' := by
  cases hm : m s with
  | ok a t =>
    rw [bind_ok hm] at h ⊢
    exact hmono a t h
  | error e t =>
    rw [bind_error hm] at h
    cases h

theorem map_ok {a : α} (h : m s = .ok a s') (g : α → β) : (g <$> m) s = .ok (g a) s' := by
  show EStateM.map g m s = _
  simp only [EStateM.map, h]

theorem map_error {e : Failure ε} (h : m s = .error e s') (g : α → β) :
    (g <$> m) s = .error e s' := by
  show EStateM.map g m s = _
  simp only [EStateM.map, h]

theorem lift_ok {x : Except Fault α} {a : α} (h : x = .ok a) :
    (liftM x : Prog ε σ α) s = .ok a s := by
  subst h
  rfl

theorem lift_error {x : Except Fault α} {e : Fault} (h : x = .error e) :
    (liftM x : Prog ε σ α) s = .error (.fault e) s := by
  subst h
  rfl

theorem lift_failure_ok {x : Except (Failure ε) α} {a : α} (h : x = .ok a) :
    (liftM x : Prog ε σ α) s = .ok a s := by
  subst h
  rfl

theorem lift_failure_error {x : Except (Failure ε) α} {e : Failure ε} (h : x = .error e) :
    (liftM x : Prog ε σ α) s = .error e s := by
  subst h
  rfl

theorem get_eq (s : σ) : (get : Prog ε σ σ) s = .ok s s := rfl

theorem modify_eq (g : σ → σ) (s : σ) : (modify g : Prog ε σ PUnit) s = .ok ⟨⟩ (g s) := rfl

variable {Q : α → σ → Prop} {R : β → σ → Prop} {E : Failure ε → σ → Prop}

theorem Ends.of_ok {a : α} (h : m s = .ok a s') (hq : Q a s') : m.Ends s Q E := by
  simp only [Ends, h]
  exact hq

theorem Ends.of_error {e : Failure ε} (h : m s = .error e s') (he : E e s') : m.Ends s Q E := by
  simp only [Ends, h]
  exact he

/-- How the program ends, as an equation. -/
theorem Ends.run_eq (h : m.Ends s Q E) :
    (∃ a s', m s = .ok a s' ∧ Q a s') ∨ ∃ e s', m s = .error e s' ∧ E e s' := by
  unfold Ends at h
  cases hm : m s with
  | ok a s' =>
    rw [hm] at h
    exact .inl ⟨a, s', rfl, h⟩
  | error e s' =>
    rw [hm] at h
    exact .inr ⟨e, s', rfl, h⟩

/-- A program that ends without failing has a result. -/
theorem Ends.exists_ok (h : m.Ends s Q fun _ _ => False) : ∃ a s', m s = .ok a s' ∧ Q a s' := by
  rcases h.run_eq with hok | ⟨_, _, _, hfalse⟩
  · exact hok
  · exact hfalse.elim

/-- A program that ends without a value has failed. -/
theorem Ends.exists_error (h : m.Ends s (fun _ _ => False) E) : ∃ e s', m s = .error e s' ∧ E e s' := by
  rcases h.run_eq with ⟨_, _, _, hfalse⟩ | herror
  · exact hfalse.elim
  · exact herror

theorem Ends.mono {Q' : α → σ → Prop} {E' : Failure ε → σ → Prop} (h : m.Ends s Q E)
    (hq : ∀ a s', Q a s' → Q' a s') (he : ∀ e s', E e s' → E' e s') : m.Ends s Q' E' := by
  rcases h.run_eq with ⟨a, s', heq, h⟩ | ⟨e, s', heq, h⟩
  · exact Ends.of_ok heq (hq a s' h)
  · exact Ends.of_error heq (he e s' h)

/-- Only what the program does from the state counts. -/
theorem Ends.congr {m' : Prog ε σ α} (h : m.Ends s Q E) (heq : m' s = m s) : m'.Ends s Q E := by
  rcases h.run_eq with ⟨a, s', hrun, h⟩ | ⟨e, s', hrun, h⟩
  · exact Ends.of_ok (heq.trans hrun) h
  · exact Ends.of_error (heq.trans hrun) h

theorem Ends.of_run_ok {a : α} (h : m.Ends s Q E) (heq : m s = .ok a s') : Q a s' := by
  unfold Ends at h
  rw [heq] at h
  exact h

theorem Ends.of_run_error {e : Failure ε} (h : m.Ends s Q E) (heq : m s = .error e s') : E e s' := by
  unfold Ends at h
  rw [heq] at h
  exact h

/-- Two statements about one end. -/
theorem Ends.and {Q' : α → σ → Prop} {E' : Failure ε → σ → Prop} (h : m.Ends s Q E)
    (h' : m.Ends s Q' E') :
    m.Ends s (fun a s' => Q a s' ∧ Q' a s') (fun e s' => E e s' ∧ E' e s') := by
  rcases h.run_eq with ⟨a, s', heq, hq⟩ | ⟨e, s', heq, he⟩
  · exact Ends.of_ok heq ⟨hq, h'.of_run_ok heq⟩
  · exact Ends.of_error heq ⟨he, h'.of_run_error heq⟩

/-- A bind is taken apart at what holds between its two programs. -/
theorem Ends.bind {E' : Failure ε → σ → Prop} (h : m.Ends s Q E')
    (k : ∀ a s', Q a s' → (f a).Ends s' R E) (he : ∀ e s', E' e s' → E e s') :
    (m >>= f).Ends s R E := by
  rcases h.run_eq with ⟨a, s', heq, h⟩ | ⟨e, s', heq, h⟩
  · have hk := k a s' h
    unfold Ends at hk ⊢
    rw [bind_ok heq]
    exact hk
  · exact Ends.of_error (bind_error heq) (he e s' h)

/-- The first program of a bind is known to succeed. -/
theorem Ends.bind_ok {a : α} (h : m s = .ok a s') (k : (f a).Ends s' R E) :
    (m >>= f).Ends s R E := by
  unfold Ends at k ⊢
  rw [Prog.bind_ok h]
  exact k

/-- The first program of a bind is known to fail. -/
theorem Ends.bind_error {e : Failure ε} (h : m s = .error e s') (he : E e s') :
    (m >>= f).Ends s R E :=
  Ends.of_error (Prog.bind_error h) he

theorem Ends.pure {a : α} (h : Q a s) : (pure a : Prog ε σ α).Ends s Q E := h

theorem Ends.fail {e : ε} (h : E (.error e) s) : (Prog.fail e : Prog ε σ α).Ends s Q E := h

/-- The value is changed after the program. -/
theorem Ends.map {g : α → β} (h : m.Ends s (fun a s' => R (g a) s') E) : (g <$> m).Ends s R E := by
  rcases h.run_eq with ⟨a, s', heq, h⟩ | ⟨e, s', heq, h⟩
  · exact Ends.of_ok (map_ok heq g) h
  · exact Ends.of_error (map_error heq g) h

/-- Errors are renamed after the program. -/
theorem Ends.mapError {g : ε → ε'} {E' : Failure ε' → σ → Prop}
    (h : m.Ends s Q fun e s' => E' (e.map g) s') : (mapError g m).Ends s Q E' := by
  rcases h.run_eq with ⟨a, s', heq, h⟩ | ⟨e, s', heq, h⟩
  · exact Ends.of_ok (by simp only [Prog.mapError, heq]) h
  · exact Ends.of_error (by simp only [Prog.mapError, heq]) h

/-- The program fails so, from some state. -/
def Raises (m : Prog ε σ α) (e : Failure ε) : Prop := ∃ s s', m s = .error e s'

/-- The program fails as it does. -/
theorem ends_raises (m : Prog ε σ α) (s : σ) : m.Ends s (fun _ _ => True) fun e _ => m.Raises e := by
  unfold Ends
  cases hm : m s with
  | ok _ _ => trivial
  | error _ s' => exact ⟨s, s', hm⟩

/-! ## Sessions -/

/-- What the program answers. -/
def answer (m : Prog ε σ α) (s : σ) : Except (Failure ε) α :=
  match m s with
  | .ok a _ => .ok a
  | .error e _ => .error e

/-- The state that the program leaves, whether it fails or not. -/
def after (m : Prog ε σ α) (s : σ) : σ :=
  match m s with
  | .ok _ s' => s'
  | .error _ s' => s'

/-- A step of a session, and its answer. -/
abbrev Record (ε ι α : Type) := ι × Except (Failure ε) α

/-- Runs the steps one after the other, from the state that each leaves, and keeps their answers. -/
def session {ι : Type} (run : ι → Prog ε σ α) : List ι → σ → List (Record ε ι α) × σ
  | [], s => ([], s)
  | i :: rest, s =>
    let (records, last) := session run rest ((run i).after s)
    ((i, (run i).answer s) :: records, last)

theorem answer_of_ok {a : α} (h : m s = .ok a s') : m.answer s = .ok a := by
  simp only [answer, h]

theorem after_of_ok {a : α} (h : m s = .ok a s') : m.after s = s' := by
  simp only [after, h]

theorem answer_of_error {e : Failure ε} (h : m s = .error e s') : m.answer s = .error e := by
  simp only [answer, h]

theorem after_of_error {e : Failure ε} (h : m s = .error e s') : m.after s = s' := by
  simp only [after, h]

@[simp] theorem after_map (g : α → β) (m : Prog ε σ α) (s : σ) : (g <$> m).after s = m.after s := by
  cases h : m s with
  | ok a s' => rw [after_of_ok (map_ok h g), after_of_ok h]
  | error e s' => rw [after_of_error (map_error h g), after_of_error h]

/-- What holds however the program ends is a statement about the state it leaves. -/
theorem ends_iff_after {P : σ → Prop} :
    m.Ends s (fun _ s' => P s') (fun _ s' => P s') ↔ P (m.after s) := by
  unfold Ends after
  cases m s <;> exact Iff.rfl

/-- How a program ends, read off its answer and the state it leaves. -/
theorem Ends.cases (h : m.Ends s Q E) :
    (∃ a, m.answer s = .ok a ∧ Q a (m.after s)) ∨
      ∃ e, m.answer s = .error e ∧ E e (m.after s) := by
  rcases h.run_eq with ⟨a, s', heq, h⟩ | ⟨e, s', heq, h⟩
  · exact .inl ⟨a, answer_of_ok heq, by rw [after_of_ok heq]; exact h⟩
  · exact .inr ⟨e, answer_of_error heq, by rw [after_of_error heq]; exact h⟩

theorem session_cons {ι : Type} (run : ι → Prog ε σ α) (i : ι) (rest : List ι) (s : σ) :
    session run (i :: rest) s =
      ((i, (run i).answer s) :: (session run rest ((run i).after s)).1,
        (session run rest ((run i).after s)).2) := rfl

/-- The records of a session are about its steps. -/
theorem map_fst_session {ι : Type} (run : ι → Prog ε σ α) (steps : List ι) (s : σ) :
    (session run steps s).1.map Prod.fst = steps := by
  induction steps generalizing s with
  | nil => rfl
  | cons i rest ih => rw [session_cons, List.map_cons, ih]

/-- What every step keeps is kept by every session. -/
theorem session_induct {ι : Type} {run : ι → Prog ε σ α} (P : σ → Prop)
    (step : ∀ i s, P s → P ((run i).after s)) (steps : List ι) {s : σ} (h : P s) :
    P (session run steps s).2 := by
  induction steps generalizing s with
  | nil => exact h
  | cons i rest ih => exact ih (step i s h)

end Prog

/-! ## Hosts -/

/-- A line of the log changes nothing but the log. -/
theorem Host.trace_ends {ε β : Type} {text : Unit → String} {f : Unit → Prog ε Host β} {host : Host}
    {Q : β → Host → Prop} {E : Failure ε → Host → Prop}
    (k : ∀ log, (f ()).Ends ⟨host.heap, log⟩ Q E) : (Host.trace text >>= f).Ends host Q E :=
  k _

namespace Hosted

variable {ε C α β : Type} {c : C} {host : Host}

theorem trace_ends {text : Unit → String} {f : Unit → Hosted ε C β} {Q : β → C × Host → Prop}
    {E : Failure ε → C × Host → Prop} (k : ∀ log, (f ()).Ends (c, ⟨host.heap, log⟩) Q E) :
    (trace text >>= f).Ends (c, host) Q E :=
  k _

theorem object_eq (c : C) (host : Host) : (object : Hosted ε C C) (c, host) = .ok c (c, host) := rfl

theorem update_eq (g : C → C) (c : C) (host : Host) :
    (update g : Hosted ε C Unit) (c, host) = .ok () (g c, host) := rfl

/-- A program of the host alone leaves the object as it is. -/
theorem onHost_ends {m : Prog ε Host α} {Q : α → Host → Prop} {E : Failure ε → Host → Prop}
    (h : m.Ends host Q E) :
    (onHost m).Ends (c, host) (fun a s => ∃ host', s = (c, host') ∧ Q a host')
      (fun e s => ∃ host', s = (c, host') ∧ E e host') := by
  rcases h.run_eq with ⟨a, host', heq, h⟩ | ⟨e, host', heq, h⟩
  · exact Prog.Ends.of_ok (by simp only [onHost, heq]) ⟨host', rfl, h⟩
  · exact Prog.Ends.of_error (by simp only [onHost, heq]) ⟨host', rfl, h⟩

end Hosted

-- Unfolded, a statement about how a program ends would run the program: only the laws open it.
attribute [irreducible] Prog.Ends

end AlignedSlots
