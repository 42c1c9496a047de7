import Mathlib
import AlignedSlots.Proofs.Container.VisitorState

/-!
# Programs that are blind to the log

A program is blind to the log if all that it answers and leaves beside the log is the same for every log
that it starts with, and if it writes no line unless the greatest level is `trace`.  The laws here follow
the text of programs, as those of `Prog.Ends` do: a program that is made of blind ones is blind.
-/

namespace AlignedSlots

/-! ## Quiet changes of the log -/

namespace Log

/-- The greatest level is kept, and lines are only written at the level `trace`. -/
structure Quiet (log log' : Log) : Prop where
  ceiling_eq : log'.ceiling = log.ceiling
  unchanged : log.ceiling ≠ .trace → log' = log

variable {log log' log'' : Log}

theorem Quiet.refl (log : Log) : log.Quiet log := ⟨rfl, fun _ => rfl⟩

theorem Quiet.trans (h : log.Quiet log') (h' : log'.Quiet log'') : log.Quiet log'' := by
  refine ⟨h'.ceiling_eq.trans h.ceiling_eq, fun hceiling => ?_⟩
  have hsame := h.unchanged hceiling
  subst hsame
  exact h'.unchanged hceiling

theorem admits_trace (log : Log) : log.admits .trace = true ↔ log.ceiling = .trace := by
  unfold admits
  cases log.ceiling <;> decide

theorem quiet_record (log : Log) (text : Unit → String) : log.Quiet (log.record .trace text) := by
  unfold record
  split
  · next hadmits =>
    exact ⟨rfl, fun hceiling => absurd ((admits_trace log).mp hadmits) hceiling⟩
  · exact .refl log

end Log

/-! ## Blind programs -/

namespace Prog

variable {ε ε' ρ ρ' σ σ' α β : Type}

/-- A result on all but the log, with a log put back. -/
def withLog (join : ρ → Log → σ) (log : Log) :
    EStateM.Result (Failure ε) ρ α → EStateM.Result (Failure ε) σ α
  | .ok a r => .ok a (join r log)
  | .error e r => .error e (join r log)

/-- On the rest `r` of its state the program has one result for all logs, and it changes every log
quietly. -/
def BlindAt (join : ρ → Log → σ) (m : Prog ε σ α) (r : ρ) : Prop :=
  ∃ result : EStateM.Result (Failure ε) ρ α, ∀ log, ∃ log', log.Quiet log' ∧
    m (join r log) = withLog join log' result

/-- **The program is blind to the log** that `join` puts beside the rest of its state. -/
def Blind (join : ρ → Log → σ) (m : Prog ε σ α) : Prop := ∀ r, m.BlindAt join r

section Laws

variable {join : ρ → Log → σ} {join' : ρ' → Log → σ'} {m : Prog ε σ α} {f : α → Prog ε σ β}

/-- The program does not look at the log at all. -/
theorem BlindAt.of_eq {r : ρ} (result : EStateM.Result (Failure ε) ρ α)
    (h : ∀ log, m (join r log) = withLog join log result) : m.BlindAt join r :=
  ⟨result, fun log => ⟨log, .refl log, h log⟩⟩

/-- A program that runs another one on a part of its state.  What it makes of the result is `ok` and
`error`. -/
theorem BlindAt.within {r : ρ} {r' : ρ'} {m' : Prog ε' σ' β} (h : m.BlindAt join r)
    (ok : α → ρ → EStateM.Result (Failure ε') ρ' β)
    (error : Failure ε → ρ → EStateM.Result (Failure ε') ρ' β)
    (hok : ∀ a s log log', m (join r log) = .ok a (join s log') →
      m' (join' r' log) = withLog join' log' (ok a s))
    (herror : ∀ e s log log', m (join r log) = .error e (join s log') →
      m' (join' r' log) = withLog join' log' (error e s)) : m'.BlindAt join' r' := by
  obtain ⟨result, hresult⟩ := h
  cases result with
  | ok a s =>
    refine ⟨ok a s, fun log => ?_⟩
    obtain ⟨log', hquiet, hrun⟩ := hresult log
    exact ⟨log', hquiet, hok a s log log' hrun⟩
  | error e s =>
    refine ⟨error e s, fun log => ?_⟩
    obtain ⟨log', hquiet, hrun⟩ := hresult log
    exact ⟨log', hquiet, herror e s log log' hrun⟩

namespace Blind

theorem pure (a : α) : (Pure.pure a : Prog ε σ α).Blind join :=
  fun r => .of_eq (.ok a r) fun _ => rfl

theorem fail (e : ε) : (Prog.fail e : Prog ε σ α).Blind join :=
  fun r => .of_eq (.error (.error e) r) fun _ => rfl

theorem crash (e : Fault) : (Prog.crash e : Prog ε σ α).Blind join :=
  fun r => .of_eq (.error (.fault e) r) fun _ => rfl

/-- What would come after an error does not matter. -/
theorem fail_bind (e : ε) (f : α → Prog ε σ β) : (Prog.fail e >>= f).Blind join :=
  fun r => .of_eq (.error (.error e) r) fun _ => rfl

theorem crash_bind (e : Fault) (f : α → Prog ε σ β) : (Prog.crash e >>= f).Blind join :=
  fun r => .of_eq (.error (.fault e) r) fun _ => rfl

theorem ofChecked (x : Except Fault α) : (Prog.ofChecked x : Prog ε σ α).Blind join := by
  cases x with
  | ok a => exact pure a
  | error e => exact crash e

theorem lift (x : Except Fault α) : (liftM x : Prog ε σ α).Blind join := by
  cases x with
  | ok a => exact pure a
  | error e => exact crash e

theorem lift_failure (x : Except (Failure ε) α) : (liftM x : Prog ε σ α).Blind join := by
  intro r
  cases x with
  | ok a => exact .of_eq (.ok a r) fun _ => rfl
  | error e => exact .of_eq (.error e r) fun _ => rfl

/-- The second program starts with the log that the first one leaves. -/
theorem bind (hm : m.Blind join) (hf : ∀ a, (f a).Blind join) : (m >>= f).Blind join := by
  intro r
  obtain ⟨result, hresult⟩ := hm r
  cases result with
  | ok a r' =>
    obtain ⟨result', hresult'⟩ := hf a r'
    refine ⟨result', fun log => ?_⟩
    obtain ⟨log', hquiet, hrun⟩ := hresult log
    obtain ⟨log'', hquiet', hrun'⟩ := hresult' log'
    exact ⟨log'', hquiet.trans hquiet', (bind_ok hrun).trans hrun'⟩
  | error e r' =>
    refine ⟨.error e r', fun log => ?_⟩
    obtain ⟨log', hquiet, hrun⟩ := hresult log
    exact ⟨log', hquiet, bind_error hrun⟩

/-- Whichever way it goes. -/
theorem ite {c : Prop} [Decidable c] {m' : Prog ε σ α} (h : m.Blind join) (h' : m'.Blind join) :
    (if c then m else m').Blind join := by
  split
  · exact h
  · exact h'

theorem map (h : m.Blind join) (g : α → β) : (g <$> m).Blind join := by
  intro r
  refine (h r).within (fun a s => .ok (g a) s) (fun e s => .error e s) ?_ ?_
  all_goals
    intro _ s log log' hrun
    show EStateM.map g m (join r log) = _
    simp only [EStateM.map, hrun]
    rfl

theorem mapError (h : m.Blind join) (g : ε → ε') : (Prog.mapError g m).Blind join := by
  intro r
  refine (h r).within (fun a s => .ok a s) (fun e s => .error (e.map g) s) ?_ ?_
  all_goals
    intro _ s log log' hrun
    simp only [Prog.mapError, hrun]
    rfl

end Blind

end Laws

end Prog

/-! ## Programs of a host -/

/-- The program is blind to the log of its host. -/
abbrev Host.Blind {ε α : Type} (m : Prog ε Host α) : Prop := m.Blind Host.mk

/-- The host of an object, given by its heap and its log. -/
def Hosted.join {C : Type} (s : C × Heap) (log : Log) : C × Host := (s.1, ⟨s.2, log⟩)

/-- The program of an object is blind to the log of its host. -/
abbrev Hosted.Blind {ε C α : Type} (m : Hosted ε C α) : Prop := Prog.Blind Hosted.join m

namespace Host

variable {ε : Type}

/-- A trace point may write its line, and does nothing else. -/
theorem blind_trace (text : Unit → String) : Blind (trace text : Prog ε Host Unit) :=
  fun heap => ⟨.ok () heap, fun log => ⟨log.record .trace text, log.quiet_record text, rfl⟩⟩

theorem blind_request (size : Nat) : Blind (request size : Prog ε Host (Option RawBlock)) :=
  fun heap => .of_eq (.ok (heap.request size).1 (heap.request size).2) fun _ => rfl

theorem blind_free (base : Nat) : Blind (free base : Prog ε Host Unit) :=
  fun heap => .of_eq (.ok () (heap.free base)) fun _ => rfl

end Host

namespace Prog.Blind

variable {ε C ν α β : Type}

theorem onHost {m : Prog ε Host α} (h : Host.Blind m) :
    Hosted.Blind (Hosted.onHost m : Hosted ε C α) := by
  rintro ⟨c, heap⟩
  refine (h heap).within (fun a heap => .ok a (c, heap)) (fun e heap => .error e (c, heap)) ?_ ?_
  all_goals
    intro _ heap' log log' hrun
    show Hosted.onHost m (c, ⟨heap, log⟩) = _
    simp only [Hosted.onHost, hrun]
    rfl

theorem onObject {m : Hosted ε C β} (h : Hosted.Blind m) :
    Hosted.Blind (Hosted.onObject m : Hosted ε (C × ν) β) := by
  rintro ⟨⟨c, n⟩, heap⟩
  refine (h (c, heap)).within (fun b t => .ok b ((t.1, n), t.2))
    (fun e t => .error e ((t.1, n), t.2)) ?_ ?_
  all_goals
    intro _ t log log' hrun
    have hrun : m (c, ⟨heap, log⟩) = _ := hrun
    show Hosted.onObject m ((c, n), ⟨heap, log⟩) = _
    simp only [Hosted.onObject, hrun]
    rfl

end Prog.Blind

namespace Hosted

variable {ε C ν α β : Type}

theorem blind_trace (text : Unit → String) : Blind (trace text : Hosted ε C Unit) :=
  (Host.blind_trace text).onHost

/-- A program that changes the object and nothing else. -/
theorem blind_of_change {m : Hosted ε C α} (a : C → α) (g : C → C)
    (h : ∀ c host, m (c, host) = .ok (a c) (g c, host)) : Blind m :=
  fun s => .of_eq (.ok (a s.1) (g s.1, s.2)) fun log => h s.1 ⟨s.2, log⟩

theorem blind_object : Blind (object : Hosted ε C C) := blind_of_change id id fun _ _ => rfl

theorem blind_update (g : C → C) : Blind (update g : Hosted ε C Unit) :=
  blind_of_change (fun _ => ()) g fun _ _ => rfl

/-- A question to the object. -/
theorem blind_of_question {m : Hosted ε C α} (f : C → Except (Failure ε) α)
    (hok : ∀ c host a, f c = .ok a → m (c, host) = .ok a (c, host))
    (herror : ∀ c host e, f c = .error e → m (c, host) = .error e (c, host)) : Blind m := by
  rintro ⟨c, heap⟩
  cases hf : f c with
  | ok a => exact .of_eq (.ok a (c, heap)) fun log => hok c ⟨heap, log⟩ a hf
  | error e => exact .of_eq (.error e (c, heap)) fun log => herror c ⟨heap, log⟩ e hf

/-! ### Beside the state of visitors -/

theorem blind_offHost (m : Prog ε (C × ν) β) : Blind (offHost m) := by
  rintro ⟨s, heap⟩
  cases hrun : m s with
  | ok b s' =>
    refine .of_eq (.ok b (s', heap)) fun log => ?_
    simp only [join, offHost, hrun]
    rfl
  | error e s' =>
    refine .of_eq (.error e (s', heap)) fun log => ?_
    simp only [join, offHost, hrun]
    rfl

theorem blind_reading (m : C → Prog ε ν β) : Blind (reading m) := by
  rintro ⟨⟨c, n⟩, heap⟩
  cases hrun : m c n with
  | ok b n' =>
    refine .of_eq (.ok b ((c, n'), heap)) fun log => ?_
    simp only [join, reading, hrun]
    rfl
  | error e n' =>
    refine .of_eq (.error e ((c, n'), heap)) fun log => ?_
    simp only [join, reading, hrun]
    rfl

theorem blind_asking (f : C → Except (Failure ε) β) : Blind (asking f : Hosted ε (C × ν) β) := by
  refine blind_of_question (fun s => f s.1) ?_ ?_
  all_goals
    intro c host _ hf
    simp only [asking, hf]

end Hosted

end AlignedSlots
