import Mathlib
import AlignedSlots.Proofs.Probe.Runs
import AlignedSlots.Proofs.Probe.Settling

/-!
# What settling makes of a row

With distinct keys, settling does little.  An entry that is taken out and put in again finds the slots on
the way to its own occupied, but for the one hole that the emptied slot has left behind: it goes there if
the hole is on its way, and the hole moves to where it was, or it comes back to its own slot.
`Row.Closing` is what holds in between, and `Row.Settles.closing` says how far it gets: to the end of the
run of the emptied slot, and no further.

Where nothing is out of place, settling changes nothing at all; that is `Row.Settles.eq_self`.
-/

namespace AlignedSlots

namespace Row

open Cyclic

variable {κ ν : Type} {c e n p g : Nat} {row₀ row row' mid : Row κ ν} {keying : Keying κ}
  {answer : Option ν}

/-! ## Putting an entry in again -/

/-- The row with its entry at `p` taken out and put in again is the row as it was. -/
theorem update_cleared_self (row : Row κ ν) (p : Nat) :
    Function.update (cleared row p) p (row p) = row := by
  unfold cleared
  rw [Function.update_idem, Function.update_eq_self]

/-- With distinct keys, an entry that was taken out passes the occupied slots on its way. -/
theorem Distinct.lands_cleared (h : Distinct keying c row) (hp : p < c) (hfull : (row p).hash ≠ 0)
    {q : Nat} (hq : q < c) (hempty : (Row.cleared row p q).hash = 0)
    (hway : ∀ s < c, steps c (home c (row p).hash) s < steps c (home c (row p).hash) q →
      (Row.cleared row p s).hash ≠ 0) :
    Lands keying c (Row.cleared row p) (row p).hash (row p).key (.vacant q) := by
  refine ⟨hq, hempty, fun s hs hlt => ?_⟩
  exact ⟨hway s hs hlt, h.not_matches_cleared hp hfull hs (hway s hs hlt)⟩

/-- **Where nothing is out of place**, settling changes nothing: every entry comes back to its slot. -/
theorem Settles.eq_self (hsettles : Settles keying c p row row') (hp : p < c)
    (hprobing : Probing keying c row) (hdistinct : Distinct keying c row) : row' = row := by
  induction hsettles with
  | done _ => rfl
  | @step p row mid row' answer hfull hplaced _ ih =>
    have hlands : Lands keying c (cleared row p) (row p).hash (row p).key (.vacant p) := by
      refine hdistinct.lands_cleared hp hfull hp (cleared_self row p) fun s hs hlt => ?_
      have hsp : s ≠ p := by
        rintro rfl
        exact Nat.lt_irrefl _ hlt
      rw [cleared_of_ne hsp]
      exact hprobing.reached p hp hfull s hs hlt
    have hmid : mid = row := (hplaced.of_vacant hlands).2.trans (update_cleared_self row p)
    subst hmid
    exact ih (next_lt (Nat.zero_lt_of_lt hp)) hprobing hdistinct

/-- Emptying a slot again that has just been filled puts nothing out of place. -/
theorem cleared_update_same {q : Nat} (hempty : (row q).hash = 0) (entry : Entry κ ν) (i : Nat) :
    (cleared (Function.update row q entry) q i).hash = (row i).hash ∧
      ((row i).hash ≠ 0 → (cleared (Function.update row q entry) q i).key = (row i).key) := by
  by_cases hi : i = q
  · subst hi
    rw [cleared_self, hempty]
    exact ⟨rfl, fun hfull => absurd rfl hfull⟩
  · rw [cleared_of_ne hi, Function.update_of_ne hi]
    exact ⟨rfl, fun _ => rfl⟩

/-- Among the given slots and the one behind them, an entry moves from the last one into an empty one. -/
theorem gather_moved {slots : List Nat} (hnodup : slots.Nodup) (hg : g ∈ slots) (hp : p ∉ slots)
    (hempty : (row g).hash = 0) (hfull : (row p).hash ≠ 0) :
    (gather (slots ++ [p]) (Function.update (cleared row p) g (row p))).Perm
      (gather slots row ++ [row p]) := by
  have hgp : g ≠ p := fun heq => hp (heq ▸ hg)
  have hgone : (Function.update (cleared row p) g (row p) p).hash = 0 := by
    rw [Function.update_of_ne hgp.symm]
    exact cleared_self row p
  have hvacant : (cleared row p g).hash = 0 := by
    rw [cleared_of_ne hgp]
    exact hempty
  have hfill := gather_fill (row p) hnodup hg hvacant hfull
  unfold cleared at hfill
  rw [gather_update_of_notMem hp] at hfill
  rw [gather_append, gather_cons_of_empty [] hgone]
  show (gather slots _ ++ []).Perm _
  rw [List.append_nil]
  exact hfill.trans (List.perm_append_singleton _ _).symm

/-! ## The hole that moves -/

/-- What holds after slot `e` of `row₀` was emptied and the `n` slots behind it were settled: slot `g`
is the one hole among them. -/
structure Closing (keying : Keying κ) (c : Nat) (row₀ row : Row κ ν) (e n g : Nat) : Prop where
  sweeping : Sweeping keying c row e n
  distinct : Distinct keying c row
  hole_lt : g < c
  hole_le : steps c e g ≤ n
  hole_empty : (row g).hash = 0
  full : ∀ s < c, steps c e s ≤ n → s ≠ g → (row s).hash ≠ 0
  beyond : ∀ s < c, n < steps c e s → row s = row₀ s
  /-- The entries behind the emptied slot are still in these slots, each once. -/
  held : (gather (arc c e (n + 1)) row).Perm (gather (arc c (next c e) n) row₀)
  /-- Every entry but the one that was erased is in a slot that is no further from its home slot. -/
  closer : ∀ i < c, i ≠ e → (row₀ i).hash ≠ 0 → ∃ j < c, row j = row₀ i ∧
    steps c (home c (row₀ i).hash) j ≤ steps c (home c (row₀ i).hash) i

/-- At first the hole is the emptied slot. -/
theorem Probing.closing (hprobing : Probing keying c row₀) (hdistinct : Distinct keying c row₀)
    (he : e < c) : Closing keying c row₀ (cleared row₀ e) e 0 e := by
  have hself := steps_self c e
  refine ⟨hprobing.sweeping he, hdistinct.cleared e, he, Nat.le_of_eq hself, cleared_self row₀ e, ?_,
    ?_, ?_, ?_⟩
  · intro s hs hle hne
    exact absurd (eq_of_steps_eq hs he he (by omega)) hne
  · intro s hs hlt
    have hne : s ≠ e := by
      rintro rfl
      omega
    exact cleared_of_ne hne row₀
  · rw [arc_one he, gather_cons_of_empty [] (cleared_self row₀ e)]
    exact List.Perm.refl _
  · intro i hi hne hfull
    exact ⟨i, hi, cleared_of_ne hne row₀, Nat.le_refl _⟩

namespace Closing

/-- Every slot on the way to the next entry is occupied, but for the hole. -/
theorem full_on_way (h : Closing keying c row₀ row e n g) (hp : p < c) (hfull : (row p).hash ≠ 0)
    {s : Nat} (hs : s < c) (hne : s ≠ g)
    (hlt : steps c (home c (row p).hash) s < steps c (home c (row p).hash) p) :
    (cleared row p s).hash ≠ 0 := by
  have hsp : s ≠ p := by
    rintro rfl
    exact Nat.lt_irrefl _ hlt
  rw [cleared_of_ne hsp]
  rcases h.sweeping.reached p hp hfull s hs hlt with hok | ⟨hle, _⟩
  · exact hok
  · exact h.full s hs hle hne

/-- **The next entry** goes to the hole, if that is on its way, and otherwise comes back to its slot. -/
theorem placed (h : Closing keying c row₀ row e n g) (hp : p < c) (hfull : (row p).hash ≠ 0)
    (hplaced : Placed keying c (cleared row p) (row p) answer mid) :
    mid = row ∨ steps c (home c (row p).hash) g < steps c (home c (row p).hash) p ∧
      mid = Function.update (cleared row p) g (row p) := by
  have hgp : g ≠ p := by
    rintro rfl
    exact hfull h.hole_empty
  by_cases hway : steps c (home c (row p).hash) g < steps c (home c (row p).hash) p
  · refine .inr ⟨hway, (hplaced.of_vacant ?_).2⟩
    refine h.distinct.lands_cleared hp hfull h.hole_lt ?_ fun s hs hlt => ?_
    · rw [cleared_of_ne hgp]
      exact h.hole_empty
    · have hsg : s ≠ g := by
        rintro rfl
        exact Nat.lt_irrefl _ hlt
      exact h.full_on_way hp hfull hs hsg (Nat.lt_trans hlt hway)
  · have hlands : Lands keying c (cleared row p) (row p).hash (row p).key (.vacant p) := by
      refine h.distinct.lands_cleared hp hfull hp (cleared_self row p) fun s hs hlt => ?_
      have hsg : s ≠ g := by
        rintro rfl
        exact hway hlt
      exact h.full_on_way hp hfull hs hsg hlt
    exact .inl ((hplaced.of_vacant hlands).2.trans (update_cleared_self row p))

/-- The entry came back: the hole stays where it is. -/
theorem stay (h : Closing keying c row₀ row e n g) (he : e < c) (hp : p < c)
    (hn : steps c e p = n + 1) (hfull : (row p).hash ≠ 0) (hsweep : Sweeping keying c row e (n + 1)) :
    Closing keying c row₀ row e (n + 1) g := by
  refine ⟨hsweep, h.distinct, h.hole_lt, Nat.le_succ_of_le h.hole_le, h.hole_empty, ?_, ?_, ?_,
    h.closer⟩
  · intro s hs hle hne
    rcases Nat.lt_or_eq_of_le hle with hlt | heq
    · exact h.full s hs (Nat.le_of_lt_succ hlt) hne
    · rw [eq_of_steps_eq hs hp he (heq.trans hn.symm)]
      exact hfull
  · exact fun s hs hlt => h.beyond s hs (Nat.lt_of_succ_lt hlt)
  · have hsame : row p = row₀ p := h.beyond p hp (by omega)
    rw [arc_succ hp he hn, arc_succ hp (next_lt (Nat.zero_lt_of_lt hp)) (steps_from_next hp he hn),
      gather_append, gather_append, gather_cons_of_full [] hfull, gather_cons_of_full [] (hsame ▸ hfull),
      hsame]
    exact h.held.append_right _

/-- The entry went to the hole, which is now where the entry was. -/
theorem move (h : Closing keying c row₀ row e n g) (he : e < c) (hp : p < c)
    (hn : steps c e p = n + 1) (hfull : (row p).hash ≠ 0)
    (hnear : steps c (home c (row p).hash) g < steps c (home c (row p).hash) p)
    (hmid : mid = Function.update (cleared row p) g (row p))
    (hsweep : Sweeping keying c mid e (n + 1)) (hdistinct : Distinct keying c mid) :
    Closing keying c row₀ mid e (n + 1) p := by
  have hgp : g ≠ p := by
    rintro rfl
    exact hfull h.hole_empty
  have hround := steps_lt hp he
  have hg : mid g = row p := by rw [hmid, Function.update_self]
  have hpe : (mid p).hash = 0 := by
    rw [hmid, Function.update_of_ne hgp.symm]
    exact cleared_self row p
  have hother : ∀ s, s ≠ g → s ≠ p → mid s = row s := by
    intro s hsg hsp
    rw [hmid, Function.update_of_ne hsg, cleared_of_ne hsp]
  refine ⟨hsweep, hdistinct, hp, Nat.le_of_eq hn, hpe, ?_, ?_, ?_, ?_⟩
  · intro s hs hle hne
    have hle : steps c e s ≤ n := by
      have hsteps : steps c e s ≠ steps c e p := fun heq => hne (eq_of_steps_eq hs hp he heq)
      omega
    by_cases hsg : s = g
    · rw [hsg, hg]
      exact hfull
    · rw [hother s hsg hne]
      exact h.full s hs hle hsg
  · intro s hs hlt
    have hsp : s ≠ p := by
      rintro rfl
      omega
    have hsg : s ≠ g := by
      rintro rfl
      have hle := h.hole_le
      omega
    rw [hother s hsg hsp]
    exact h.beyond s hs (by omega)
  · have hsame : row p = row₀ p := h.beyond p hp (by omega)
    have hmem : g ∈ arc c e (n + 1) :=
      (mem_arc he (by omega)).mpr ⟨h.hole_lt, Nat.lt_succ_of_le h.hole_le⟩
    have hnot : p ∉ arc c e (n + 1) := fun hmem => by
      have hlt := ((mem_arc he (by omega)).mp hmem).2
      omega
    rw [arc_succ hp he hn, arc_succ hp (next_lt (Nat.zero_lt_of_lt hp)) (steps_from_next hp he hn),
      gather_append _ _ row₀, gather_cons_of_full [] (hsame ▸ hfull), ← hsame, hmid]
    have hmoved := gather_moved (nodup_arc he (by omega)) hmem hnot h.hole_empty hfull
    exact hmoved.trans (h.held.append_right _)
  · intro i hi hne hfi
    obtain ⟨j, hj, heq, hle⟩ := h.closer i hi hne hfi
    by_cases hjp : j = p
    · subst hjp
      rw [heq] at hnear hg
      exact ⟨g, h.hole_lt, hg, Nat.le_trans (Nat.le_of_lt hnear) hle⟩
    · have hjg : j ≠ g := by
        rintro rfl
        rw [← heq] at hfi
        exact hfi h.hole_empty
      exact ⟨j, hj, (hother j hjg hjp).trans heq, hle⟩

/-- **One step of settling.** -/
theorem step {z : Nat} (h : Closing keying c row₀ row e n g)
    (hsymm : ∀ a b, keying.same a b = keying.same b a) (he : e < c) (hp : p < c)
    (hn : steps c e p = n + 1) (hfull : (row p).hash ≠ 0) (hz : z < c) (hzempty : (row z).hash = 0)
    (hzn : n + 1 < steps c e z) (hplaced : Placed keying c (cleared row p) (row p) answer mid) :
    ∃ g', Closing keying c row₀ mid e (n + 1) g' := by
  have hsweep := h.sweeping.step he hp hn hfull hz hzempty hzn hplaced
  have hdistinct : Distinct keying c mid := hplaced.distinct hsymm (h.distinct.cleared p)
    fun _ _ i hi hfi => h.distinct.not_matches_cleared hp hfull hi hfi
  rcases h.placed hp hfull hplaced with rfl | ⟨hnear, hmid⟩
  · exact ⟨g, h.stay he hp hn hfull hsweep⟩
  · exact ⟨p, h.move he hp hn hfull hnear hmid hsweep hdistinct⟩

end Closing

/-- **Settling** goes on to the first empty slot `z` behind the emptied one, and closes up what is in
front of it. -/
theorem Settles.closing {z : Nat} (hsettles : Settles keying c p row row')
    (h : Closing keying c row₀ row e n g) (hsymm : ∀ a b, keying.same a b = keying.same b a)
    (he : e < c) (hp : p < c) (hn : steps c e p = n + 1) (hz : z < c) (hzempty : (row₀ z).hash = 0)
    (hzn : n < steps c e z) (hfirst : ∀ s < c, steps c e s < steps c e z → (row₀ s).hash ≠ 0) :
    ∃ m g', steps c e z = m + 1 ∧ Closing keying c row₀ row' e m g' := by
  induction hsettles generalizing n g with
  | @done p row hempty =>
    have hsame : row p = row₀ p := h.beyond p hp (by omega)
    refine ⟨n, g, ?_, h⟩
    by_contra hne
    exact hfirst p hp (by omega) (hsame ▸ hempty)
  | @step p row mid row' answer hfull hplaced _ ih =>
    have hzp : steps c e z ≠ steps c e p := by
      intro heq
      obtain rfl := eq_of_steps_eq hz hp he heq
      rw [← h.beyond z hz hzn] at hzempty
      exact hfull hzempty
    have hround := steps_lt hz he
    have hzrow : (row z).hash = 0 := by
      rw [h.beyond z hz hzn]
      exact hzempty
    have hnext : steps c e (next c p) = n + 1 + 1 := by
      rw [steps_next hp he (by omega), hn]
    obtain ⟨g', hmid⟩ := h.step hsymm he hp hn hfull hz hzrow (by omega) hplaced
    exact ih hmid (next_lt (Nat.zero_lt_of_lt hp)) hnext (by omega)

end Row

end AlignedSlots
