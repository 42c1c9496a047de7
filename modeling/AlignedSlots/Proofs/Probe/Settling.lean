import Mathlib
import AlignedSlots.Proofs.Probe.Row

/-!
# Settling a row

When a slot is emptied, the entries behind it may no longer be found.  Settling takes out and puts in
again every entry from the next slot on, up to the next empty slot.  `Row.Settles` is that as a relation
between rows, and `Row.Sweeping` is what holds in between: seen from the emptied slot `e`, a probe can
only miss an empty slot among the first `n` behind `e`, and only on the way to an entry past them.

The main statements are `Row.Settles.probing`, which says that the probing invariant holds again in the
end, and `Row.Settles.contents`, which says that no entry is lost.
-/

namespace AlignedSlots

namespace Row

open Cyclic

variable {κ ν : Type} {c e n p : Nat} {row row' : Row κ ν} {keying : Keying κ}

/-- The row with one slot emptied: only its hash is cleared. -/
def cleared (row : Row κ ν) (q : Nat) : Row κ ν := Function.update row q { row q with hash := 0 }

theorem cleared_self (row : Row κ ν) (q : Nat) : (cleared row q q).hash = 0 := by
  unfold cleared
  rw [Function.update_self]

theorem cleared_of_ne {i q : Nat} (h : i ≠ q) (row : Row κ ν) : cleared row q i = row i :=
  Function.update_of_ne h _ _

theorem hash_cleared_ne_zero {i q : Nat} (h : (cleared row q i).hash ≠ 0) : i ≠ q := by
  rintro rfl
  exact h (cleared_self row i)

/-- Takes out and puts in again the entries from slot `p` to the next empty slot. -/
inductive Settles (keying : Keying κ) (c : Nat) : Nat → Row κ ν → Row κ ν → Prop
  | done {p : Nat} {row : Row κ ν} : (row p).hash = 0 → Settles keying c p row row
  | step {p : Nat} {row mid row' : Row κ ν} {answer : Option ν} : (row p).hash ≠ 0 →
      Placed keying c (cleared row p) (row p) answer mid →
      Settles keying c (next c p) mid row' → Settles keying c p row row'

/-- What holds after slot `e` was emptied and the `n` slots behind it were settled. -/
structure Sweeping (keying : Keying κ) (c : Nat) (row : Row κ ν) (e n : Nat) : Prop where
  hashed : ∀ i < c, (row i).hash ≠ 0 → (row i).hash = keying.hash (row i).key
  reached : ∀ i < c, (row i).hash ≠ 0 → ∀ s < c,
    steps c (home c (row i).hash) s < steps c (home c (row i).hash) i →
    (row s).hash ≠ 0 ∨ (steps c e s ≤ n ∧ n < steps c e i)

theorem Probing.sweeping (h : Probing keying c row) (he : e < c) :
    Sweeping keying c (cleared row e) e 0 := by
  constructor
  · intro i hi hfull
    have hie := hash_cleared_ne_zero hfull
    rw [cleared_of_ne hie] at hfull ⊢
    exact h.hashed i hi hfull
  · intro i hi hfull s hs hlt
    have hie := hash_cleared_ne_zero hfull
    rw [cleared_of_ne hie] at hfull hlt
    by_cases hse : s = e
    · right
      subst hse
      have hself := steps_self c s
      have hpos : steps c s i ≠ steps c s s := fun heq => hie (eq_of_steps_eq hi hs hs heq)
      rw [hself] at hpos ⊢
      exact ⟨Nat.le_refl 0, Nat.pos_of_ne_zero hpos⟩
    · left
      rw [cleared_of_ne hse]
      exact h.reached i hi hfull s hs hlt

/-- At an empty slot the sweep is over: no probe misses a slot any more. -/
theorem Sweeping.probing (h : Sweeping keying c row e n) (he : e < c) (hp : p < c)
    (hn : steps c e p = n + 1) (hempty : (row p).hash = 0) : Probing keying c row := by
  refine ⟨h.hashed, fun i hi hfull s hs hlt => ?_⟩
  rcases h.reached i hi hfull s hs hlt with hok | ⟨hsn, hni⟩
  · exact hok
  · -- The way to `i` passes the hole `s` and then `p`, which is behind the swept slots.
    have hhome : home c (row i).hash < c := home_lt (by omega) _
    have hip : i ≠ p := by
      rintro rfl
      exact hfull hempty
    have hne : steps c e i ≠ steps c e p := fun heq => hip (eq_of_steps_eq hi hp he heq)
    have hbefore := steps_lt_of_between he hhome hi hp (by omega) (by omega) hlt
    rcases h.reached i hi hfull p hp hbefore with hfullp | ⟨hpn, _⟩
    · exact absurd hempty hfullp
    · omega

/-- An empty slot that the sweep has not come to stays empty. -/
theorem Sweeping.stays_empty {z : Nat} {mid : Row κ ν} {answer : Option ν}
    (h : Sweeping keying c row e n) (hp : p < c) (hfull : (row p).hash ≠ 0)
    (hz : z < c) (hzempty : (row z).hash = 0) (hzn : n < steps c e z)
    (hplaced : Placed keying c (cleared row p) (row p) answer mid) : (mid z).hash = 0 := by
  have hzp : z ≠ p := by
    rintro rfl
    exact hfull hzempty
  cases hplaced with
  | occupied q _ =>
    rw [(update_value_same (cleared row p) q (row p).value z).1, cleared_of_ne hzp]
    exact hzempty
  | vacant q hlands =>
    obtain ⟨hq, _, hpassed⟩ := hlands
    have hzq : z ≠ q := by
      -- The probe ends at `p` at the latest, and every slot before `p` that is not swept is full.
      rintro rfl
      have hhome : home c (row p).hash < c := home_lt (by omega) _
      have hne : steps c (home c (row p).hash) z ≠ steps c (home c (row p).hash) p :=
        fun heq => hzp (eq_of_steps_eq hz hp hhome heq)
      rcases Nat.lt_or_gt_of_ne hne with hlt | hgt
      · rcases h.reached p hp hfull z hz hlt with hfz | ⟨hle, _⟩
        · exact hfz hzempty
        · omega
      · exact (hpassed p hp hgt).1 (cleared_self row p)
    rw [Function.update_of_ne hzq, cleared_of_ne hzp]
    exact hzempty

/-- With the entry in slot `p` taken out, the way to an entry that stays may have lost the slot `p`. -/
theorem Sweeping.reached_cleared {z : Nat} (h : Sweeping keying c row e n) (he : e < c) (hp : p < c)
    (hn : steps c e p = n + 1) (hz : z < c) (hzempty : (row z).hash = 0) (hzn : n + 1 < steps c e z)
    {i : Nat} (hi : i < c) (hfull : (cleared row p i).hash ≠ 0) {s : Nat} (hs : s < c)
    (hlt : steps c (home c (cleared row p i).hash) s < steps c (home c (cleared row p i).hash) i) :
    (cleared row p s).hash ≠ 0 ∨ (steps c e s ≤ n + 1 ∧ n + 1 < steps c e i) := by
  have hip := hash_cleared_ne_zero hfull
  rw [cleared_of_ne hip] at hfull hlt
  have hhome : home c (row i).hash < c := home_lt (by omega) _
  have hne : steps c e i ≠ steps c e p := fun heq => hip (eq_of_steps_eq hi hp he heq)
  by_cases hsp : s = p
  · subst hsp
    right
    refine ⟨by omega, ?_⟩
    by_contra hle
    -- Otherwise the way to `i` goes once around, over the empty slot `z`.
    have hbefore := steps_lt_of_order he hhome hi hz (by omega) (by omega) hlt
    rcases h.reached i hi hfull z hz hbefore with hfz | ⟨hzle, _⟩
    · exact hfz hzempty
    · omega
  · rw [cleared_of_ne hsp]
    rcases h.reached i hi hfull s hs hlt with hok | ⟨hsn, hni⟩
    · exact .inl hok
    · exact .inr ⟨by omega, by omega⟩

theorem Sweeping.hashed_cleared (h : Sweeping keying c row e n) (p : Nat) {i : Nat} (hi : i < c)
    (hfull : (cleared row p i).hash ≠ 0) :
    (cleared row p i).hash = keying.hash (cleared row p i).key := by
  have hip := hash_cleared_ne_zero hfull
  rw [cleared_of_ne hip] at hfull ⊢
  exact h.hashed i hi hfull

/-- **One step of the sweep**: the entry in slot `p` is taken out and put in again. -/
theorem Sweeping.step {z : Nat} {mid : Row κ ν} {answer : Option ν}
    (h : Sweeping keying c row e n) (he : e < c) (hp : p < c) (hn : steps c e p = n + 1)
    (hfull : (row p).hash ≠ 0) (hz : z < c) (hzempty : (row z).hash = 0)
    (hzn : n + 1 < steps c e z) (hplaced : Placed keying c (cleared row p) (row p) answer mid) :
    Sweeping keying c mid e (n + 1) := by
  cases hplaced with
  | occupied q _ =>
    -- The entry is lost to one with the same key, of which only the value changes.
    have hsame := update_value_same (cleared row p) q (row p).value
    constructor
    · intro i hi hfi
      rw [(hsame i).1] at hfi ⊢
      rw [(hsame i).2]
      exact h.hashed_cleared p hi hfi
    · intro i hi hfi s hs hlt
      rw [(hsame i).1] at hfi hlt
      rw [(hsame s).1]
      exact h.reached_cleared he hp hn hz hzempty hzn hi hfi hs hlt
  | vacant q hlands =>
    obtain ⟨hq, hqempty, hpassed⟩ := hlands
    constructor
    · intro i hi hfi
      by_cases hiq : i = q
      · subst hiq
        rw [Function.update_self]
        exact h.hashed p hp hfull
      · rw [Function.update_of_ne hiq] at hfi ⊢
        exact h.hashed_cleared p hi hfi
    · intro i hi hfi s hs hlt
      by_cases hsq : s = q
      · subst hsq
        left
        rw [Function.update_self]
        exact hfull
      rw [Function.update_of_ne hsq]
      by_cases hiq : i = q
      · -- The entry itself: its probe has just gone this way.
        subst hiq
        rw [Function.update_self] at hlt
        exact .inl (hpassed s hs hlt).1
      · rw [Function.update_of_ne hiq] at hfi hlt
        exact h.reached_cleared he hp hn hz hzempty hzn hi hfi hs hlt

/-- **Settling restores the probing invariant**, whatever the sameness of keys is. -/
theorem Settles.probing (hsettles : Settles keying c p row row') (h : Sweeping keying c row e n)
    (he : e < c) (hp : p < c) (hn : steps c e p = n + 1) {z : Nat} (hz : z < c)
    (hzempty : (row z).hash = 0) (hzn : n < steps c e z) : Probing keying c row' := by
  -- The empty slot `z` bounds the sweep: it stays empty, and the sweep stops there at the latest.
  induction hsettles generalizing n with
  | done hempty => exact h.probing he hp hn hempty
  | @step p row mid row' answer hfull hplaced _ ih =>
    have hzp : steps c e z ≠ steps c e p := by
      intro heq
      have hzp := eq_of_steps_eq hz hp he heq
      subst hzp
      exact hfull hzempty
    have hnext : steps c e (next c p) = n + 1 + 1 := by
      have := steps_lt hz he
      rw [steps_next hp he (by omega), hn]
    exact ih (h.step he hp hn hfull hz hzempty (by omega) hplaced) (next_lt (by omega)) hnext
      (h.stays_empty hp hfull hz hzempty hzn hplaced) (by omega)

/-! ## Settling loses nothing -/

theorem length_contents_cleared (hp : p < c) (hfull : (row p).hash ≠ 0) :
    (contents c row).length = (contents c (cleared row p)).length + 1 :=
  (contents_clear { row p with hash := 0 } hp hfull rfl).length_eq

/-- No entry is added, whatever the sameness of keys is. -/
theorem Settles.length_contents_le (hsettles : Settles keying c p row row') (hp : p < c) :
    (contents c row').length ≤ (contents c row).length := by
  induction hsettles with
  | done _ => exact Nat.le_refl _
  | step hfull hplaced _ ih =>
    have hcleared := length_contents_cleared hp hfull
    have hmid := hplaced.length_contents hfull
    have hrest := ih (next_lt (by omega))
    split at hmid <;> omega

/-- In a row of distinct keys an entry that was taken out finds no other slot with its key. -/
theorem Distinct.not_matches_cleared (h : Distinct keying c row) (hp : p < c)
    (hfull : (row p).hash ≠ 0) {i : Nat} (hi : i < c) (hfi : (cleared row p i).hash ≠ 0) :
    ¬ Matches keying (row p).hash (row p).key (cleared row p i) := by
  have hip := hash_cleared_ne_zero hfi
  rw [cleared_of_ne hip] at hfi ⊢
  rintro ⟨heq, hsame⟩
  rw [h i hi p hp hip hfi hfull heq] at hsame
  exact Bool.false_ne_true hsame

theorem Distinct.cleared (h : Distinct keying c row) (q : Nat) : Distinct keying c (cleared row q) := by
  intro i hi j hj hne hfi hfj heq
  have hiq := hash_cleared_ne_zero hfi
  have hjq := hash_cleared_ne_zero hfj
  rw [cleared_of_ne hiq] at hfi heq ⊢
  rw [cleared_of_ne hjq] at hfj heq ⊢
  exact h i hi j hj hne hfi hfj heq

/-- **Settling loses no entry** and doubles none, as long as the keys are distinct. -/
theorem Settles.contents (hsettles : Settles keying c p row row') (hp : p < c)
    (hsymm : ∀ a b, keying.same a b = keying.same b a) (h : Distinct keying c row) :
    Distinct keying c row' ∧ (contents c row').Perm (contents c row) := by
  induction hsettles with
  | done _ => exact ⟨h, List.Perm.refl _⟩
  | @step p row mid row' answer hfull hplaced _ ih =>
    have hnew : ∀ i < c, (Row.cleared row p i).hash ≠ 0 →
        ¬ Matches keying (row p).hash (row p).key (Row.cleared row p i) :=
      fun i hi hfi => h.not_matches_cleared hp hfull hi hfi
    have hmid : Distinct keying c mid := hplaced.distinct hsymm (h.cleared p) fun _ _ => hnew
    have hclear := contents_clear { row p with hash := 0 } hp hfull rfl
    -- The entry was taken out of its slot, and no other slot has its key, so it lands in an empty one.
    have hperm : (Row.contents c mid).Perm (Row.contents c row) := by
      cases hplaced with
      | occupied q hlands => exact absurd hlands.2.2.1 (hnew q hlands.1 hlands.2.1)
      | vacant q hlands => exact (contents_fill (row p) hlands.1 hlands.2.1 hfull).trans hclear.symm
    obtain ⟨hdistinct, hrest⟩ := ih (next_lt (by omega)) hmid
    exact ⟨hdistinct, hrest.trans hperm⟩

end Row

end AlignedSlots
