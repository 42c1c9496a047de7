import Mathlib
import AlignedSlots.Container.ProbeLaws
import AlignedSlots.Proofs.Container.SlotStorage
import AlignedSlots.Proofs.Probe.Settling
import AlignedSlots.Proofs.Probe.Rehashing

/-!
# The slots of a table

The programs of a table that work on its slots, each with what it does to the row of entries:

* `ProbeTable.probe_lands_of_stop`: a probe ends, at a slot that holds the key or at the first empty one.
* `ProbeTable.place_ends`, `ProbeTable.takeEntry_ends`: one entry is put in or taken out.
* `ProbeTable.settle_ends`, `ProbeTable.rehash_ends`: the loops of erasing and growing.

A probe needs an empty slot, and then none of these programs fails.
-/

namespace AlignedSlots

namespace ProbeTable

open Cyclic Row

variable {κ ν ε : Type} [Element κ] [Element ν]

/-- Slots that are made for entries of a table. -/
structure Fitted (κ ν : Type) [Element κ] [Element ν] (s : Slots) : Prop where
  ready : s.Ready
  stride_eq : s.stride = Element.size (Entry κ ν)
  align_eq : s.align = blockAlign κ ν
  power : s.capacity.isPowerOfTwo

variable {s : Slots}

/-- The same slots, in the same raw block, with other entries in them. -/
structure Rewritten (s s' : Slots) (row : Row κ ν) : Prop where
  fitted : Fitted κ ν s'
  capacity_eq : s'.capacity = s.capacity
  base_eq : s'.base = s.base
  item_eq : s'.item = row

theorem Fitted.rewritten (h : Fitted κ ν s) : Rewritten s s (s.item (α := Entry κ ν)) :=
  ⟨h, rfl, rfl, rfl⟩

theorem Rewritten.trans {s s' s'' : Slots} {row row' : Row κ ν} (h : Rewritten s s' row)
    (h' : Rewritten s' s'' row') : Rewritten s s'' row' :=
  ⟨h'.fitted, h'.capacity_eq.trans h.capacity_eq, h'.base_eq.trans h.base_eq, h'.item_eq⟩

variable {old : Slots} {keying : Keying κ} {i : Nat}

theorem Fitted.capacity_pos (h : Fitted κ ν s) : 0 < s.capacity :=
  Nat.pos_of_isPowerOfTwo h.power

/-! ## Reading a slot -/

theorem entryAt_eq (h : Fitted κ ν s) (hi : i < s.capacity) :
    entryAt s i = .ok (s.item i : Entry κ ν) :=
  (h.ready.read_eq (Entry κ ν) i).trans (if_pos hi)

theorem hashAt_item (h : Fitted κ ν s) (hi : i < s.capacity) :
    hashAt s i = .ok (s.item i : Entry κ ν).hash := by
  rw [hashAt_eq (κ := κ) (ν := ν), entryAt_eq h hi]
  rfl

/-! ## Probing -/

/-- From a slot up to which the probe has seen other keys only.  The fuel has to last to some slot that
is empty or holds the key. -/
theorem probeFrom_lands (h : Fitted κ ν s) {z : Nat} (hz : z < s.capacity) {hash : UInt64} {key : κ}
    (hstop : (s.item z : Entry κ ν).hash = 0 ∨ Matches keying hash key (s.item z : Entry κ ν))
    {fuel : Nat} (hi : i < s.capacity)
    (hpassed : Passed keying s.capacity (s.item (α := Entry κ ν)) hash key i)
    (hfuel : steps s.capacity (home s.capacity hash) z <
      fuel + steps s.capacity (home s.capacity hash) i) :
    ∃ landing, probeFrom s keying hash key (s.capacity - 1) fuel i = .ok landing ∧
      Lands keying s.capacity (s.item (α := Entry κ ν)) hash key landing := by
  have hhome : home s.capacity hash < s.capacity := home_lt h.capacity_pos hash
  -- No probe passes the slot that stops it.
  have hstays : ¬ ((s.item z : Entry κ ν).hash ≠ 0 ∧
      ¬ Matches keying hash key (s.item z : Entry κ ν)) := fun hpast =>
    hstop.elim hpast.1 hpast.2
  induction fuel generalizing i with
  | zero => exact absurd (hpassed z hz (by omega)) hstays
  | succ fuel ih =>
    have hcapacity := h.ready.capacity_le
    unfold probeFrom
    rw [hashAt_item h hi, checked_bind]
    by_cases hvacant : (s.item i : Entry κ ν).hash = 0
    · rw [if_pos hvacant]
      exact ⟨.vacant i, rfl, hi, hvacant, hpassed⟩
    rw [if_neg hvacant, holdsKey_eq s keying hash key i (entryAt_eq h hi), checked_bind]
    by_cases hmatch : ((s.item i : Entry κ ν).hash == hash &&
        keying.same (s.item i : Entry κ ν).key key) = true
    · rw [if_pos hmatch]
      obtain ⟨hhash, hsame⟩ := Bool.and_eq_true_iff.mp hmatch
      exact ⟨.occupied i, rfl, hi, hvacant, ⟨eq_of_beq hhash, hsame⟩, hpassed⟩
    rw [if_neg hmatch]
    have hother : ¬ Matches keying hash key (s.item i : Entry κ ν) := by
      rintro ⟨hhash, hsame⟩
      exact hmatch (Bool.and_eq_true_iff.mpr ⟨beq_iff_eq.mpr hhash, hsame⟩)
    -- The slot that stops the probe lies further on, so the round is not over yet.
    have hzi : steps s.capacity (home s.capacity hash) i <
        steps s.capacity (home s.capacity hash) z := by
      rcases Nat.lt_trichotomy (steps s.capacity (home s.capacity hash) i)
        (steps s.capacity (home s.capacity hash) z) with hlt | heq | hgt
      · exact hlt
      · have hiz := eq_of_steps_eq hi hz hhome heq
        subst hiz
        exact absurd ⟨hvacant, hother⟩ hstays
      · exact absurd (hpassed z hz hgt) hstays
    have hround := steps_lt hz hhome
    have hnext := steps_next hi hhome (by omega)
    rw [Word.add_eq_ok (by omega), checked_bind, succ_and_mask h.power hi]
    refine ih (next_lt h.capacity_pos) ?_ (by omega)
    intro t ht hlt
    rw [hnext] at hlt
    rcases Nat.lt_succ_iff_lt_or_eq.mp hlt with hbefore | heq
    · exact hpassed t ht hbefore
    · rw [eq_of_steps_eq ht hi hhome heq]
      exact ⟨hvacant, hother⟩

/-- **A probe ends**, as long as some slot is empty or holds the key. -/
theorem probe_lands_of_stop (h : Fitted κ ν s) {hash : UInt64} {key : κ}
    (hstop : ∃ z < s.capacity, (s.item z : Entry κ ν).hash = 0 ∨
      Matches keying hash key (s.item z : Entry κ ν)) :
    ∃ landing, probe s keying hash key = .ok landing ∧
      Lands keying s.capacity (s.item (α := Entry κ ν)) hash key landing := by
  obtain ⟨z, hz, hstop⟩ := hstop
  have hpos := h.capacity_pos
  have hround := steps_lt hz (home_lt hpos hash)
  unfold probe
  rw [Word.sub_eq_ok hpos, checked_bind, and_mask h.power]
  refine probeFrom_lands h hz hstop (home_lt hpos hash) ?_ (Nat.lt_add_right _ hround)
  intro t _ hlt
  rw [show hash.toNat % s.capacity = home s.capacity hash from rfl, steps_self] at hlt
  omega

/-- A probe ends as long as there is an empty slot. -/
theorem probe_lands (h : Fitted κ ν s) (hspace : ∃ z < s.capacity, (s.item z : Entry κ ν).hash = 0)
    (keying : Keying κ) (hash : UInt64) (key : κ) :
    ∃ landing, probe s keying hash key = .ok landing ∧
      Lands keying s.capacity (s.item (α := Entry κ ν)) hash key landing := by
  obtain ⟨z, hz, hempty⟩ := hspace
  exact probe_lands_of_stop h ⟨z, hz, .inl hempty⟩

/-! ## Writing one entry -/

variable [LawfulElement κ] [LawfulElement ν]

theorem putEntry_ends (h : Fitted κ ν s) (hi : i < s.capacity) (entry : Entry κ ν) :
    (putEntry (ε := ε) i entry).Ends s
      (fun _ s' => Rewritten s s' (Function.update s.item i entry)) (fun _ _ => False) := by
  have hput : putEntry (ε := ε) i entry s = .ok () (s.store (i * s.stride) entry) := by
    unfold putEntry
    simp only [h.ready.offset_eq hi]
  refine Prog.Ends.of_ok hput
    ⟨⟨h.ready.store _ _, ?_, ?_, ?_⟩, Slots.capacity_store _ _ _,
      (Slots.samePlace_store _ _ _).base_eq, ?_⟩
  · rw [Slots.stride_store, h.stride_eq]
  · rw [(Slots.samePlace_store _ _ _).align_eq, h.align_eq]
  · rw [Slots.capacity_store]
    exact h.power
  · exact Slots.item_store h.ready hi (Nat.le_of_eq h.stride_eq.symm) entry

/-- An entry is taken out. -/
theorem takeEntry_ends (h : Fitted κ ν s) (hi : i < s.capacity) :
    (takeEntry (κ := κ) (ν := ν) (ε := ε) i).Ends s
      (fun held s' => held = s.item i ∧ Rewritten s s' (cleared (s.item (α := Entry κ ν)) i))
      (fun _ _ => False) := by
  unfold takeEntry
  apply Prog.Ends.bind_ok (Prog.get_eq s)
  apply Prog.Ends.bind_ok (Prog.lift_ok (entryAt_eq h hi))
  apply (putEntry_ends h hi _).bind
  · intro _ s' hs'
    exact Prog.Ends.pure ⟨rfl, hs'⟩
  · exact fun _ _ hfalse => hfalse

/-- **An entry is put in** where the probe for its key ends. -/
theorem place_ends (h : Fitted κ ν s) (hspace : ∃ z < s.capacity, (s.item z : Entry κ ν).hash = 0)
    (keying : Keying κ) (entry : Entry κ ν) :
    (place (ε := ε) keying entry).Ends s
      (fun answer s' => ∃ row, Placed keying s.capacity s.item entry answer row ∧
        Rewritten s s' row) (fun _ _ => False) := by
  obtain ⟨landing, hprobe, hlands⟩ := probe_lands h hspace keying entry.hash entry.key
  unfold place
  apply Prog.Ends.bind_ok (Prog.get_eq s)
  apply Prog.Ends.bind_ok (Prog.lift_ok hprobe)
  cases landing with
  | vacant q =>
    apply (putEntry_ends h hlands.1 entry).bind
    · intro _ s' hs'
      exact Prog.Ends.pure ⟨_, .vacant q hlands, hs'⟩
    · exact fun _ _ hfalse => hfalse
  | occupied q =>
    apply Prog.Ends.bind_ok (Prog.get_eq s)
    apply Prog.Ends.bind_ok (Prog.lift_ok (entryAt_eq h hlands.1))
    apply (putEntry_ends h hlands.1 _).bind
    · intro _ s' hs'
      exact Prog.Ends.pure ⟨_, .occupied q hlands, hs'⟩
    · exact fun _ _ hfalse => hfalse

/-! ## Settling and rehashing -/

/-- The sweep behind the emptied slot `e` comes to an end before the empty slot `z`. -/
theorem settleFrom_ends (h : Fitted κ ν s) (keying : Keying κ) {e n p z fuel : Nat}
    (hsweep : Sweeping keying s.capacity (s.item (α := Entry κ ν)) e n) (he : e < s.capacity)
    (hp : p < s.capacity) (hn : steps s.capacity e p = n + 1) (hz : z < s.capacity)
    (hempty : (s.item z : Entry κ ν).hash = 0) (hzn : n < steps s.capacity e z)
    (hfuel : steps s.capacity e z ≤ fuel + n) :
    (settleFrom (ε := ε) keying ν (s.capacity - 1) fuel p).Ends s
      (fun _ s' => ∃ row, Settles keying s.capacity p (s.item (α := Entry κ ν)) row ∧
        Rewritten s s' row) (fun _ _ => False) := by
  induction fuel generalizing s n p with
  | zero => omega
  | succ fuel ih =>
    unfold settleFrom
    apply Prog.Ends.bind_ok (Prog.get_eq s)
    apply Prog.Ends.bind_ok (Prog.lift_ok (entryAt_eq h hp))
    by_cases hdone : (s.item p : Entry κ ν).hash = 0
    · rw [if_pos hdone]
      exact Prog.Ends.pure ⟨_, .done hdone, h.rewritten⟩
    rw [if_neg hdone]
    apply (takeEntry_ends h hp).bind _ fun _ _ hfalse => hfalse
    rintro _ s₁ ⟨_, hs₁⟩
    -- The slot that was just emptied ends the probe at the latest.
    have hspace : ∃ y < s₁.capacity, (s₁.item y : Entry κ ν).hash = 0 := by
      refine ⟨p, hs₁.capacity_eq ▸ hp, ?_⟩
      rw [hs₁.item_eq]
      exact cleared_self _ p
    apply (place_ends hs₁.fitted hspace keying (s.item p)).bind _ fun _ _ hfalse => hfalse
    rintro answer s₂ ⟨row, hplaced, hs₂⟩
    rw [hs₁.capacity_eq, hs₁.item_eq] at hplaced
    have hcapacity : s₂.capacity = s.capacity := (hs₁.trans hs₂).capacity_eq
    have hzp : steps s.capacity e z ≠ steps s.capacity e p := by
      intro heq
      have hzp := eq_of_steps_eq hz hp he heq
      subst hzp
      exact hdone hempty
    have hround := steps_lt hz he
    have hnext : steps s.capacity e (next s.capacity p) = n + 1 + 1 := by
      rw [steps_next hp he (by omega), hn]
    have hsweep' := hsweep.step he hp hn hdone hz hempty (by omega) hplaced
    have hempty' := hsweep.stays_empty hp hdone hz hempty hzn hplaced
    have hword := h.ready.capacity_le
    apply Prog.Ends.bind_ok (Prog.lift_ok (Word.add_eq_ok (by omega)))
    rw [succ_and_mask h.power hp]
    rw [← hs₂.item_eq, ← hcapacity] at hsweep'
    rw [← hs₂.item_eq] at hempty'
    rw [← hcapacity] at hnext he hz
    have hrest := ih hs₂.fitted (p := next s₂.capacity p) hsweep' he (next_lt (by omega)) hnext hz
      hempty' (by rw [hcapacity]; omega) (by rw [hcapacity]; omega)
    rw [hcapacity] at hrest
    apply hrest.mono _ fun _ _ hfalse => hfalse
    rintro _ s₃ ⟨row', hsettles, hs₃⟩
    rw [hs₂.item_eq] at hsettles
    exact ⟨row', .step hdone hplaced hsettles, (hs₁.trans hs₂).trans hs₃⟩

omit [LawfulElement κ] [LawfulElement ν] in
theorem settle_eq (h : Fitted κ ν s) (keying : Keying κ) {e : Nat} (he : e < s.capacity) :
    settle (ε := ε) keying ν e s =
      settleFrom keying ν (s.capacity - 1) s.capacity (next s.capacity e) s := by
  have hword := h.ready.capacity_le
  unfold settle
  rw [Prog.bind_ok (Prog.get_eq s), Prog.bind_ok (Prog.lift_ok (Word.sub_eq_ok h.capacity_pos)),
    Prog.bind_ok (Prog.lift_ok (Word.add_eq_ok (by omega))), succ_and_mask h.power he]

/-- The entries behind the emptied slot `e` settle with fuel that lasts to some empty slot. -/
theorem settleFrom_next_ends (h : Fitted κ ν s) (keying : Keying κ) {row : Row κ ν} {e z fuel : Nat}
    (hprobing : Probing keying s.capacity row) (hitem : s.item = cleared row e)
    (he : e < s.capacity) (hz : z < s.capacity) (hze : z ≠ e) (hempty : (row z).hash = 0)
    (hfuel : steps s.capacity e z ≤ fuel) :
    (settleFrom (ε := ε) keying ν (s.capacity - 1) fuel (next s.capacity e)).Ends s
      (fun _ s' => ∃ row', Settles keying s.capacity (next s.capacity e) (cleared row e) row' ∧
        Rewritten s s' row') (fun _ _ => False) := by
  have hsteps : steps s.capacity e z ≠ steps s.capacity e e :=
    fun heq => hze (eq_of_steps_eq hz he he heq)
  rw [steps_self] at hsteps
  have hround := steps_lt hz he
  have hself := steps_self s.capacity e
  have hnext : steps s.capacity e (next s.capacity e) = 0 + 1 := by
    rw [steps_next he he (by omega), hself]
  have hsweep := hprobing.sweeping he
  rw [← hitem] at hsweep ⊢
  refine settleFrom_ends h keying hsweep he (next_lt h.capacity_pos) hnext hz ?_ (by omega) hfuel
  rw [hitem, cleared_of_ne hze]
  exact hempty

/-- **Settling** behind a slot that was just emptied. -/
theorem settle_ends (h : Fitted κ ν s) (keying : Keying κ) {row : Row κ ν} {e z : Nat}
    (hprobing : Probing keying s.capacity row) (hitem : s.item = cleared row e)
    (he : e < s.capacity) (hz : z < s.capacity) (hze : z ≠ e) (hempty : (row z).hash = 0) :
    (settle (ε := ε) keying ν e).Ends s
      (fun _ s' => ∃ row', Settles keying s.capacity (next s.capacity e) (cleared row e) row' ∧
        Rewritten s s' row') (fun _ _ => False) :=
  (settleFrom_next_ends h keying hprobing hitem he hz hze hempty
    (Nat.le_of_lt (steps_lt hz he))).congr (settle_eq h keying he)

/-- **Rehashing** into slots that have room for all entries. -/
theorem rehash_ends (h : Fitted κ ν s) (keying : Keying κ) (hold : Fitted κ ν old) {indices : List Nat}
    (hin : ∀ i ∈ indices, i < old.capacity)
    (hroom : (contents s.capacity (s.item (α := Entry κ ν))).length +
      (gather indices (old.item (α := Entry κ ν))).length < s.capacity) :
    (rehash (ε := ε) keying ν old indices).Ends s
      (fun _ s' => ∃ row,
        Rehashes keying s.capacity (old.item (α := Entry κ ν)) indices s.item row ∧
        Rewritten s s' row) (fun _ _ => False) := by
  induction indices generalizing s with
  | nil => exact Prog.Ends.pure ⟨_, .nil, h.rewritten⟩
  | cons i rest ih =>
    have hrest : ∀ j ∈ rest, j < old.capacity := fun j hj => hin j (List.mem_cons_of_mem _ hj)
    unfold rehash
    apply Prog.Ends.bind_ok (Prog.lift_ok (entryAt_eq hold (hin i List.mem_cons_self)))
    by_cases hempty : (old.item i : Entry κ ν).hash = 0
    · rw [gather_cons_of_empty rest hempty] at hroom
      rw [if_neg (not_not_intro hempty)]
      apply (ih h hrest hroom).mono _ fun _ _ hfalse => hfalse
      rintro _ s' ⟨row, hrehashes, hs'⟩
      exact ⟨row, .skip hempty hrehashes, hs'⟩
    · rw [gather_cons_of_full rest hempty, List.length_cons] at hroom
      rw [if_pos hempty]
      have hspace : ∃ z < s.capacity, (s.item z : Entry κ ν).hash = 0 := exists_empty (by omega)
      apply (place_ends h hspace keying (old.item i)).bind _ fun _ _ hfalse => hfalse
      rintro answer s₁ ⟨mid, hplaced, hs₁⟩
      have hlength := hplaced.length_contents hempty
      have hroom₁ : (contents s₁.capacity (s₁.item (α := Entry κ ν))).length +
          (gather rest (old.item (α := Entry κ ν))).length < s₁.capacity := by
        rw [hs₁.capacity_eq, hs₁.item_eq, hlength]
        split <;> omega
      apply (ih hs₁.fitted hrest hroom₁).mono _ fun _ _ hfalse => hfalse
      rintro _ s₂ ⟨row, hrehashes, hs₂⟩
      rw [hs₁.capacity_eq, hs₁.item_eq] at hrehashes
      exact ⟨row, .put hempty hplaced hrehashes, hs₁.trans hs₂⟩

end ProbeTable

end AlignedSlots
