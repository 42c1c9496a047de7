import Mathlib
import AlignedSlots.Proofs.Container.TableOccupancy
import AlignedSlots.Proofs.Probe.Tightening

/-!
# What an erase does to the slots

An erase settles the run of entries behind the slot that it empties.  Two statements about every table
that a run reaches, for every lawful keying:

* `ProbeTable.session_put_erase`: a new key that is put and erased leaves no trace in the slots.
* `ProbeTable.session_erase_tightens`: an erase changes no slot outside the run from the erased entry on,
  the other entries of that run stay in it, and no entry gets further from its home slot.
-/

namespace AlignedSlots

namespace ProbeTable

open Cyclic Row

variable {κ ν : Type} [Element κ] [Element ν] {t t' : ProbeTable κ ν} {keying : Keying κ} {key : κ}
  {i n q : Nat}

/-! ## The slot of a key -/

theorem lands_of_locate (h : t.Sound) (hkey : t.keying.hash key ≠ 0)
    (hfound : t.locate key = .ok (some q)) :
    Lands t.keying t.capacity t.row (t.keying.hash key) key (.occupied q) := by
  rcases locate_lands h hkey with ⟨q', hlands, hlocate⟩ | ⟨q', _, hlocate⟩
  · rw [hfound] at hlocate
    cases hlocate
    exact hlands
  · rw [hfound] at hlocate
    cases hlocate

/-- Only one slot holds a key. -/
theorem Tidy.eq_of_lands (h : t.Tidy) (lawful : t.keying.Lawful) (hq : q < t.capacity)
    (hfull : (t.row q).hash ≠ 0) (hsame : t.keying.same (t.row q).key key = true) {landing : Landing}
    (hlands : Lands t.keying t.capacity t.row (t.keying.hash key) key landing) :
    landing = .occupied q := by
  cases landing with
  | occupied q' =>
    obtain ⟨hq', hfull', ⟨hhash', hsame'⟩, _⟩ := hlands
    by_contra hne
    have hne : q ≠ q' := fun heq => hne (heq ▸ rfl)
    have hhash : (t.row q).hash = (t.row q').hash := by
      rw [hhash', h.probing.hashed q hq hfull]
      exact lawful.hash_eq _ _ hsame
    rw [lawful.symm] at hsame'
    have hboth := lawful.trans _ _ _ hsame hsame'
    rw [h.distinct q hq q' hq' hne hfull hfull' hhash] at hboth
    cases hboth
  | vacant q' =>
    have hmem : t.row q ∈ t.entries := mem_contents_iff.mpr ⟨hfull, q, hq, rfl⟩
    exact absurd hsame (h.probing.not_same_of_vacant lawful hlands _ hmem)

theorem Tidy.locate_eq_some (h : t.Tidy) (lawful : t.keying.Lawful) (hq : q < t.capacity)
    (hfull : (t.row q).hash ≠ 0) (hsame : t.keying.same (t.row q).key key = true) :
    t.locate key = .ok (some q) := by
  rcases locate_lands h.toSound (lawful.hash_ne_zero key) with
    ⟨q', hlands, hlocate⟩ | ⟨q', hlands, _⟩
  · cases h.eq_of_lands lawful hq hfull hsame hlands
    exact hlocate
  · cases h.eq_of_lands lawful hq hfull hsame hlands

variable [LawfulElement κ] [LawfulElement ν]

/-- An erase of a key that is there. -/
theorem exists_erase (h : t.Tidy) (lawful : t.keying.Lawful) (hq : q < t.capacity)
    (hfull : (t.row q).hash ≠ 0) (hsame : t.keying.same (t.row q).key key = true) (host : Host) :
    ∃ s', erase key (t, host) = .ok (some (t.row q).value) s' ∧ s'.2.heap = host.heap ∧
      Erased t q s'.1 := by
  obtain ⟨answer, s', heq, hheap, ⟨q', hlands, _⟩ | ⟨q', hlands, hanswer, herased⟩⟩ :=
    (erase_ends (ν := ν) h.toSound (lawful.hash_ne_zero key) host).exists_ok
  · cases h.eq_of_lands lawful hq hfull hsame hlands
  · cases h.eq_of_lands lawful hq hfull hsame hlands
    exact ⟨s', hanswer ▸ heq, hheap, herased⟩

/-! ## Putting a new key and erasing it -/

/-- The tables have the same length and the same entries in the same slots.  Only the slot that was
filled in between, and emptied again, has another key and value in it; they mean nothing there. -/
structure Restored (t t' : ProbeTable κ ν) : Prop where
  length_eq : t'.length = t.length
  capacity_eq : t'.capacity = t.capacity
  base_eq : t'.slots.base = t.slots.base
  slots_eq : ∀ i < t.capacity, ∃ entry entry' : Entry κ ν, entryAt t.slots i = .ok entry ∧
    entryAt t'.slots i = .ok entry' ∧ entry'.hash = entry.hash ∧ (entry.hash ≠ 0 → entry' = entry)
  others_eq : ∃ q < t.capacity, (t.row q).hash = 0 ∧ ∀ i < t.capacity, i ≠ q → t'.row i = t.row i

omit [LawfulElement κ] [LawfulElement ν] in
/-- Erasing the entry of a slot that was empty before it was put there. -/
theorem Erased.restored {t₁ : ProbeTable κ ν} {entry : Entry κ ν} (h : t.Tidy)
    (hstored : Stored t entry none t₁) (hrow : t₁.row = Function.update t.row q entry)
    (hq : q < t.capacity) (hempty : (t.row q).hash = 0) (herased : Erased t₁ q t') :
    Restored t t' := by
  have hcapacity : t'.capacity = t.capacity := herased.capacity_eq.trans hstored.capacity_eq
  have hsame := cleared_update_same hempty entry
  have hsettles := herased.settled
  rw [hstored.capacity_eq, hstored.keying_eq, hrow] at hsettles
  -- Nothing is out of place in the slots that are settled, so that they stay as they are.
  have hrow' : t'.row = cleared (Function.update t.row q entry) q :=
    hsettles.eq_self (next_lt (Nat.zero_lt_of_lt hq)) (h.probing.congr fun i _ => hsame i)
      (h.distinct.congr fun i _ => hsame i)
  have hothers : ∀ i, i ≠ q → t'.row i = t.row i := by
    intro i hi
    rw [hrow', cleared_of_ne hi, Function.update_of_ne hi]
  refine ⟨?_, hcapacity, herased.base_eq.trans hstored.base_eq, fun i hi => ?_,
    q, hq, hempty, fun i _ hi => hothers i hi⟩
  · rw [herased.length_eq, hstored.length_eq]
    rfl
  · have hi' : i < t'.capacity := lt_of_lt_of_eq hi hcapacity.symm
    refine ⟨t.row i, t'.row i, entryAt_eq h.fitted hi, entryAt_eq herased.fitted hi', ?_,
      fun hfull => hothers i ?_⟩
    · rw [hrow']
      exact (hsame i).1
    · rintro rfl
      exact hfull hempty

/-- **A new key that is put and erased leaves no trace**: the slots that hold an entry are the ones that
did before, with the same hashes, keys and values. -/
theorem session_put_erase {s : ProbeTable κ ν × Host} (lawful : keying.Lawful)
    (hrun : Reached keying s) (habsent : s.1.contains key = .ok false)
    (hroom : s.1.length < s.1.capacity / 2) (value : ν) :
    ∃ s₁ s₂, put key value s = .ok none s₁ ∧ erase key s₁ = .ok (some value) s₂ ∧
      Restored s.1 s₂.1 := by
  obtain ⟨htidy, hkeying, hbounds⟩ := hrun.tidy lawful
  obtain ⟨t, host⟩ := s
  subst hkeying
  have hkey := lawful.hash_ne_zero key
  have hhalf : t.isHalfFull = false := decide_eq_false (Nat.not_le.mpr hroom)
  have hnone : ¬ ∃ e ∈ t.entries, t.keying.same e.key key = true := by
    rw [← contains_eq_true_iff htidy.toSound lawful, habsent]
    nofun
  rcases (put_ends htidy.toSound hkey value host hbounds).run_eq with
    ⟨answer, ⟨t₁, host₁⟩, hput, t₀, ⟨_, rfl, _⟩ | ⟨hfull, _⟩, hstored⟩ | ⟨_, _, _, _, _, hfull, _⟩
  · have htidy₁ := hstored.tidy htidy lawful.symm hroom hkey rfl
    have hplaced := hstored.placed
    generalize hrow : t₁.row = row₁ at hplaced
    cases hplaced with
    | vacant q hlands =>
      have hself : t₁.row q = ⟨t₀.keying.hash key, key, value⟩ := by
        rw [hrow, Function.update_self]
      have hfound : t₁.keying.same (t₁.row q).key key = true := by
        rw [hself, hstored.keying_eq]
        exact lawful.refl key
      obtain ⟨s₂, herase, _, herased⟩ := exists_erase htidy₁ (hstored.keying_eq ▸ lawful)
        (hstored.capacity_eq ▸ hlands.1) (by rw [hself]; exact hkey) hfound host₁
      rw [hself] at herase
      exact ⟨(t₁, host₁), s₂, hput, herase,
        herased.restored htidy hstored hrow hlands.1 hlands.2.1⟩
    | occupied q hlands =>
      have hmem : t₀.row q ∈ t₀.entries := mem_contents_iff.mpr ⟨hlands.2.1, q, hlands.1, rfl⟩
      exact absurd ⟨t₀.row q, hmem, hlands.2.2.1.2⟩ hnone
  · rw [hhalf] at hfull
    cases hfull
  · rw [hhalf] at hfull
    cases hfull

/-- The last slot is taken, so that the new key lies in the first one for a while. -/
theorem session_put_erase_around :
    ∃ (t : ProbeTable Bool (FixedInt ⟨32, true⟩)) (host : Host)
      (s s₁ s₂ : ProbeTable Bool (FixedInt ⟨32, true⟩) × Host),
      create ⟨fun _ => 15, (· == ·)⟩ _ Host.ordinary = .ok t host ∧
      (Prog.session TableStep.run [.put true (.ofInt _ 1)] (t, host)).2 = s ∧
      s.1.locate true = .ok (some 15) ∧ put false (.ofInt _ 2) s = .ok none s₁ ∧
      erase false s₁ = .ok (some (.ofInt _ 2)) s₂ ∧ Restored s.1 s₂.1 := by
  have lawful : (⟨fun _ => 15, (· == ·)⟩ : Keying Bool).Lawful := by
    constructor <;> decide
  let steps : List (TableStep Bool (FixedInt ⟨32, true⟩)) := [.put true (.ofInt _ 1)]
  obtain ⟨t, host, hcreate, hfound, habsent, hroom⟩ :
      ∃ (t : ProbeTable Bool (FixedInt ⟨32, true⟩)) (host : Host),
        create ⟨fun _ => 15, (· == ·)⟩ _ Host.ordinary = .ok t host ∧
        (Prog.session TableStep.run steps (t, host)).2.1.locate true = .ok (some 15) ∧
        (Prog.session TableStep.run steps (t, host)).2.1.contains false = .ok false ∧
        (Prog.session TableStep.run steps (t, host)).2.1.length <
          (Prog.session TableStep.run steps (t, host)).2.1.capacity / 2 :=
    ⟨_, _, rfl, by decide +kernel, by decide +kernel, by decide +kernel⟩
  have hreached : Reached ⟨fun _ => 15, (· == ·)⟩ (Prog.session TableStep.run steps (t, host)).2 :=
    ⟨Host.ordinary, host, t, steps, Host.ordinary_sound.inBounds, hcreate, rfl⟩
  obtain ⟨s₁, s₂, hput, herase, hrestored⟩ :=
    session_put_erase lawful hreached habsent hroom (.ofInt _ 2)
  exact ⟨t, host, _, s₁, s₂, hcreate, rfl, hfound, hput, herase, hrestored⟩

/-! ## The run behind an erased entry -/

/-- The home slot of a key. -/
def homeOf (t : ProbeTable κ ν) (key : κ) : Nat := (t.keying.hash key).toNat &&& (t.capacity - 1)

/-- The run of occupied slots that slot `i` belongs to ends `n` slots behind it. -/
structure RunsOn (t : ProbeTable κ ν) (i n : Nat) : Prop where
  short : n + 1 < t.capacity
  occupied : ∀ s ∈ arc t.capacity i (n + 1), (t.row s).hash ≠ 0
  vacant : (t.row ((i + (n + 1)) % t.capacity)).hash = 0

/-- `t'` lacks the entry of the key in slot `i` of `t`, and the `n` slots behind it have closed up. -/
structure Tightened (t : ProbeTable κ ν) (key : κ) (i n : Nat) (t' : ProbeTable κ ν) : Prop where
  capacity_eq : t'.capacity = t.capacity
  read : ∀ s < t.capacity,
    entryAt t.slots s = .ok (t.row s) ∧ entryAt t'.slots s = .ok (t'.row s)
  outside : ∀ s < t.capacity, s ∉ arc t.capacity i (n + 1) → t'.row s = t.row s
  /-- The entries behind slot `i` are still in these slots, each once. -/
  held : (gather (arc t.capacity i (n + 1)) t'.row).Perm
    ((arc t.capacity (next t.capacity i) n).map t.row)
  hole : ∃! s, s ∈ arc t.capacity i (n + 1) ∧ (t'.row s).hash = 0
  /-- The entry of every other key is as near to its home slot as it was, or nearer. -/
  closer : ∀ k p, t.keying.same key k = false → t.locate k = .ok (some p) →
    ∃ p', t'.locate k = .ok (some p') ∧ t'.row p' = t.row p ∧
      steps t.capacity (t.homeOf k) p' ≤ steps t.capacity (t.homeOf k) p

omit [LawfulElement κ] [LawfulElement ν] in
/-- What settling has closed up, as a statement about the tables. -/
theorem Erased.tightened {g : Nat} (herased : Erased t i t') (h : t.Tidy) (lawful : t.keying.Lawful)
    (hi : i < t.capacity) (hfull : (t.row i).hash ≠ 0)
    (hsame : t.keying.same (t.row i).key key = true) (hruns : RunsOn t i n)
    (hclosing : Closing t.keying t.capacity t.row t'.row i n g) : Tightened t key i n t' := by
  have hround := Nat.le_of_lt hruns.short
  have htidy := herased.tidy h lawful.symm hi hfull
  have hbehind : ∀ s ∈ arc t.capacity (next t.capacity i) n, (t.row s).hash ≠ 0 := by
    intro s hs
    obtain ⟨hs, hlt⟩ := (mem_arc (next_lt (by omega)) (by omega)).mp hs
    exact hruns.occupied s ((mem_arc hi hround).mpr ⟨hs, steps_lt_succ_of_next hs hi hlt⟩)
  refine ⟨herased.capacity_eq, fun s hs => ⟨entryAt_eq h.fitted hs,
    entryAt_eq herased.fitted (lt_of_lt_of_eq hs herased.capacity_eq.symm)⟩,
    fun s hs hnot => ?_, ?_, ?_, ?_⟩
  · refine hclosing.beyond s hs (Nat.lt_of_succ_le (Nat.not_lt.mp fun hlt => ?_))
    exact hnot ((mem_arc hi hround).mpr ⟨hs, hlt⟩)
  · rw [← gather_of_full hbehind]
    exact hclosing.held
  · refine ⟨g, ⟨(mem_arc hi hround).mpr ⟨hclosing.hole_lt, Nat.lt_succ_of_le hclosing.hole_le⟩,
      hclosing.hole_empty⟩, ?_⟩
    rintro s ⟨hs, hempty⟩
    obtain ⟨hs, hlt⟩ := (mem_arc hi hround).mp hs
    by_contra hne
    exact hclosing.full s hs (Nat.le_of_lt_succ hlt) hne hempty
  · intro k p hother hfound
    obtain ⟨hp, hfp, ⟨hhash, hkp⟩, _⟩ :=
      lands_of_locate h.toSound (lawful.hash_ne_zero k) hfound
    have hpi : p ≠ i := by
      rintro rfl
      rw [lawful.symm] at hsame
      rw [lawful.trans _ _ _ hsame hkp] at hother
      cases hother
    obtain ⟨p', hp', heq, hle⟩ := hclosing.closer p hp hpi hfp
    refine ⟨p', ?_, heq, ?_⟩
    · rw [← heq] at hfp hkp
      exact htidy.locate_eq_some (herased.keying_eq ▸ lawful) (herased.capacity_eq ▸ hp') hfp
        (herased.keying_eq ▸ hkp)
    · have hhome : t.homeOf k = home t.capacity (t.row p).hash := by
        rw [hhash]
        exact and_mask h.fitted.power
      rw [hhome]
      exact hle

/-- **An erase only tightens its own run**, from the slot of the erased entry to the end of the run. -/
theorem session_erase_tightens {s : ProbeTable κ ν × Host} (lawful : keying.Lawful)
    (hrun : Reached keying s) (hfound : s.1.locate key = .ok (some i)) :
    ∃ s' n, erase key s = .ok (some (s.1.row i).value) s' ∧ RunsOn s.1 i n ∧
      Tightened s.1 key i n s'.1 := by
  obtain ⟨htidy, hkeying, _⟩ := hrun.tidy lawful
  obtain ⟨t, host⟩ := s
  subst hkeying
  have htidy : t.Tidy := htidy
  obtain ⟨hi, hfull, ⟨_, hsame⟩, _⟩ :=
    lands_of_locate htidy.toSound (lawful.hash_ne_zero key) hfound
  obtain ⟨s', herase, _, herased⟩ := exists_erase htidy lawful hi hfull hsame host
  -- The first empty slot from slot `i` on is the one behind its run.
  obtain ⟨z, hz, hempty, hfirst⟩ := exists_first_empty i htidy.exists_empty
  have hzi : z ≠ i := by
    rintro rfl
    exact hfull hempty
  have hself := steps_self t.capacity i
  have hpos : 0 < steps t.capacity i z :=
    Nat.pos_of_ne_zero fun hzero => hzi (eq_of_steps_eq hz hi hi (hzero.trans hself.symm))
  have hround := steps_lt hz hi
  have hnext : steps t.capacity i (next t.capacity i) = 0 + 1 := by
    rw [steps_next hi hi (by omega), hself]
  obtain ⟨n, g, hn, hclosing⟩ := herased.settled.closing
    (htidy.probing.closing htidy.distinct hi) lawful.symm hi (next_lt (Nat.zero_lt_of_lt hi)) hnext hz
    hempty hpos hfirst
  have hruns : RunsOn t i n := by
    refine ⟨hn ▸ hround, fun p hp => ?_, ?_⟩
    · obtain ⟨hp, hlt⟩ := (mem_arc hi (by omega)).mp hp
      exact hfirst p hp (hn ▸ hlt)
    · rw [← hn, add_steps_mod hz hi]
      exact hempty
  exact ⟨s', n, herase, hruns, herased.tightened htidy lawful hi hfull hsame hruns hclosing⟩

/-- The run goes around the end: the entry behind the erased one comes back from the first slot. -/
theorem session_erase_tightens_around :
    ∃ (t : ProbeTable Bool (FixedInt ⟨32, true⟩)) (host : Host)
      (s s' : ProbeTable Bool (FixedInt ⟨32, true⟩) × Host) (n : Nat),
      create ⟨fun _ => 15, (· == ·)⟩ _ Host.ordinary = .ok t host ∧
      (Prog.session TableStep.run [.put true (.ofInt _ 1), .put false (.ofInt _ 2)]
        (t, host)).2 = s ∧
      s.1.locate true = .ok (some 15) ∧ s.1.locate false = .ok (some 0) ∧
      erase true s = .ok (some (s.1.row 15).value) s' ∧ RunsOn s.1 15 n ∧
      Tightened s.1 true 15 n s'.1 := by
  have lawful : (⟨fun _ => 15, (· == ·)⟩ : Keying Bool).Lawful := by
    constructor <;> decide
  let steps : List (TableStep Bool (FixedInt ⟨32, true⟩)) :=
    [.put true (.ofInt _ 1), .put false (.ofInt _ 2)]
  obtain ⟨t, host, hcreate, hfound, hbehind⟩ :
      ∃ (t : ProbeTable Bool (FixedInt ⟨32, true⟩)) (host : Host),
        create ⟨fun _ => 15, (· == ·)⟩ _ Host.ordinary = .ok t host ∧
        (Prog.session TableStep.run steps (t, host)).2.1.locate true = .ok (some 15) ∧
        (Prog.session TableStep.run steps (t, host)).2.1.locate false = .ok (some 0) :=
    ⟨_, _, rfl, by decide +kernel, by decide +kernel⟩
  have hreached : Reached ⟨fun _ => 15, (· == ·)⟩ (Prog.session TableStep.run steps (t, host)).2 :=
    ⟨Host.ordinary, host, t, steps, Host.ordinary_sound.inBounds, hcreate, rfl⟩
  obtain ⟨s', n, herase, hruns, htightened⟩ := session_erase_tightens lawful hreached hfound
  exact ⟨t, host, _, s', n, hcreate, rfl, hfound, hbehind, herase, hruns, htightened⟩

end ProbeTable

end AlignedSlots
