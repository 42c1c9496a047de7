import Mathlib
import AlignedSlots.Container.ProbeTable
import AlignedSlots.Proofs.Probe.Cyclic

/-!
# Rows of entries

The slots of a table as a function of the index, and what linear probing makes of it.  Nothing here
speaks of memory: `Row.Placed` says what putting an entry into a row may do, and the lemmas say what
that keeps.

* `Row.Probing`: every entry is stored under the hash of its key, and every slot on the way from its
  home slot to the slot it is in holds an entry.
* `Row.Distinct`: no two slots hold the same key under the same hash.
* `Row.contents`: the entries of a row, in the order of the slots.

`Row.Probing` is kept whatever the sameness of keys is; `Row.Distinct` needs it to be symmetric.
-/

namespace AlignedSlots

/-- The content of every slot of a table. -/
abbrev Row (κ ν : Type) := Nat → Entry κ ν

/-- The slot where a probe ends. -/
def Landing.index : Landing → Nat
  | .occupied q => q
  | .vacant q => q

namespace Row

open Cyclic

variable {κ ν : Type} {c : Nat} {row row' : Row κ ν} {keying : Keying κ} {entry : Entry κ ν}

/-! ## What a row holds -/

/-- The entries in the given slots. -/
def gather (indices : List Nat) (row : Row κ ν) : List (Entry κ ν) :=
  (indices.map row).filter fun e => !e.isEmpty

/-- The entries of a row, in the order of the slots. -/
def contents (c : Nat) (row : Row κ ν) : List (Entry κ ν) := gather (List.range c) row

theorem isEmpty_iff (e : Entry κ ν) : e.isEmpty = true ↔ e.hash = 0 := by
  simp [Entry.isEmpty]

theorem gather_cons_of_empty {i : Nat} (indices : List Nat) (h : (row i).hash = 0) :
    gather (i :: indices) row = gather indices row := by
  unfold gather
  rw [List.map_cons, List.filter_cons_of_neg (by simp [isEmpty_iff, h])]

theorem gather_cons_of_full {i : Nat} (indices : List Nat) (h : (row i).hash ≠ 0) :
    gather (i :: indices) row = row i :: gather indices row := by
  unfold gather
  rw [List.map_cons, List.filter_cons_of_pos (by simp [← Bool.not_eq_true, isEmpty_iff, h])]

theorem gather_of_full {indices : List Nat} (h : ∀ i ∈ indices, (row i).hash ≠ 0) :
    gather indices row = indices.map row := by
  unfold gather
  rw [List.filter_eq_self]
  intro e he
  obtain ⟨i, hi, rfl⟩ := List.mem_map.mp he
  simp [← Bool.not_eq_true, isEmpty_iff, h i hi]

theorem contents_of_empty (h : ∀ i < c, (row i).hash = 0) : contents c row = [] := by
  unfold contents gather
  rw [List.filter_eq_nil_iff]
  intro e he
  obtain ⟨i, hi, rfl⟩ := List.mem_map.mp he
  simp [isEmpty_iff, h i (List.mem_range.mp hi)]

theorem mem_contents_iff {e : Entry κ ν} :
    e ∈ contents c row ↔ e.hash ≠ 0 ∧ ∃ i < c, row i = e := by
  simp only [contents, gather, List.mem_filter, List.mem_map, List.mem_range, Bool.not_eq_true',
    ← Bool.not_eq_true, isEmpty_iff]
  exact and_comm

/-- A row without contents has no entry in any slot. -/
theorem hash_eq_zero_of_contents (h : contents c row = []) {i : Nat} (hi : i < c) :
    (row i).hash = 0 := by
  by_contra hfull
  have hmem : row i ∈ contents c row := mem_contents_iff.mpr ⟨hfull, i, hi, rfl⟩
  rw [h] at hmem
  cases hmem

theorem gather_append (front back : List Nat) (row : Row κ ν) :
    gather (front ++ back) row = gather front row ++ gather back row := by
  unfold gather
  rw [List.map_append, List.filter_append]

theorem gather_update_of_notMem {q : Nat} {indices : List Nat} (h : q ∉ indices) (row : Row κ ν)
    (e : Entry κ ν) : gather indices (Function.update row q e) = gather indices row := by
  have hmap : indices.map (Function.update row q e) = indices.map row := by
    apply List.map_congr_left
    intro i hi
    have hne : i ≠ q := fun heq => h (heq ▸ hi)
    exact Function.update_of_ne hne _ _
  unfold gather
  rw [hmap]

/-- What some slots hold besides one of them does not depend on that one. -/
theorem exists_rest {q : Nat} {indices : List Nat} (hnodup : indices.Nodup) (hq : q ∈ indices)
    (row : Row κ ν) :
    ∃ rest : List (Entry κ ν), ∀ e,
      (gather indices (Function.update row q e)).Perm (if e.hash = 0 then rest else e :: rest) := by
  -- The rest is what the slots in front of `q` hold, and then what the slots behind it hold.
  obtain ⟨low, high, rfl⟩ := List.append_of_mem hq
  have hlow : q ∉ low := fun hmem =>
    List.disjoint_of_nodup_append hnodup hmem List.mem_cons_self
  have hhigh : q ∉ high := (List.nodup_cons.mp (List.nodup_append.mp hnodup).2.1).1
  refine ⟨gather low row ++ gather high row, fun e => ?_⟩
  have hself : (Function.update row q e q) = e := Function.update_self q e row
  rw [gather_append, gather_update_of_notMem hlow]
  by_cases hzero : e.hash = 0
  · rw [if_pos hzero, gather_cons_of_empty _ (by rw [hself]; exact hzero),
      gather_update_of_notMem hhigh]
  · rw [if_neg hzero, gather_cons_of_full _ (by rw [hself]; exact hzero), hself,
      gather_update_of_notMem hhigh]
    exact List.perm_middle

/-- Filling an empty slot among the given ones adds one entry to what they hold. -/
theorem gather_fill {q : Nat} {indices : List Nat} (entry : Entry κ ν) (hnodup : indices.Nodup)
    (hq : q ∈ indices) (hempty : (row q).hash = 0) (hentry : entry.hash ≠ 0) :
    (gather indices (Function.update row q entry)).Perm (entry :: gather indices row) := by
  obtain ⟨rest, hrest⟩ := exists_rest hnodup hq row
  have hbefore := hrest (row q)
  have hafter := hrest entry
  rw [Function.update_eq_self, if_pos hempty] at hbefore
  rw [if_neg hentry] at hafter
  exact hafter.trans (hbefore.symm.cons entry)

/-- Filling an empty slot adds one entry. -/
theorem contents_fill {q : Nat} (entry : Entry κ ν) (hq : q < c) (hempty : (row q).hash = 0)
    (hentry : entry.hash ≠ 0) :
    (contents c (Function.update row q entry)).Perm (entry :: contents c row) :=
  gather_fill entry List.nodup_range (List.mem_range.mpr hq) hempty hentry

/-- Emptying a slot takes its entry away. -/
theorem contents_clear {q : Nat} (entry : Entry κ ν) (hq : q < c) (hfull : (row q).hash ≠ 0)
    (hentry : entry.hash = 0) :
    (contents c row).Perm (row q :: contents c (Function.update row q entry)) := by
  obtain ⟨rest, hrest⟩ := exists_rest List.nodup_range (List.mem_range.mpr hq) row
  have hbefore := hrest (row q)
  have hafter := hrest entry
  rw [Function.update_eq_self, if_neg hfull] at hbefore
  rw [if_pos hentry] at hafter
  exact hbefore.trans (hafter.symm.cons (row q))

/-- Changing an entry changes nothing else. -/
theorem contents_change {q : Nat} (entry : Entry κ ν) (hq : q < c) (hfull : (row q).hash ≠ 0)
    (hentry : entry.hash ≠ 0) :
    ∃ rest, (contents c row).Perm (row q :: rest) ∧
      (contents c (Function.update row q entry)).Perm (entry :: rest) := by
  obtain ⟨rest, hrest⟩ := exists_rest List.nodup_range (List.mem_range.mpr hq) row
  have hbefore := hrest (row q)
  have hafter := hrest entry
  rw [Function.update_eq_self, if_neg hfull] at hbefore
  rw [if_neg hentry] at hafter
  exact ⟨rest, hbefore, hafter⟩

/-- The entries of a row are as many as its occupied slots. -/
theorem length_contents (c : Nat) (row : Row κ ν) :
    (contents c row).length = (List.range c).countP fun i => decide ((row i).hash ≠ 0) := by
  unfold contents gather
  rw [← List.countP_eq_length_filter, List.countP_map]
  apply List.countP_congr
  intro i _
  simp [Entry.isEmpty]

/-- A row with fewer entries than slots has an empty slot. -/
theorem exists_empty (h : (contents c row).length < c) : ∃ z < c, (row z).hash = 0 := by
  by_contra hnone
  have hall : ∀ e ∈ (List.range c).map row, (!e.isEmpty) = true := by
    intro e he
    obtain ⟨i, hi, rfl⟩ := List.mem_map.mp he
    have hfull : (row i).hash ≠ 0 := fun hzero => hnone ⟨i, List.mem_range.mp hi, hzero⟩
    simp [← Bool.not_eq_true, isEmpty_iff, hfull]
  unfold contents gather at h
  rw [List.filter_eq_self.mpr hall, List.length_map, List.length_range] at h
  omega

/-! ## Where a probe ends -/

/-- The home slot of a hash. -/
def home (c : Nat) (hash : UInt64) : Nat := hash.toNat % c

theorem home_lt (hc : 0 < c) (hash : UInt64) : home c hash < c := Nat.mod_lt _ hc

/-- The entry holds the key. -/
def Matches (keying : Keying κ) (hash : UInt64) (key : κ) (e : Entry κ ν) : Prop :=
  e.hash = hash ∧ keying.same e.key key = true

/-- Every slot that a probe sees before slot `q` holds an entry, but not the key. -/
def Passed (keying : Keying κ) (c : Nat) (row : Row κ ν) (hash : UInt64) (key : κ) (q : Nat) : Prop :=
  ∀ s < c, steps c (home c hash) s < steps c (home c hash) q →
    (row s).hash ≠ 0 ∧ ¬ Matches keying hash key (row s)

/-- A probe for the key ends here. -/
def Lands (keying : Keying κ) (c : Nat) (row : Row κ ν) (hash : UInt64) (key : κ) : Landing → Prop
  | .occupied q => q < c ∧ (row q).hash ≠ 0 ∧ Matches keying hash key (row q) ∧
      Passed keying c row hash key q
  | .vacant q => q < c ∧ (row q).hash = 0 ∧ Passed keying c row hash key q

/-- Putting an entry into a row: a slot that holds the key takes the new value, and otherwise the
first empty slot takes the entry. -/
inductive Placed (keying : Keying κ) (c : Nat) (row : Row κ ν) (entry : Entry κ ν) :
    Option ν → Row κ ν → Prop
  | vacant (q : Nat) : Lands keying c row entry.hash entry.key (.vacant q) →
      Placed keying c row entry none (Function.update row q entry)
  | occupied (q : Nat) : Lands keying c row entry.hash entry.key (.occupied q) →
      Placed keying c row entry (some (row q).value)
        (Function.update row q { row q with value := entry.value })

/-- **A probe has one end.** -/
theorem Lands.unique {hash : UInt64} {key : κ} {landing landing' : Landing}
    (h : Lands keying c row hash key landing) (h' : Lands keying c row hash key landing') :
    landing = landing' := by
  -- A probe does not pass the slot where it ends.
  have hends : ∀ {landing}, Lands keying c row hash key landing → landing.index < c ∧
      Passed keying c row hash key landing.index ∧
      ((row landing.index).hash ≠ 0 → Matches keying hash key (row landing.index)) := by
    rintro (q | q) hlands
    · exact ⟨hlands.1, hlands.2.2.2, fun _ => hlands.2.2.1⟩
    · exact ⟨hlands.1, hlands.2.2, fun hfull => absurd hlands.2.1 hfull⟩
  obtain ⟨hq, hpassed, hmatch⟩ := hends h
  obtain ⟨hq', hpassed', hmatch'⟩ := hends h'
  have hhome := home_lt (Nat.zero_lt_of_lt hq) hash
  have hsame : landing.index = landing'.index := by
    rcases Nat.lt_trichotomy (steps c (home c hash) landing.index)
      (steps c (home c hash) landing'.index) with hlt | heq | hgt
    · obtain ⟨hfull, hother⟩ := hpassed' _ hq hlt
      exact absurd (hmatch hfull) hother
    · exact eq_of_steps_eq hq hq' hhome heq
    · obtain ⟨hfull, hother⟩ := hpassed _ hq' hgt
      exact absurd (hmatch' hfull) hother
  cases landing with
  | occupied q =>
    cases landing' with
    | occupied q' => exact congrArg Landing.occupied hsame
    | vacant q' =>
      obtain rfl : q = q' := hsame
      exact absurd h'.2.1 h.2.1
  | vacant q =>
    cases landing' with
    | occupied q' =>
      obtain rfl : q = q' := hsame
      exact absurd h.2.1 h'.2.1
    | vacant q' => exact congrArg Landing.vacant hsame

/-- An entry whose key is nowhere on the way goes to the empty slot where its probe ends. -/
theorem Placed.of_vacant {answer : Option ν} {q : Nat}
    (hplaced : Placed keying c row entry answer row')
    (hlands : Lands keying c row entry.hash entry.key (.vacant q)) :
    answer = none ∧ row' = Function.update row q entry := by
  cases hplaced with
  | vacant q' hlands' =>
    cases hlands'.unique hlands
    exact ⟨rfl, rfl⟩
  | occupied q' hlands' => cases hlands'.unique hlands

/-- Where the probe meets the key, the value is all that changes. -/
theorem Placed.of_occupied {answer : Option ν} {q : Nat}
    (hplaced : Placed keying c row entry answer row')
    (hlands : Lands keying c row entry.hash entry.key (.occupied q)) :
    answer = some (row q).value ∧
      row' = Function.update row q { row q with value := entry.value } := by
  cases hplaced with
  | vacant q' hlands' => cases hlands'.unique hlands
  | occupied q' hlands' =>
    cases hlands'.unique hlands
    exact ⟨rfl, rfl⟩

/-! ## The probing invariant -/

/-- Every entry can be found from its home slot. -/
structure Probing (keying : Keying κ) (c : Nat) (row : Row κ ν) : Prop where
  hashed : ∀ i < c, (row i).hash ≠ 0 → (row i).hash = keying.hash (row i).key
  reached : ∀ i < c, (row i).hash ≠ 0 → ∀ s < c,
    steps c (home c (row i).hash) s < steps c (home c (row i).hash) i → (row s).hash ≠ 0

/-- No two slots hold the same key under the same hash. -/
def Distinct (keying : Keying κ) (c : Nat) (row : Row κ ν) : Prop :=
  ∀ i < c, ∀ j < c, i ≠ j → (row i).hash ≠ 0 → (row j).hash ≠ 0 →
    (row i).hash = (row j).hash → keying.same (row i).key (row j).key = false

/-- A row without entries. -/
theorem probing_of_empty (h : ∀ i < c, (row i).hash = 0) : Probing keying c row :=
  ⟨fun i hi hfull => absurd (h i hi) hfull, fun i hi hfull => absurd (h i hi) hfull⟩

theorem distinct_of_empty (h : ∀ i < c, (row i).hash = 0) : Distinct keying c row :=
  fun i hi _ _ _ hfull => absurd (h i hi) hfull

/-- The hashes, and the keys of entries, are all that the probing invariant reads. -/
theorem Probing.congr (h : Probing keying c row)
    (hsame : ∀ i < c, (row' i).hash = (row i).hash ∧
      ((row i).hash ≠ 0 → (row' i).key = (row i).key)) : Probing keying c row' := by
  constructor
  · intro i hi hfull
    rw [(hsame i hi).1] at hfull ⊢
    rw [(hsame i hi).2 hfull]
    exact h.hashed i hi hfull
  · intro i hi hfull s hs hlt
    rw [(hsame i hi).1] at hfull hlt
    rw [(hsame s hs).1]
    exact h.reached i hi hfull s hs hlt

theorem Distinct.congr (h : Distinct keying c row)
    (hsame : ∀ i < c, (row' i).hash = (row i).hash ∧
      ((row i).hash ≠ 0 → (row' i).key = (row i).key)) : Distinct keying c row' := by
  intro i hi j hj hne hfi hfj heq
  rw [(hsame i hi).1] at hfi heq
  rw [(hsame j hj).1] at hfj heq
  rw [(hsame i hi).2 hfi, (hsame j hj).2 hfj]
  exact h i hi j hj hne hfi hfj heq

/-- A new value leaves hashes and keys as they are. -/
theorem update_value_same (row : Row κ ν) (q : Nat) (value : ν) (i : Nat) :
    (Function.update row q { row q with value } i).hash = (row i).hash ∧
      (Function.update row q { row q with value } i).key = (row i).key := by
  by_cases hi : i = q
  · subst hi
    rw [Function.update_self]
    exact ⟨rfl, rfl⟩
  · rw [Function.update_of_ne hi]
    exact ⟨rfl, rfl⟩

/-- Placing an entry keeps every entry findable. -/
theorem Placed.probing {answer : Option ν} (hplaced : Placed keying c row entry answer row')
    (h : Probing keying c row) (hentry : entry.hash = keying.hash entry.key) :
    Probing keying c row' := by
  cases hplaced with
  | occupied q _ =>
    have hsame := update_value_same row q entry.value
    exact h.congr fun i _ => ⟨(hsame i).1, fun _ => (hsame i).2⟩
  | vacant q hlands =>
    obtain ⟨hq, hempty, hpassed⟩ := hlands
    constructor
    · intro i hi hfull
      by_cases hiq : i = q
      · subst hiq
        rw [Function.update_self]
        exact hentry
      · rw [Function.update_of_ne hiq] at hfull ⊢
        exact h.hashed i hi hfull
    · intro i hi hfull s hs hlt
      by_cases hsq : s = q
      · -- The new entry fills its own slot, so it can only shorten the gaps of the others.
        subst hsq
        by_cases his : i = s
        · subst his
          omega
        · rw [Function.update_of_ne his] at hfull hlt
          exact absurd hempty (h.reached i hi hfull s hs hlt)
      · rw [Function.update_of_ne hsq]
        by_cases hiq : i = q
        · -- The way to the new entry is the way that its probe went.
          subst hiq
          rw [Function.update_self] at hlt
          exact (hpassed s hs hlt).1
        · rw [Function.update_of_ne hiq] at hfull hlt
          exact h.reached i hi hfull s hs hlt

/-- A probe that ends at an empty slot has seen every slot that could hold the key. -/
theorem Probing.not_matches_of_vacant (h : Probing keying c row) {hash : UInt64} {key : κ} {q : Nat}
    (hlands : Lands keying c row hash key (.vacant q)) {i : Nat} (hi : i < c)
    (hfull : (row i).hash ≠ 0) : ¬ Matches keying hash key (row i) := by
  obtain ⟨hq, hempty, hpassed⟩ := hlands
  intro hmatch
  have hc : 0 < c := by omega
  have hhome := home_lt hc hash
  -- A slot with the key lies before `q`, and then it was seen, or behind it, and then `q` is on the
  -- way to it and holds an entry.
  rcases Nat.lt_trichotomy (steps c (home c hash) i) (steps c (home c hash) q) with hlt | heq | hgt
  · exact (hpassed i hi hlt).2 hmatch
  · have hiq := eq_of_steps_eq hi hq hhome heq
    subst hiq
    exact hfull hempty
  · rw [← hmatch.1] at hgt
    exact h.reached i hi hfull q hq hgt hempty

/-- Placing an entry adds no key twice, as long as sameness is symmetric. -/
theorem Placed.distinct {answer : Option ν} (hplaced : Placed keying c row entry answer row')
    (hsymm : ∀ a b, keying.same a b = keying.same b a) (h : Distinct keying c row)
    (hnew : ∀ q, Lands keying c row entry.hash entry.key (.vacant q) →
      ∀ i < c, (row i).hash ≠ 0 → ¬ Matches keying entry.hash entry.key (row i)) :
    Distinct keying c row' := by
  cases hplaced with
  | occupied q _ =>
    have hsame := update_value_same row q entry.value
    exact h.congr fun i _ => ⟨(hsame i).1, fun _ => (hsame i).2⟩
  | vacant q hlands =>
    have hdiff : ∀ i < c, (row i).hash ≠ 0 → (row i).hash = entry.hash →
        keying.same (row i).key entry.key = false := by
      intro i hi hfull heq
      have hno := hnew q hlands i hi hfull
      exact Bool.eq_false_iff.mpr fun hsame => hno ⟨heq, hsame⟩
    intro i hi j hj hne hfi hfj heq
    by_cases hiq : i = q
    · subst hiq
      rw [Function.update_of_ne (Ne.symm hne)] at hfj heq ⊢
      rw [Function.update_self] at heq ⊢
      rw [hsymm]
      exact hdiff j hj hfj heq.symm
    · rw [Function.update_of_ne hiq] at hfi heq ⊢
      by_cases hjq : j = q
      · subst hjq
        rw [Function.update_self] at heq ⊢
        exact hdiff i hi hfi heq
      · rw [Function.update_of_ne hjq] at hfj heq ⊢
        exact h i hi j hj hne hfi hfj heq

/-- Placing an entry changes the contents by that entry. -/
theorem Placed.contents {answer : Option ν} (hplaced : Placed keying c row entry answer row')
    (hentry : entry.hash ≠ 0) :
    (answer = none ∧ (contents c row').Perm (entry :: contents c row)) ∨
      ∃ old rest, answer = some old.value ∧ Matches keying entry.hash entry.key old ∧
        (Row.contents c row).Perm (old :: rest) ∧
        (Row.contents c row').Perm ({ old with value := entry.value } :: rest) := by
  cases hplaced with
  | vacant q hlands => exact .inl ⟨rfl, contents_fill entry hlands.1 hlands.2.1 hentry⟩
  | occupied q hlands =>
    obtain ⟨hq, hfull, hmatch, _⟩ := hlands
    obtain ⟨rest, hbefore, hafter⟩ :=
      contents_change { row q with value := entry.value } hq hfull hfull
    exact .inr ⟨row q, rest, rfl, hmatch, hbefore, hafter⟩

theorem Placed.length_contents {answer : Option ν} (hplaced : Placed keying c row entry answer row')
    (hentry : entry.hash ≠ 0) :
    (Row.contents c row').length = (Row.contents c row).length + if answer.isNone then 1 else 0 := by
  rcases hplaced.contents hentry with ⟨rfl, hperm⟩ | ⟨old, rest, rfl, _, hbefore, hafter⟩
  · simp [hperm.length_eq]
  · simp [hbefore.length_eq, hafter.length_eq]

end Row

end AlignedSlots
