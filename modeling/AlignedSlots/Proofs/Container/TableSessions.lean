import Mathlib
import AlignedSlots.Proofs.Container.TableSteps

/-!
# Runs of a table

What holds of a table after any run of steps from a new one, with a heap that may refuse any request.

* `ProbeTable.session_representation`: the representation of the table in its slots, for every
  symmetric sameness of keys.
* `ProbeTable.session_refines_map`: the answers and the content are those of a finite map, for every
  lawful keying.
-/

namespace AlignedSlots

/-! ## The map that a run builds -/

namespace FiniteMap

variable {κ ν : Type}

/-- What a step makes of a map. -/
def apply (keying : Keying κ) (m : FiniteMap κ ν) (key : κ) : TableAction ν → FiniteMap κ ν
  | .store value => m.put keying key value
  | .remove => m.erase keying key
  | .look => m

/-- What a step with its answer makes of a map: a step that failed makes nothing of it. -/
def record (keying : Keying κ) (m : FiniteMap κ ν)
    (r : Prog.Record ContainerError (TableStep κ ν) (TableAnswer ν)) : FiniteMap κ ν :=
  match r.2 with
  | .ok _ => m.apply keying r.1.key r.1.action
  | .error _ => m

/-- The answer of a step is that of the map, or the step stores something and its growth is refused. -/
def Explains (m : FiniteMap κ ν)
    (r : Prog.Record ContainerError (TableStep κ ν) (TableAnswer ν)) : Prop :=
  r.2 = .ok (r.1.answer (m.value r.1.key)) ∨ r.1.Stores ∧ r.2 = .error (.error .badAlloc)

/-- Every answer is that of the map which the steps before have built. -/
def ExplainsAll (keying : Keying κ) : FiniteMap κ ν →
    List (Prog.Record ContainerError (TableStep κ ν) (TableAnswer ν)) → Prop
  | _, [] => True
  | m, r :: rest => m.Explains r ∧ (m.record keying r).ExplainsAll keying rest

end FiniteMap

namespace ProbeTable

open Row

variable {κ ν : Type} [Element κ] [Element ν] {keying : Keying κ} {t t' : ProbeTable κ ν}
  {host host' : Host} {key : κ} {action : TableAction ν} {found : Option ν} {m : FiniteMap κ ν}

/-! ## One step and the map -/

theorem Tidy.unique (h : t.Tidy) (lawful : t.keying.Lawful) :
    FiniteMap.Unique t.keying t.entries :=
  h.distinct.unique h.probing lawful

theorem value_eq_of_occupied {q : Nat} (hheld : m.HeldBy t.keying t.entries)
    (hlands : Lands t.keying t.capacity t.row (t.keying.hash key) key (.occupied q)) :
    m.value key = some (t.row q).value := by
  obtain ⟨hq, hfull, ⟨_, hsame⟩, _⟩ := hlands
  have hmem : t.row q ∈ t.entries := mem_contents_iff.mpr ⟨hfull, q, hq, rfl⟩
  unfold FiniteMap.value
  rw [hheld.value_eq_some hmem hsame]
  rfl

theorem value_eq_of_vacant {q : Nat} (h : t.Sound) (lawful : t.keying.Lawful)
    (hheld : m.HeldBy t.keying t.entries)
    (hlands : Lands t.keying t.capacity t.row (t.keying.hash key) key (.vacant q)) :
    m.value key = none := by
  unfold FiniteMap.value
  rw [hheld.eq_none (h.probing.not_same_of_vacant lawful hlands)]
  rfl

/-- Storing an entry stores it in the map. -/
theorem Stored.refines {value : ν} (hstored : Stored t ⟨t.keying.hash key, key, value⟩ found t')
    (h : t.Tidy) (lawful : t.keying.Lawful) (hheld : m.HeldBy t.keying t.entries) :
    found = m.value key ∧ (m.put t.keying key value).HeldBy t.keying t'.entries := by
  have hunique := h.unique lawful
  unfold entries at hheld hunique ⊢
  rw [hstored.capacity_eq]
  have hplaced := hstored.placed
  generalize t'.row = row' at hplaced ⊢
  cases hplaced with
  | vacant q hlands =>
    have hnone := h.probing.not_same_of_vacant lawful hlands
    have hperm := contents_fill ⟨t.keying.hash key, key, value⟩ hlands.1 hlands.2.1
      (lawful.hash_ne_zero key)
    refine ⟨(value_eq_of_vacant h.toSound lawful hheld hlands).symm, ?_⟩
    exact (hheld.put_new ⟨t.keying.hash key, key, value⟩ lawful hnone).perm hperm
  | occupied q hlands =>
    obtain ⟨rest, hbefore, hafter⟩ := contents_change { t.row q with value }
      hlands.1 hlands.2.1 hlands.2.1
    refine ⟨(value_eq_of_occupied hheld hlands).symm, ?_⟩
    have hput := (hheld.perm hbefore.symm).put_old lawful (hunique.perm hbefore.symm lawful.symm)
      hlands.2.2.1.2 value
    exact hput.perm hafter

/-- **Every step** answers from the map, and leaves the entries of the map it makes. -/
theorem Effect.refines (heffect : Effect t host key action found t' host') (h : t.Tidy)
    (lawful : t.keying.Lawful) (hheld : m.HeldBy t.keying t.entries) :
    found = m.value key ∧ (m.apply t.keying key action).HeldBy t.keying t'.entries := by
  cases heffect with
  | stored hroom hstored =>
    obtain ⟨_, _, hkeying⟩ := hroom.sound h.toSound
    obtain ⟨htidy, hperm⟩ := hroom.tidy h lawful.symm
    have hrefines := Stored.refines (m := m) (hkeying.symm ▸ hstored) htidy (hkeying ▸ lawful)
      (hkeying ▸ hheld.perm hperm)
    rw [hkeying] at hrefines
    exact hrefines
  | erased hlands herased _ =>
    obtain ⟨hq, hfull, hmatch, _⟩ := id hlands
    obtain ⟨_, hperm⟩ := herased.entries_perm h lawful.symm hq hfull
    refine ⟨(value_eq_of_occupied hheld hlands).symm, ?_⟩
    exact (hheld.perm hperm.symm).erase_old lawful
      ((h.unique lawful).perm hperm.symm lawful.symm) hmatch.2
  | absent hlands _ =>
    refine ⟨(value_eq_of_vacant h.toSound lawful hheld hlands).symm, ?_⟩
    show (m.erase t.keying key).HeldBy t.keying t.entries
    rw [FiniteMap.erase_eq_self lawful hheld (h.probing.not_same_of_vacant lawful hlands)]
    exact hheld
  | found hlands => exact ⟨(value_eq_of_occupied hheld hlands).symm, hheld⟩
  | missing hlands => exact ⟨(value_eq_of_vacant h.toSound lawful hheld hlands).symm, hheld⟩

/-! ## The representation -/

/-- The representation of a table in its slots: the entries that its slots hold, where they are, and
that no key is held twice. -/
structure Represented (t : ProbeTable κ ν) : Prop where
  read : ∀ i < t.capacity, entryAt t.slots i = .ok (t.row i)
  capacity_eq : ∃ k, t.capacity = 16 * 2 ^ k
  count_eq : (List.range t.capacity).countP (fun i => decide ((t.row i).hash ≠ 0)) = t.length
  length_le : t.length ≤ t.capacity / 2
  hashed : ∀ i < t.capacity, (t.row i).hash ≠ 0 → (t.row i).hash = t.keying.hash (t.row i).key
  /-- Every slot from the home slot of an entry to its own holds an entry. -/
  path : ∀ i < t.capacity, (t.row i).hash ≠ 0 →
    ∃ n < t.capacity, (((t.row i).hash.toNat &&& (t.capacity - 1)) + n) % t.capacity = i ∧
      ∀ j ≤ n, (t.row ((((t.row i).hash.toNat &&& (t.capacity - 1)) + j) % t.capacity)).hash ≠ 0
  distinct : ∀ i < t.capacity, ∀ j < t.capacity, i ≠ j → (t.row i).hash ≠ 0 →
    (t.row j).hash ≠ 0 → (t.row i).hash = (t.row j).hash →
    t.keying.same (t.row i).key (t.row j).key = false ∧
      t.keying.same (t.row j).key (t.row i).key = false

theorem length_entries (t : ProbeTable κ ν) :
    t.entries.length = (List.range t.capacity).countP fun i => decide ((t.row i).hash ≠ 0) :=
  length_contents t.capacity t.row

/-- Every slot from the home slot of an entry to its own holds an entry. -/
theorem Sound.path (h : t.Sound) {i : Nat} (hi : i < t.capacity) (hfull : (t.row i).hash ≠ 0) :
    ∃ n < t.capacity, (((t.row i).hash.toNat &&& (t.capacity - 1)) + n) % t.capacity = i ∧
      ∀ j ≤ n, (t.row ((((t.row i).hash.toNat &&& (t.capacity - 1)) + j) % t.capacity)).hash ≠ 0 := by
  have hpos : 0 < t.capacity := Nat.zero_lt_of_lt hi
  have hhome : home t.capacity (t.row i).hash < t.capacity := home_lt hpos _
  have hmask : (t.row i).hash.toNat &&& (t.capacity - 1) = home t.capacity (t.row i).hash :=
    Cyclic.and_mask h.fitted.power
  rw [hmask]
  refine ⟨Cyclic.steps t.capacity (home t.capacity (t.row i).hash) i, Cyclic.steps_lt hi hhome,
    Cyclic.add_steps_mod hi hhome, fun j hj => ?_⟩
  rcases Nat.lt_or_eq_of_le hj with hlt | rfl
  · have hround := Cyclic.steps_lt hi hhome
    have hsteps := Cyclic.steps_add_mod hhome (Nat.lt_trans hlt hround)
    exact h.probing.reached i hi hfull _ (Nat.mod_lt _ hpos) (by rw [hsteps]; exact hlt)
  · rw [Cyclic.add_steps_mod hi hhome]
    exact hfull

theorem Tidy.represented (h : t.Tidy) : t.Represented := by
  refine ⟨fun i hi => entryAt_eq h.fitted hi, h.capacity_eq, ?_, h.length_le, h.probing.hashed,
    fun i hi hfull => h.path hi hfull, ?_⟩
  · rw [← length_entries]
    exact h.length_eq
  · intro i hi j hj hne hfi hfj heq
    exact ⟨h.distinct i hi j hj hne hfi hfj heq, h.distinct j hj i hi hne.symm hfj hfi heq.symm⟩

/-! ## Reading -/

/-- What a table with the entries of a map answers to every read. -/
structure Shows (t : ProbeTable κ ν) (m : FiniteMap κ ν) : Prop where
  get_eq : ∀ key, t.get key = .ok (m.value key)
  contains_eq : ∀ key, t.contains key = .ok (m key).isSome
  /-- The pairs of an iteration are those of the map, each once, and the length counts them. -/
  toList_eq : ∃ pairs, t.toList = .ok pairs ∧ t.length = pairs.length ∧
    pairs.Pairwise (fun p q => t.keying.same p.1 q.1 = false) ∧
    ∀ key p, m key = some p ↔ p ∈ pairs ∧ t.keying.same p.1 key = true

theorem Tidy.shows (h : t.Tidy) (lawful : t.keying.Lawful) (hheld : m.HeldBy t.keying t.entries) :
    t.Shows m := by
  have hget : ∀ key, t.get key = .ok (m.value key) := by
    intro key
    rcases get_lands h.toSound (lawful.hash_ne_zero key) with ⟨q, hlands, hget⟩ | ⟨q, hlands, hget⟩
    · rw [hget, value_eq_of_occupied hheld hlands]
    · rw [hget, value_eq_of_vacant h.toSound lawful hheld hlands]
  refine ⟨hget, fun key => ?_, _, toList_eq h.toSound, ?_, ?_, fun key p => ?_⟩
  · rw [contains_eq_of_get h.toSound (lawful.hash_ne_zero key) (hget key)]
    unfold FiniteMap.value
    rw [Option.isSome_map]
  · rw [List.length_map]
    exact h.length_eq.symm
  · exact List.pairwise_map.mpr (h.unique lawful)
  · rw [hheld key p]
    constructor
    · rintro ⟨e, he, hsame, rfl⟩
      exact ⟨List.mem_map.mpr ⟨e, he, rfl⟩, hsame⟩
    · rintro ⟨hmem, hsame⟩
      obtain ⟨e, he, rfl⟩ := List.mem_map.mp hmem
      exact ⟨e, he, hsame, rfl⟩

/-! ## Runs -/

variable [LawfulElement κ] [LawfulElement ν]

/-- What a step leaves behind. -/
theorem run_tidy (step : TableStep κ ν) (h : t.Tidy) (hkey : t.keying.hash step.key ≠ 0)
    (hsymm : ∀ a b, t.keying.same a b = t.keying.same b a) (bounds : host.heap.placement.InBounds) :
    (step.run.after (t, host)).1.Tidy ∧ (step.run.after (t, host)).1.keying = t.keying ∧
      (step.run.after (t, host)).2.heap.placement.InBounds := by
  rcases (step.run_ends h.toSound hkey host bounds).cases with
    ⟨_, _, _, _, heffect⟩ | ⟨_, _, _, _, heq, _, hrefuses⟩
  · exact ⟨heffect.tidy h hkey hsymm, heffect.keying_eq, heffect.placement_eq ▸ bounds⟩
  · rw [heq]
    exact ⟨h, rfl, hrefuses.placement_eq ▸ bounds⟩

/-- A new table is tidy. -/
theorem create_tidy (bounds : host.heap.placement.InBounds)
    (hcreate : create keying ν host = .ok t host') :
    t.Tidy ∧ t.keying = keying ∧ t.entries = [] ∧ host'.heap.placement.InBounds := by
  have hvalid := valid_of_create_eq_ok hcreate
  rcases (create_ends keying host hvalid bounds).run_eq with
    ⟨t₁, host₁, heq, hsound, hkeying, hentries, hlength, _, _, _, hheap⟩ | ⟨_, _, heq, _⟩
  · rw [hcreate] at heq
    cases heq
    have hempty : ∀ i < t.capacity, (t.row i).hash = 0 := fun i hi =>
      hash_eq_zero_of_contents hentries hi
    refine ⟨⟨hsound, distinct_of_empty hempty, ?_⟩, hkeying, hentries, ?_⟩
    · rw [hentries, hlength]
      rfl
    · rw [hheap]
      exact bounds
  · rw [hcreate] at heq
    cases heq

/-- A run of steps from a new table leaves a tidy one. -/
theorem session_tidy (hzero : ∀ a, keying.hash a ≠ 0)
    (hsymm : ∀ a b, keying.same a b = keying.same b a) (bounds : host.heap.placement.InBounds)
    (hcreate : create keying ν host = .ok t host') (steps : List (TableStep κ ν)) :
    (Prog.session TableStep.run steps (t, host')).2.1.Tidy ∧
      (Prog.session TableStep.run steps (t, host')).2.1.keying = keying ∧
      (Prog.session TableStep.run steps (t, host')).2.2.heap.placement.InBounds := by
  obtain ⟨htidy, hkeying, _, hbounds⟩ := create_tidy bounds hcreate
  let Kept : ProbeTable κ ν × Host → Prop := fun s =>
    s.1.Tidy ∧ s.1.keying = keying ∧ s.2.heap.placement.InBounds
  have hstep : ∀ (step : TableStep κ ν) s, Kept s → Kept (step.run.after s) := by
    rintro step ⟨t, host⟩ ⟨htidy, hkeying, hbounds⟩
    subst hkeying
    exact run_tidy step htidy (hzero _) hsymm hbounds
  have hstart : Kept (t, host') := ⟨htidy, hkeying, hbounds⟩
  exact Prog.session_induct Kept hstep steps hstart

/-- **The representation of a table** after any run of steps, refused growths included.  Sameness only
has to be symmetric: a key may differ from itself. -/
theorem session_representation (hzero : ∀ a, keying.hash a ≠ 0)
    (hsymm : ∀ a b, keying.same a b = keying.same b a) (bounds : host.heap.placement.InBounds)
    (hcreate : create keying ν host = .ok t host') (steps : List (TableStep κ ν)) :
    (Prog.session TableStep.run steps (t, host')).2.1.keying = keying ∧
      (Prog.session TableStep.run steps (t, host')).2.1.Represented := by
  obtain ⟨htidy, hkeying, _⟩ := session_tidy hzero hsymm bounds hcreate steps
  exact ⟨hkeying, htidy.represented⟩

/-- Keys that never are the same, not even as themselves, can be put twice. -/
theorem session_representation_never_same :
    ∃ (t : ProbeTable (FixedInt ⟨32, true⟩) (FixedInt ⟨32, true⟩)) (host' : Host),
      create ⟨fun _ => 1, fun _ _ => false⟩ _ Host.ordinary = .ok t host' ∧
        (Prog.session TableStep.run
          [.put (.ofInt _ 7) (.ofInt _ 1), .put (.ofInt _ 7) (.ofInt _ 2), .erase (.ofInt _ 7)]
          (t, host')).2.1.Represented := by
  obtain ⟨t, host', hcreate⟩ := exists_create_eq_ok (ν := FixedInt ⟨32, true⟩)
    ⟨fun _ : FixedInt ⟨32, true⟩ => 1, fun _ _ => false⟩ Host.ordinary (64 + 2 ^ 37)
    (by decide) Host.ordinary_sound.inBounds (by decide) (by decide)
  exact ⟨t, host', hcreate, (session_representation (fun _ => (by decide : (1 : UInt64) ≠ 0))
    (fun _ _ => rfl) Host.ordinary_sound.inBounds hcreate _).2⟩

/-- A run from a table with the entries of a map. -/
theorem session_explained (lawful : keying.Lawful) (steps : List (TableStep κ ν)) (h : t.Tidy)
    (hkeying : t.keying = keying) (hheld : m.HeldBy keying t.entries)
    (bounds : host.heap.placement.InBounds) :
    m.ExplainsAll keying (Prog.session TableStep.run steps (t, host)).1 ∧
      ((Prog.session TableStep.run steps (t, host)).1.foldl (FiniteMap.record keying) m).HeldBy keying
        (Prog.session TableStep.run steps (t, host)).2.1.entries := by
  induction steps generalizing t host m with
  | nil => exact ⟨trivial, hheld⟩
  | cons step rest ih =>
    subst hkeying
    obtain ⟨htidy, hkeying, hbounds⟩ :=
      run_tidy step h (lawful.hash_ne_zero _) lawful.symm bounds
    have hstep : m.Explains (step, step.run.answer (t, host)) ∧
        (m.record t.keying (step, step.run.answer (t, host))).HeldBy t.keying
          (step.run.after (t, host)).1.entries := by
      rcases (step.run_ends h.toSound (lawful.hash_ne_zero _) host bounds).cases with
        ⟨_, hanswer, found, rfl, heffect⟩ | ⟨_, hanswer, rfl, hstores, heq, _⟩
      · obtain ⟨rfl, hheld'⟩ := heffect.refines h lawful hheld
        unfold FiniteMap.Explains FiniteMap.record
        rw [hanswer]
        exact ⟨.inl rfl, hheld'⟩
      · unfold FiniteMap.Explains FiniteMap.record
        rw [hanswer, heq]
        exact ⟨.inr ⟨hstores, rfl⟩, hheld⟩
    obtain ⟨hall, hrest⟩ := ih htidy hkeying hstep.2 hbounds
    exact ⟨⟨hstep.1, hall⟩, hrest⟩

/-- **A table is a finite map**: every answer of a run of steps from a new table is that of the map
which the steps before have built, apart from refused growths, which change nothing; and after the run
every key reads as in the map.  A step that fails next needs a growth that is refused, and leaves the table
as it is.  FNV-1a is a lawful keying where equal keys have equal digests. -/
theorem session_refines_map (lawful : keying.Lawful) (bounds : host.heap.placement.InBounds)
    (hcreate : create keying ν host = .ok t host') (steps : List (TableStep κ ν)) :
    FiniteMap.empty.ExplainsAll keying (Prog.session TableStep.run steps (t, host')).1 ∧
      (Prog.session TableStep.run steps (t, host')).2.1.keying = keying ∧
      (Prog.session TableStep.run steps (t, host')).2.1.Shows
        ((Prog.session TableStep.run steps (t, host')).1.foldl (FiniteMap.record keying)
          FiniteMap.empty) ∧
      (∀ (step : TableStep κ ν) (e : Failure ContainerError) s,
        (Prog.session TableStep.run steps (t, host')).2 = s → step.run.answer s = .error e →
        Failed s.1 s.2 step e (step.run.after s).1 (step.run.after s).2) ∧
      ∀ [Digest κ] [BEq κ] [EquivBEq κ],
        (∀ a b : κ, (a == b) = true → Digest.digest a = Digest.digest b) →
          (Keying.fnv κ).Lawful := by
  obtain ⟨htidy, hkeying, hentries, hbounds⟩ := create_tidy bounds hcreate
  have hheld : (FiniteMap.empty : FiniteMap κ ν).HeldBy keying t.entries := by
    rw [hentries]
    exact FiniteMap.heldBy_nil keying
  obtain ⟨hall, hheld'⟩ := session_explained lawful steps htidy hkeying hheld hbounds
  obtain ⟨htidy', hkeying', hbounds'⟩ :=
    session_tidy lawful.hash_ne_zero lawful.symm bounds hcreate steps
  refine ⟨hall, hkeying', htidy'.shows (hkeying' ▸ lawful) (hkeying' ▸ hheld'), ?_, Keying.lawful_fnv⟩
  rintro step e ⟨t', host⟩ hs he
  rw [hs] at htidy' hkeying' hbounds'
  subst hkeying'
  rcases (step.run_ends htidy'.toSound (lawful.hash_ne_zero _) host hbounds').cases with
    ⟨_, hanswer, _⟩ | ⟨e', hanswer, hfailed⟩
  · rw [hanswer] at he
    cases he
  · rw [hanswer] at he
    cases he
    exact hfailed

/-- Integers under FNV-1a: 7 reads as it was last updated, and 8 is gone. -/
theorem session_refines_map_fnv :
    ∃ (t : ProbeTable (FixedInt ⟨32, true⟩) (FixedInt ⟨32, true⟩)) (host' : Host)
      (s : ProbeTable (FixedInt ⟨32, true⟩) (FixedInt ⟨32, true⟩) × Host),
      (Keying.fnv (FixedInt ⟨32, true⟩)).Lawful ∧ Host.ordinary.heap.placement.InBounds ∧
      create (Keying.fnv _) _ Host.ordinary = .ok t host' ∧
      (Prog.session TableStep.run
        [.put (.ofInt _ 7) (.ofInt _ 1), .put (.ofInt _ 8) (.ofInt _ 3),
          .update (.ofInt _ 7) (some (.ofInt _ 2)), .erase (.ofInt _ 8)] (t, host')).2 = s ∧
      s.1.get (.ofInt _ 7) = .ok (some (.ofInt _ 2)) ∧ s.1.contains (.ofInt _ 7) = .ok true ∧
      s.1.get (.ofInt _ 8) = .ok none ∧ s.1.contains (.ofInt _ 8) = .ok false := by
  let steps : List (TableStep (FixedInt ⟨32, true⟩) (FixedInt ⟨32, true⟩)) :=
    [.put (.ofInt _ 7) (.ofInt _ 1), .put (.ofInt _ 8) (.ofInt _ 3),
      .update (.ofInt _ 7) (some (.ofInt _ 2)), .erase (.ofInt _ 8)]
  have lawful : (Keying.fnv (FixedInt ⟨32, true⟩)).Lawful :=
    Keying.lawful_fnv fun a b h => congrArg Digest.digest (eq_of_beq h)
  -- The heap has room, so that the map is the one of all four steps.
  obtain ⟨t, host', hcreate, hseven, hgone⟩ :
      ∃ (t : ProbeTable (FixedInt ⟨32, true⟩) (FixedInt ⟨32, true⟩)) (host' : Host),
        create (Keying.fnv _) _ Host.ordinary = .ok t host' ∧
        ((Prog.session TableStep.run steps (t, host')).1.foldl (FiniteMap.record (Keying.fnv _))
          FiniteMap.empty) (.ofInt _ 7) = some (.ofInt _ 7, .ofInt _ 2) ∧
        ((Prog.session TableStep.run steps (t, host')).1.foldl (FiniteMap.record (Keying.fnv _))
          FiniteMap.empty) (.ofInt _ 8) = none :=
    ⟨_, _, rfl, by decide +kernel⟩
  obtain ⟨_, _, hshows, _⟩ :=
    session_refines_map lawful Host.ordinary_sound.inBounds hcreate steps
  refine ⟨t, host', _, lawful, Host.ordinary_sound.inBounds, hcreate, rfl, ?_, ?_, ?_, ?_⟩
  · rw [hshows.get_eq, FiniteMap.value, hseven]
    rfl
  · rw [hshows.contains_eq, hseven]
    rfl
  · rw [hshows.get_eq, FiniteMap.value, hgone]
    rfl
  · rw [hshows.contains_eq, hgone]
    rfl

end ProbeTable

end AlignedSlots
