import Mathlib
import AlignedSlots.Proofs.Container.TableSessions
import AlignedSlots.Proofs.Probe.Occupied

/-!
# The occupied slots of a table

Two runs of a table may put the same keys in at different times and in a different order, with other
keys coming and going in between.  The entries then lie in different slots, but
`ProbeTable.session_occupancy` says that the slots that hold an entry are the same ones, as long as the
tables have equally many slots.  An erase leaves no trace in them.
-/

namespace AlignedSlots

namespace ProbeTable

open Row

/-- For every slot, in order, whether it holds an entry. -/
def occupancy {κ ν : Type} (t : ProbeTable κ ν) : Except Fault (List Bool) :=
  (List.range t.capacity).mapM fun i => (· != 0) <$> hashAt t.slots i

/-- A table and its host after some run of steps from a new table.  The heap may refuse any request. -/
def Reached {κ ν : Type} [Element κ] [Element ν] (keying : Keying κ) (s : ProbeTable κ ν × Host) :
    Prop :=
  ∃ (host host' : Host) (t : ProbeTable κ ν) (steps : List (TableStep κ ν)),
    host.heap.placement.InBounds ∧ create keying ν host = .ok t host' ∧
      (Prog.session TableStep.run steps (t, host')).2 = s

section Keys

variable {κ ν ν' : Type} [Element κ] [Element ν] [Element ν'] {t t₁ : ProbeTable κ ν}
  {t' : ProbeTable κ ν'} {host host₁ : Host} {keying : Keying κ} {key : κ} {found : Option ν}

theorem occupancy_eq (h : t.Sound) :
    t.occupancy = .ok ((List.range t.capacity).map fun i => (t.row i).hash != 0) := by
  refine mapM_eq_ok fun i hi => ?_
  rw [hashAt_item h.fitted (List.mem_range.mp hi)]
  rfl

/-- The table has a key where one of its entries does. -/
theorem contains_eq_true_iff (h : t.Sound) (lawful : t.keying.Lawful) :
    t.contains key = .ok true ↔ ∃ e ∈ t.entries, t.keying.same e.key key = true := by
  have hkey := lawful.hash_ne_zero key
  rcases get_lands h hkey with ⟨q, ⟨hq, hfull, ⟨_, hsame⟩, _⟩, hget⟩ | ⟨q, hlands, hget⟩
  · have hmem : t.row q ∈ t.entries := mem_contents_iff.mpr ⟨hfull, q, hq, rfl⟩
    rw [contains_eq_of_get h hkey hget]
    exact iff_of_true rfl ⟨t.row q, hmem, hsame⟩
  · rw [contains_eq_of_get h hkey hget]
    refine iff_of_false nofun ?_
    rintro ⟨e, he, hsame⟩
    exact h.probing.not_same_of_vacant lawful hlands e he hsame

/-- A table that has all keys of another one covers its row. -/
theorem covers_of_contains (h : t.Sound) (h' : t'.Sound) (lawful : t.keying.Lawful)
    (hkeying : t'.keying = t.keying) (hcapacity : t'.capacity = t.capacity)
    (hkeys : ∀ key, t'.contains key = .ok true → t.contains key = .ok true) :
    Covers t.keying t.capacity t.row t'.row := by
  intro i hi hfull
  have hi' : i < t'.capacity := hcapacity ▸ hi
  have hmem : t'.row i ∈ t'.entries := mem_contents_iff.mpr ⟨hfull, i, hi', rfl⟩
  have hhave : t'.contains (t'.row i).key = .ok true :=
    (contains_eq_true_iff h' (hkeying ▸ lawful)).mpr ⟨_, hmem, hkeying ▸ lawful.refl _⟩
  obtain ⟨e, he, hsame⟩ := (contains_eq_true_iff h lawful).mp (hkeys _ hhave)
  obtain ⟨hfe, j, hj, rfl⟩ := mem_contents_iff.mp he
  refine ⟨j, hj, ?_, hsame⟩
  rw [h.probing.hashed j hj hfe, h'.probing.hashed i hi' hfull, hkeying]
  exact lawful.hash_eq _ _ hsame

/-- Slots that are occupied in a table are occupied in a table with more keys. -/
theorem occupied_of_contains (h : t.Tidy) (h' : t'.Tidy) (lawful : t.keying.Lawful)
    (hkeying : t'.keying = t.keying) (hcapacity : t'.capacity = t.capacity)
    (hkeys : ∀ key, t'.contains key = .ok true → t.contains key = .ok true) {i : Nat}
    (hi : i < t.capacity) (hfull : (t'.row i).hash ≠ 0) : (t.row i).hash ≠ 0 := by
  have hprobing := h'.probing
  have hdistinct := h'.distinct
  obtain hspace := h'.exists_empty
  rw [hcapacity, hkeying] at hprobing hdistinct
  rw [hcapacity] at hspace
  exact occupied_of_covers lawful.symm lawful.trans h.probing hprobing hdistinct
    (covers_of_contains h.toSound h'.toSound lawful hkeying hcapacity hkeys) hspace hi hfull

/-- **The keys alone** decide which slots are occupied. -/
theorem occupancy_eq_of_contains (h : t.Tidy) (h' : t'.Tidy) (lawful : t.keying.Lawful)
    (hkeying : t'.keying = t.keying) (hcapacity : t'.capacity = t.capacity)
    (hkeys : ∀ key, t.contains key = .ok true ↔ t'.contains key = .ok true) :
    t.occupancy = t'.occupancy := by
  rw [occupancy_eq h.toSound, occupancy_eq h'.toSound, hcapacity]
  refine congrArg Except.ok (List.map_congr_left fun i hi => ?_)
  have hi := List.mem_range.mp hi
  -- Each table has all keys of the other one, so that neither occupies a slot alone.
  have hiff : (t.row i).hash ≠ 0 ↔ (t'.row i).hash ≠ 0 :=
    ⟨occupied_of_contains h' h (hkeying ▸ lawful) hkeying.symm hcapacity.symm
        (fun key => (hkeys key).mp) (hcapacity ▸ hi),
      occupied_of_contains h h' lawful hkeying hcapacity (fun key => (hkeys key).mpr) hi⟩
  exact Bool.eq_iff_iff.mpr (by simpa only [bne_iff_ne] using hiff)

theorem Effect.capacity_removed (heffect : Effect t host key .remove found t₁ host₁) :
    t₁.capacity = t.capacity := by
  cases heffect with
  | erased _ herased _ => exact herased.capacity_eq
  | absent _ _ => rfl

/-- An erase takes its key away and no other. -/
theorem Effect.contains_removed (heffect : Effect t host key .remove found t₁ host₁) (h : t.Tidy)
    (lawful : t.keying.Lawful) (k : κ) :
    t₁.contains k = .ok true ↔ t.keying.same key k = false ∧ t.contains k = .ok true := by
  have hsound := heffect.sound h.toSound (lawful.hash_ne_zero key)
  rw [contains_eq_true_iff h.toSound lawful,
    contains_eq_true_iff hsound (heffect.keying_eq ▸ lawful), heffect.keying_eq]
  cases heffect with
  | @erased q _ _ hlands herased _ =>
    obtain ⟨hq, hfull, ⟨_, hkey⟩, _⟩ := hlands
    obtain ⟨_, hperm⟩ := herased.entries_perm h lawful.symm hq hfull
    -- No other entry has a key that is the same as the one that goes.
    have hunique := (h.unique lawful).perm hperm.symm lawful.symm
    constructor
    · rintro ⟨e, he, hsame⟩
      have hmem : e ∈ t.entries := hperm.mem_iff.mpr (List.mem_cons_of_mem _ he)
      refine ⟨Bool.eq_false_iff.mpr fun hk => ?_, e, hmem, hsame⟩
      exact hunique.not_same_of_mem lawful (lawful.trans _ _ _ hkey hk) he hsame
    · rintro ⟨hk, e, he, hsame⟩
      rcases List.mem_cons.mp (hperm.mem_iff.mp he) with rfl | hrest
      · rw [lawful.symm] at hkey
        rw [lawful.trans _ _ _ hkey hsame] at hk
        cases hk
      · exact ⟨e, hrest, hsame⟩
  | absent hlands _ =>
    have hnone := h.probing.not_same_of_vacant lawful hlands
    constructor
    · rintro ⟨e, he, hsame⟩
      refine ⟨Bool.eq_false_iff.mpr fun hk => hnone e he ?_, e, he, hsame⟩
      rw [lawful.symm] at hk
      exact lawful.trans _ _ _ hsame hk
    · exact fun h => h.2

end Keys

variable {κ ν ν' : Type} [Element κ] [Element ν] [Element ν'] [LawfulElement κ] [LawfulElement ν]
  [LawfulElement ν'] {keying : Keying κ} {s : ProbeTable κ ν × Host} {s' : ProbeTable κ ν' × Host}

/-- A run of steps leaves a tidy table. -/
theorem Reached.tidy (h : Reached keying s) (lawful : keying.Lawful) :
    s.1.Tidy ∧ s.1.keying = keying ∧ s.2.heap.placement.InBounds := by
  obtain ⟨host, host', t, steps, bounds, hcreate, rfl⟩ := h
  obtain ⟨htidy, hkeying, _, hbounds⟩ := create_tidy bounds hcreate
  refine Prog.session_induct (fun s : ProbeTable κ ν × Host =>
    s.1.Tidy ∧ s.1.keying = keying ∧ s.2.heap.placement.InBounds) ?_ steps ⟨htidy, hkeying, hbounds⟩
  rintro step ⟨t, host⟩ ⟨htidy, rfl, hbounds⟩
  exact run_tidy step htidy (lawful.hash_ne_zero _) lawful.symm hbounds

/-- **The occupied slots are canonical.** Two tables with the same keying and equally many slots that
were reached by any two runs occupy the same slots if they have the same keys.  An erase leaves the
slots occupied that a table without the key occupies. -/
theorem session_occupancy (lawful : keying.Lawful) (hrun : Reached keying s)
    (hrun' : Reached keying s') (hcapacity : s'.1.capacity = s.1.capacity) :
    (∃ slots, s.1.occupancy = .ok slots ∧ slots.length = s.1.capacity) ∧
      ((∀ key, s.1.contains key = s'.1.contains key) → s.1.occupancy = s'.1.occupancy) ∧
      ∀ key, (∀ k, s'.1.contains k = if keying.same key k then .ok false else s.1.contains k) →
        ((TableStep.erase key).run.after s).1.occupancy = s'.1.occupancy := by
  obtain ⟨htidy, hkeying, hbounds⟩ := hrun.tidy lawful
  obtain ⟨htidy', hkeying', _⟩ := hrun'.tidy lawful
  subst hkeying
  refine ⟨⟨_, occupancy_eq htidy.toSound, by simp⟩, fun hkeys => ?_, fun key hkeys => ?_⟩
  · exact occupancy_eq_of_contains htidy htidy' lawful hkeying' hcapacity
      fun key => by rw [hkeys key]
  · have hkey := lawful.hash_ne_zero key
    rcases ((TableStep.erase key).run_ends htidy.toSound hkey s.2 hbounds).cases with
      ⟨_, _, found, _, heffect⟩ | ⟨_, _, _, ⟨_, hstores⟩, _⟩
    · have heffect : Effect s.1 s.2 key .remove found ((TableStep.erase key).run.after s).1
          ((TableStep.erase key).run.after s).2 := heffect
      have hkeying'' := heffect.keying_eq
      refine occupancy_eq_of_contains (heffect.tidy htidy hkey lawful.symm) htidy'
        (hkeying'' ▸ lawful) (hkeying'.trans hkeying''.symm)
        (hcapacity.trans heffect.capacity_removed.symm) fun k => ?_
      rw [heffect.contains_removed htidy lawful k, hkeys k]
      cases s.1.keying.same key k <;> simp
    · cases hstores

/-- Two keys with one hash that were put in either order lie in each other's slots, and occupy the same
ones. -/
theorem session_occupancy_either_order :
    ∃ (t : ProbeTable Bool (FixedInt ⟨32, true⟩)) (host : Host)
      (s s' : ProbeTable Bool (FixedInt ⟨32, true⟩) × Host),
      create ⟨fun _ => 1, (· == ·)⟩ _ Host.ordinary = .ok t host ∧
      (Prog.session TableStep.run [.put true (.ofInt _ 1), .put false (.ofInt _ 2)]
        (t, host)).2 = s ∧
      (Prog.session TableStep.run
        [.put false (.ofInt _ 3), .put true (.ofInt _ 4), .erase true, .put true (.ofInt _ 5)]
        (t, host)).2 = s' ∧
      s.1.toList = .ok [(true, .ofInt _ 1), (false, .ofInt _ 2)] ∧
      s'.1.toList = .ok [(false, .ofInt _ 3), (true, .ofInt _ 5)] ∧
      s.1.occupancy = s'.1.occupancy := by
  have lawful : (⟨fun _ => 1, (· == ·)⟩ : Keying Bool).Lawful := by
    constructor <;> decide
  let steps : List (TableStep Bool (FixedInt ⟨32, true⟩)) :=
    [.put true (.ofInt _ 1), .put false (.ofInt _ 2)]
  let steps' : List (TableStep Bool (FixedInt ⟨32, true⟩)) :=
    [.put false (.ofInt _ 3), .put true (.ofInt _ 4), .erase true, .put true (.ofInt _ 5)]
  obtain ⟨t, host, hcreate, hcapacity, hkeys, hlist, hlist'⟩ :
      ∃ (t : ProbeTable Bool (FixedInt ⟨32, true⟩)) (host : Host),
        create ⟨fun _ => 1, (· == ·)⟩ _ Host.ordinary = .ok t host ∧
        (Prog.session TableStep.run steps' (t, host)).2.1.capacity =
          (Prog.session TableStep.run steps (t, host)).2.1.capacity ∧
        (∀ key, (Prog.session TableStep.run steps (t, host)).2.1.contains key =
          (Prog.session TableStep.run steps' (t, host)).2.1.contains key) ∧
        (Prog.session TableStep.run steps (t, host)).2.1.toList =
          .ok [(true, .ofInt _ 1), (false, .ofInt _ 2)] ∧
        (Prog.session TableStep.run steps' (t, host)).2.1.toList =
          .ok [(false, .ofInt _ 3), (true, .ofInt _ 5)] :=
    ⟨_, _, rfl, by decide +kernel, by decide +kernel, by decide +kernel, by decide +kernel⟩
  have hreached : ∀ steps, Reached ⟨fun _ => 1, (· == ·)⟩
      (Prog.session TableStep.run steps (t, host)).2 := fun steps =>
    ⟨Host.ordinary, host, t, steps, Host.ordinary_sound.inBounds, hcreate, rfl⟩
  exact ⟨t, host, _, _, hcreate, rfl, rfl, hlist, hlist',
    (session_occupancy lawful (hreached steps) (hreached steps') hcapacity).2.1 hkeys⟩

end ProbeTable

end AlignedSlots
