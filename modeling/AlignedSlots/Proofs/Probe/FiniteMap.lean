import Mathlib
import AlignedSlots.Proofs.Probe.Row

/-!
# Finite maps up to sameness

What a table stands for: a map that answers, for a key, the key that is stored for it and its value.
Two keys that are the same have the same answer, but the stored key is the one that came first.

`FiniteMap.HeldBy` says that a list of entries is the content of a map.  The lemmas say what adding,
changing and taking away one entry means for the map.
-/

namespace AlignedSlots

/-- A keying that a table can rely on: sameness is an equivalence, and keys that are the same have the
same hash, which is not 0. -/
structure Keying.Lawful {κ : Type} (keying : Keying κ) : Prop where
  hash_ne_zero : ∀ a, keying.hash a ≠ 0
  refl : ∀ a, keying.same a a = true
  symm : ∀ a b, keying.same a b = keying.same b a
  trans : ∀ a b c, keying.same a b = true → keying.same b c = true → keying.same a c = true
  hash_eq : ∀ a b, keying.same a b = true → keying.hash a = keying.hash b

/-- FNV-1a and an equality are lawful where equal keys have equal digests. -/
theorem Keying.lawful_fnv {κ : Type} [Digest κ] [BEq κ] [EquivBEq κ]
    (h : ∀ a b : κ, (a == b) = true → Digest.digest a = Digest.digest b) : (fnv κ).Lawful where
  hash_ne_zero _ := nonzero_ne_zero _
  refl _ := BEq.refl _
  symm a b := BEq.comm
  trans _ _ _ hab hbc := BEq.trans hab hbc
  hash_eq a b hab := by
    show nonzero (AlignedSlots.fnvHash a) = nonzero (AlignedSlots.fnvHash b)
    unfold AlignedSlots.fnvHash
    rw [h a b hab]

/-- A finite map: for a key, the stored key and its value. -/
abbrev FiniteMap (κ ν : Type) := κ → Option (κ × ν)

namespace FiniteMap

variable {κ ν : Type} {keying : Keying κ} {m : FiniteMap κ ν} {key : κ}
  {entries entries' rest : List (Entry κ ν)} {old : Entry κ ν}

/-- The map without keys. -/
def empty : FiniteMap κ ν := fun _ => none

/-- The value of a key. -/
def value (m : FiniteMap κ ν) (key : κ) : Option ν := (m key).map Prod.snd

/-- Gives a key a value.  A key that is there already stays the stored one. -/
def put (keying : Keying κ) (m : FiniteMap κ ν) (key : κ) (value : ν) : FiniteMap κ ν := fun k =>
  if keying.same key k then some (((m key).map Prod.fst).getD key, value) else m k

/-- Takes a key away. -/
def erase (keying : Keying κ) (m : FiniteMap κ ν) (key : κ) : FiniteMap κ ν := fun k =>
  if keying.same key k then none else m k

/-- The entries are the content of the map. -/
def HeldBy (keying : Keying κ) (m : FiniteMap κ ν) (entries : List (Entry κ ν)) : Prop :=
  ∀ k p, m k = some p ↔ ∃ e ∈ entries, keying.same e.key k = true ∧ (e.key, e.value) = p

/-- No two entries have the same key. -/
def Unique (keying : Keying κ) (entries : List (Entry κ ν)) : Prop :=
  entries.Pairwise fun a b => keying.same a.key b.key = false

theorem heldBy_nil (keying : Keying κ) : (empty : FiniteMap κ ν).HeldBy keying [] := by
  intro k p
  simp [empty]

theorem HeldBy.perm (h : m.HeldBy keying entries) (hperm : entries'.Perm entries) :
    m.HeldBy keying entries' := by
  intro k p
  rw [h k p]
  simp only [hperm.mem_iff]

theorem Unique.perm (h : Unique keying entries) (hperm : entries'.Perm entries)
    (hsymm : ∀ a b, keying.same a b = keying.same b a) : Unique keying entries' :=
  (hperm.pairwise_iff fun hab => (hsymm _ _).trans hab).mpr h

/-- Besides an entry no other one has its key. -/
theorem Unique.not_same_of_mem (h : Unique keying (old :: rest)) (lawful : keying.Lawful) {k : κ}
    (hold : keying.same old.key k = true) {e : Entry κ ν} (he : e ∈ rest) :
    ¬ keying.same e.key k = true := by
  intro hek
  rw [lawful.symm] at hek
  have hsame := lawful.trans _ _ _ hold hek
  rw [(List.pairwise_cons.mp h).1 e he] at hsame
  cases hsame

theorem HeldBy.value_eq_some (h : m.HeldBy keying entries) (hmem : old ∈ entries)
    (hsame : keying.same old.key key = true) : m key = some (old.key, old.value) :=
  (h _ _).mpr ⟨old, hmem, hsame, rfl⟩

theorem HeldBy.eq_none (h : m.HeldBy keying entries)
    (hnone : ∀ e ∈ entries, ¬ keying.same e.key key = true) : m key = none := by
  rw [Option.eq_none_iff_forall_ne_some]
  intro p hp
  obtain ⟨e, he, hsame, _⟩ := (h key p).mp hp
  exact hnone e he hsame

/-- A new key is one more entry. -/
theorem HeldBy.put_new (entry : Entry κ ν) (lawful : keying.Lawful) (h : m.HeldBy keying entries)
    (hnone : ∀ e ∈ entries, ¬ keying.same e.key entry.key = true) :
    (m.put keying entry.key entry.value).HeldBy keying (entry :: entries) := by
  intro k p
  unfold put
  rw [h.eq_none hnone]
  by_cases hk : keying.same entry.key k = true
  · rw [if_pos hk]
    constructor
    · intro hp
      exact ⟨entry, List.mem_cons_self, hk, Option.some.inj hp⟩
    · rintro ⟨e, he, hsame, rfl⟩
      rcases List.mem_cons.mp he with rfl | he
      · rfl
      · rw [lawful.symm] at hk
        exact absurd (lawful.trans _ _ _ hsame hk) (hnone e he)
  · rw [if_neg hk, h k p]
    constructor
    · rintro ⟨e, he, hsame, hp⟩
      exact ⟨e, List.mem_cons_of_mem _ he, hsame, hp⟩
    · rintro ⟨e, he, hsame, hp⟩
      rcases List.mem_cons.mp he with rfl | he
      · exact absurd hsame hk
      · exact ⟨e, he, hsame, hp⟩

/-- A key that is there keeps its entry, with another value. -/
theorem HeldBy.put_old (lawful : keying.Lawful) (h : m.HeldBy keying (old :: rest))
    (hunique : Unique keying (old :: rest)) (hsame : keying.same old.key key = true) (value : ν) :
    (m.put keying key value).HeldBy keying ({ old with value } :: rest) := by
  have hstored : m key = some (old.key, old.value) := h.value_eq_some List.mem_cons_self hsame
  have hiff : ∀ k, keying.same old.key k = keying.same key k := by
    intro k
    apply Bool.eq_iff_iff.mpr
    constructor
    · intro hk
      exact lawful.trans _ _ _ (lawful.symm old.key key ▸ hsame) hk
    · exact lawful.trans _ _ _ hsame
  intro k p
  unfold put
  rw [hstored, ← hiff k]
  by_cases hk : keying.same old.key k = true
  · rw [if_pos hk]
    constructor
    · intro hp
      exact ⟨{ old with value }, List.mem_cons_self, hk, Option.some.inj hp⟩
    · rintro ⟨e, he, hek, rfl⟩
      rcases List.mem_cons.mp he with rfl | he
      · rfl
      · exact absurd hek (hunique.not_same_of_mem lawful hk he)
  · rw [if_neg hk, h k p]
    constructor
    · rintro ⟨e, he, hek, hp⟩
      rcases List.mem_cons.mp he with rfl | he
      · exact absurd hek hk
      · exact ⟨e, List.mem_cons_of_mem _ he, hek, hp⟩
    · rintro ⟨e, he, hek, hp⟩
      rcases List.mem_cons.mp he with rfl | he
      · exact absurd hek hk
      · exact ⟨e, List.mem_cons_of_mem _ he, hek, hp⟩

/-- A key that is taken away loses its entry. -/
theorem HeldBy.erase_old (lawful : keying.Lawful) (h : m.HeldBy keying (old :: rest))
    (hunique : Unique keying (old :: rest)) (hsame : keying.same old.key key = true) :
    (m.erase keying key).HeldBy keying rest := by
  intro k p
  unfold erase
  by_cases hk : keying.same key k = true
  · have hold := lawful.trans _ _ _ hsame hk
    rw [if_pos hk]
    constructor
    · intro hp
      cases hp
    · rintro ⟨e, he, hek, _⟩
      exact absurd hek (hunique.not_same_of_mem lawful hold he)
  · rw [if_neg hk, h k p]
    constructor
    · rintro ⟨e, he, hek, hp⟩
      rcases List.mem_cons.mp he with rfl | he
      · rw [lawful.symm] at hsame
        exact absurd (lawful.trans _ _ _ hsame hek) hk
      · exact ⟨e, he, hek, hp⟩
    · rintro ⟨e, he, hek, hp⟩
      exact ⟨e, List.mem_cons_of_mem _ he, hek, hp⟩

/-- Taking away a key that is not there changes nothing. -/
theorem erase_eq_self (lawful : keying.Lawful) (h : m.HeldBy keying entries)
    (hnone : ∀ e ∈ entries, ¬ keying.same e.key key = true) : m.erase keying key = m := by
  funext k
  unfold erase
  by_cases hk : keying.same key k = true
  · rw [if_pos hk]
    symm
    apply h.eq_none
    intro e he hek
    rw [lawful.symm] at hk
    exact hnone e he (lawful.trans _ _ _ hek hk)
  · rw [if_neg hk]

end FiniteMap

/-! ## The entries of a row -/

namespace Row

variable {κ ν : Type} {c : Nat} {row : Row κ ν} {keying : Keying κ} {key : κ}

/-- In a row of distinct keys no two entries have the same key. -/
theorem Distinct.unique (h : Distinct keying c row) (hprobing : Probing keying c row)
    (lawful : keying.Lawful) : FiniteMap.Unique keying (contents c row) := by
  unfold FiniteMap.Unique contents gather
  rw [List.pairwise_filter, List.pairwise_map]
  apply List.pairwise_lt_range.imp_of_mem
  intro i j hi hj hlt hfi hfj
  have hfull : ∀ e : Entry κ ν, (!e.isEmpty) = true → e.hash ≠ 0 := by
    intro e he hzero
    rw [(isEmpty_iff e).mpr hzero] at he
    cases he
  have hi := List.mem_range.mp hi
  have hj := List.mem_range.mp hj
  by_contra hsame
  have hsame := Bool.not_eq_false _ ▸ hsame
  have hhash : (row i).hash = (row j).hash := by
    rw [hprobing.hashed i hi (hfull _ hfi), hprobing.hashed j hj (hfull _ hfj)]
    exact lawful.hash_eq _ _ hsame
  rw [h i hi j hj (Nat.ne_of_lt hlt) (hfull _ hfi) (hfull _ hfj) hhash] at hsame
  cases hsame

/-- A probe that ends at an empty slot proves that no entry has the key. -/
theorem Probing.not_same_of_vacant (h : Probing keying c row) (lawful : keying.Lawful) {q : Nat}
    (hlands : Lands keying c row (keying.hash key) key (.vacant q)) :
    ∀ e ∈ contents c row, ¬ keying.same e.key key = true := by
  intro e he hsame
  obtain ⟨hfull, i, hi, rfl⟩ := mem_contents_iff.mp he
  refine h.not_matches_of_vacant hlands hi hfull ⟨?_, hsame⟩
  rw [h.hashed i hi hfull]
  exact lawful.hash_eq _ _ hsame

end Row

end AlignedSlots
