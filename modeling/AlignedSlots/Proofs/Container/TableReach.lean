import Mathlib
import AlignedSlots.Proofs.Container.TableCalls
import AlignedSlots.Proofs.Container.TableOccupancy

/-!
# The tables that runs reach

`ProbeTable.Reached` admits every keying: sameness may be any function, and keys may have the hash 0, so
that the steps with them stop.  `ProbeTable.Reached.sound` and `ProbeTable.Reached.tidy_of_symm` say what
holds of the table all the same.
-/

namespace AlignedSlots

namespace ProbeTable

open Row

variable {κ ν : Type} [Element κ] [Element ν] {t : ProbeTable κ ν} {host : Host} {keying : Keying κ}
  {s : ProbeTable κ ν × Host}

/-! ## Any step -/

/-- What a step leaves, whatever the hash of its key is and however it ends: it has its effect, or it has
made room only, or the table is as it was. -/
inductive Left (t : ProbeTable κ ν) (host : Host) (step : TableStep κ ν) :
    ProbeTable κ ν → Host → Prop
  | done {found : Option ν} {t' : ProbeTable κ ν} {host' : Host} : t.keying.hash step.key ≠ 0 →
      Effect t host step.key step.action found t' host' → Left t host step t' host'
  | room {t' : ProbeTable κ ν} {host' : Host} : MadeRoom t host t' host' → Left t host step t' host'
  | same {host' : Host} : host'.heap.placement = host.heap.placement → Left t host step t host'

namespace Left

variable {step : TableStep κ ν} {t' : ProbeTable κ ν} {host' : Host}

theorem placement_eq (h : Left t host step t' host') :
    host'.heap.placement = host.heap.placement := by
  cases h with
  | done _ heffect => exact heffect.placement_eq
  | room hroom => exact hroom.placement_eq
  | same hplacement => exact hplacement

theorem sound (hleft : Left t host step t' host') (h : t.Sound) : t'.Sound ∧ t'.keying = t.keying := by
  cases hleft with
  | done hkey heffect => exact ⟨heffect.sound h hkey, heffect.keying_eq⟩
  | room hroom => exact ⟨(hroom.sound h).1, (hroom.sound h).2.2⟩
  | same _ => exact ⟨h, rfl⟩

theorem tidy (hleft : Left t host step t' host') (h : t.Tidy)
    (hsymm : ∀ a b, t.keying.same a b = t.keying.same b a) : t'.Tidy := by
  cases hleft with
  | done hkey heffect => exact heffect.tidy h hkey hsymm
  | room hroom => exact (hroom.tidy h hsymm).1
  | same _ => exact h

end Left

variable [LawfulElement κ] [LawfulElement ν]

theorem left_after (step : TableStep κ ν) (h : t.Sound) (host : Host)
    (bounds : host.heap.placement.InBounds) :
    Left t host step (step.run.after (t, host)).1 (step.run.after (t, host)).2 := by
  by_cases hkey : t.keying.hash step.key = 0
  · obtain ⟨_, _, heq, hstopped⟩ := (zero_stops step h hkey host bounds).exists_error
    rw [Prog.after_of_error heq]
    cases hstopped with
    | storing _ hroom => exact .room hroom
    | refused _ hrefused => exact .same hrefused.2.placement_eq
    | other _ => exact .same rfl
  · rcases (step.run_ends h hkey host bounds).cases with
      ⟨_, _, _, _, heffect⟩ | ⟨_, _, _, _, heq, hrefused⟩
    · exact .done hkey heffect
    · rw [heq]
      exact .same hrefused.2.placement_eq

/-! ## Runs -/

/-- What new tables have, and every step keeps, holds of the tables that runs reach; and these are
sound. -/
theorem Reached.induct {P : ProbeTable κ ν → Prop} (h : Reached keying s)
    (hnew : ∀ t : ProbeTable κ ν, t.Tidy → t.keying = keying → P t)
    (hstep : ∀ {t t' : ProbeTable κ ν} {host host' : Host} {step : TableStep κ ν},
      Left t host step t' host' → t.Sound → t.keying = keying → P t → P t') :
    P s.1 ∧ s.1.Sound ∧ s.1.keying = keying ∧ s.2.heap.placement.InBounds := by
  obtain ⟨host, host', t, steps, bounds, hcreate, rfl⟩ := h
  obtain ⟨htidy, hkeying, _, hbounds⟩ := create_tidy bounds hcreate
  refine Prog.session_induct (fun s : ProbeTable κ ν × Host =>
    P s.1 ∧ s.1.Sound ∧ s.1.keying = keying ∧ s.2.heap.placement.InBounds) ?_ steps
    ⟨hnew t htidy hkeying, htidy.toSound, hkeying, hbounds⟩
  rintro step ⟨t, host⟩ ⟨hp, hsound, hkeying, hbounds⟩
  have hleft := left_after step hsound host hbounds
  obtain ⟨hsound', hkeying'⟩ := hleft.sound hsound
  exact ⟨hstep hleft hsound hkeying hp, hsound', hkeying'.trans hkeying,
    hleft.placement_eq ▸ hbounds⟩

/-- **Whatever the keying is**, a run leaves a sound table. -/
theorem Reached.sound (h : Reached keying s) :
    s.1.Sound ∧ s.1.keying = keying ∧ s.2.heap.placement.InBounds :=
  (h.induct (P := fun _ => True) (fun _ _ _ => trivial) fun _ _ _ _ => trivial).2

/-- **With a symmetric sameness**, a run leaves a tidy table, also one with steps that stopped. -/
theorem Reached.tidy_of_symm (h : Reached keying s)
    (hsymm : ∀ a b, keying.same a b = keying.same b a) : s.1.Tidy := by
  refine (h.induct (fun _ htidy _ => htidy) ?_).1
  rintro t t' host host' step hleft - rfl htidy
  exact hleft.tidy htidy hsymm

end ProbeTable

end AlignedSlots
