import Mathlib
import AlignedSlots.Proofs.Container.TableLaws
import AlignedSlots.Proofs.Probe.FiniteMap

/-!
# Steps of a table

A step is one call of an operation with its arguments.  `ProbeTable.Effect` says what a step does to a
table, and `ProbeTable.Failed` why it fails; `TableStep.run_ends` shows that every step comes to one of the
two.  Whatever holds along a run of steps is then shown for the five cases of `ProbeTable.Effect`.
-/

namespace AlignedSlots

/-- An operation of a table and its arguments. -/
inductive TableStep (κ ν : Type) where
  | put (key : κ) (value : ν)
  | erase (key : κ)
  | update (key : κ) (value : Option ν)
  | get (key : κ)
  | contains (key : κ)

/-- What a step answers. -/
inductive TableAnswer (ν : Type) where
  | value (value : Option ν)
  | present (answer : Bool)
  deriving DecidableEq

/-- What a step does about its key. -/
inductive TableAction (ν : Type) where
  | store (value : ν)
  | remove
  | look

namespace TableStep

variable {κ ν : Type}

/-- The key of a step. -/
def key : TableStep κ ν → κ
  | put key _ => key
  | erase key => key
  | update key _ => key
  | get key => key
  | contains key => key

def action : TableStep κ ν → TableAction ν
  | put _ value => .store value
  | erase _ => .remove
  | update _ (some value) => .store value
  | update _ none => .remove
  | get _ => .look
  | contains _ => .look

/-- A step that stores something. -/
def Stores (step : TableStep κ ν) : Prop := ∃ value, step.action = .store value

theorem not_stores {step : TableStep κ ν} (h : step.action = .remove ∨ step.action = .look) :
    ¬ step.Stores := by
  rintro ⟨value, hstore⟩
  rcases h with haction | haction <;> rw [haction] at hstore <;> cases hstore

/-- The answer of a step that finds a value, or none. -/
def answer (step : TableStep κ ν) (value : Option ν) : TableAnswer ν :=
  match step with
  | contains _ => .present value.isSome
  | _ => .value value

/-- Runs a step. -/
def run [Element κ] [Element ν] :
    TableStep κ ν → Hosted ContainerError (ProbeTable κ ν) (TableAnswer ν)
  | put key value => TableAnswer.value <$> ProbeTable.put key value
  | erase key => TableAnswer.value <$> ProbeTable.erase key
  | update key value => TableAnswer.value <$> ProbeTable.update key value
  | get key => TableAnswer.value <$> ProbeTable.ask fun t => Failure.ofChecked (t.get key)
  | contains key => TableAnswer.present <$> ProbeTable.ask fun t => Failure.ofChecked (t.contains key)

end TableStep

namespace ProbeTable

open Row

variable {κ ν : Type} [Element κ] [Element ν] {t t' : ProbeTable κ ν} {host host' : Host} {key : κ}
  {action : TableAction ν} {found : Option ν}

/-- What a step does that finds a value for its key, or none. -/
inductive Effect (t : ProbeTable κ ν) (host : Host) (key : κ) :
    TableAction ν → Option ν → ProbeTable κ ν → Host → Prop
  | stored {value : ν} {found : Option ν} {t₁ t' : ProbeTable κ ν} {host' : Host} :
      MadeRoom t host t₁ host' → Stored t₁ ⟨t.keying.hash key, key, value⟩ found t' →
      Effect t host key (.store value) found t' host'
  | erased {q : Nat} {t' : ProbeTable κ ν} {host' : Host} :
      Lands t.keying t.capacity t.row (t.keying.hash key) key (.occupied q) → Erased t q t' →
      host'.heap = host.heap → Effect t host key .remove (some (t.row q).value) t' host'
  | absent {q : Nat} {host' : Host} :
      Lands t.keying t.capacity t.row (t.keying.hash key) key (.vacant q) →
      host'.heap = host.heap → Effect t host key .remove none t host'
  | found {q : Nat} :
      Lands t.keying t.capacity t.row (t.keying.hash key) key (.occupied q) →
      Effect t host key .look (some (t.row q).value) t host
  | missing {q : Nat} :
      Lands t.keying t.capacity t.row (t.keying.hash key) key (.vacant q) →
      Effect t host key .look none t host

/-- The growth that a step needs is refused. -/
def GrowthRefused (t : ProbeTable κ ν) (host host' : Host) : Prop :=
  t.isHalfFull = true ∧
    Parcel.Refuses host.heap (blockAlign κ ν) (bytesOf κ ν (t.capacity * 2)) host'.heap

/-- A step that has failed: it stores something, the growth that it needs is refused, and the table is as
it was. -/
structure Failed (t : ProbeTable κ ν) (host : Host) (step : TableStep κ ν) (e : Failure ContainerError)
    (t' : ProbeTable κ ν) (host' : Host) : Prop where
  answer_eq : e = .error .badAlloc
  stores : step.Stores
  unchanged : t' = t
  cause : GrowthRefused t host host'

theorem Effect.keying_eq (h : Effect t host key action found t' host') : t'.keying = t.keying := by
  cases h with
  | stored hroom hstored =>
    rcases hroom with ⟨_, rfl, _⟩ | ⟨_, hdoubled, _⟩
    · exact hstored.keying_eq
    · exact hstored.keying_eq.trans hdoubled.keying_eq
  | erased _ herased _ => exact herased.keying_eq
  | absent _ _ => rfl
  | found _ => rfl
  | missing _ => rfl

theorem Effect.placement_eq (h : Effect t host key action found t' host') :
    host'.heap.placement = host.heap.placement := by
  cases h with
  | stored hroom _ => exact hroom.placement_eq
  | erased _ _ hheap => rw [hheap]
  | absent _ hheap => rw [hheap]
  | found _ => rfl
  | missing _ => rfl

/-- **Every step keeps a table sound**, whatever the sameness of its keys is. -/
theorem Effect.sound (heffect : Effect t host key action found t' host') (h : t.Sound)
    (hkey : t.keying.hash key ≠ 0) : t'.Sound := by
  cases heffect with
  | stored hroom hstored =>
    obtain ⟨hsound, hlength, hkeying⟩ := hroom.sound h
    exact hstored.sound hsound hlength hkey (hkeying ▸ rfl)
  | erased hlands herased _ => exact herased.sound h hlands.1 hlands.2.1
  | absent _ _ => exact h
  | found _ => exact h
  | missing _ => exact h

/-- **Every step keeps a table tidy**, as long as sameness is symmetric. -/
theorem Effect.tidy (heffect : Effect t host key action found t' host') (h : t.Tidy)
    (hkey : t.keying.hash key ≠ 0) (hsymm : ∀ a b, t.keying.same a b = t.keying.same b a) :
    t'.Tidy := by
  cases heffect with
  | stored hroom hstored =>
    obtain ⟨_, hlength, hkeying⟩ := hroom.sound h.toSound
    obtain ⟨htidy, _⟩ := hroom.tidy h hsymm
    exact hstored.tidy htidy (hkeying ▸ hsymm) hlength hkey (hkeying ▸ rfl)
  | erased hlands herased _ => exact herased.tidy h hsymm hlands.1 hlands.2.1
  | absent _ _ => exact h
  | found _ => exact h
  | missing _ => exact h

/-- Looking for a key reads its value, or finds none. -/
theorem exists_look (h : t.Sound) (hkey : t.keying.hash key ≠ 0) (host : Host) :
    ∃ found, t.get key = .ok found ∧ Effect t host key .look found t host := by
  rcases get_lands h hkey with ⟨q, hlands, hget⟩ | ⟨q, hlands, hget⟩
  · exact ⟨_, hget, .found hlands⟩
  · exact ⟨_, hget, .missing hlands⟩

end ProbeTable

namespace TableStep

variable {κ ν : Type} [Element κ] [Element ν] [LawfulElement κ] [LawfulElement ν]
  {t : ProbeTable κ ν}

/-- Stores a value under a key. -/
theorem storing_ends (h : t.Sound) {key : κ} (hkey : t.keying.hash key ≠ 0) (value : ν) (host : Host)
    (bounds : host.heap.placement.InBounds) :
    (TableAnswer.value <$> ProbeTable.put key value).Ends (t, host)
      (fun a s => ∃ found, a = .value found ∧
        ProbeTable.Effect t host key (.store value) found s.1 s.2)
      (fun e s => e = .error .badAlloc ∧ s.1 = t ∧ ProbeTable.GrowthRefused t host s.2) := by
  apply ((ProbeTable.put_ends h hkey value host bounds).mono _ _).map
  · rintro found s ⟨t₁, hroom, hstored⟩
    exact ⟨found, rfl, .stored hroom hstored⟩
  · exact fun _ _ herror => herror

/-- Takes a key away. -/
theorem removing_ends (h : t.Sound) {key : κ} (hkey : t.keying.hash key ≠ 0) (host : Host) :
    (TableAnswer.value <$> ProbeTable.erase (κ := κ) (ν := ν) key).Ends (t, host)
      (fun a s => ∃ found, a = .value found ∧ ProbeTable.Effect t host key .remove found s.1 s.2)
      (fun _ _ => False) := by
  apply ((ProbeTable.erase_ends h hkey host).mono _ _).map
  · rintro found ⟨t', host'⟩ ⟨hheap, ⟨q, hlands, rfl, rfl⟩ | ⟨q, hlands, rfl, herased⟩⟩
    · exact ⟨none, rfl, .absent hlands hheap⟩
    · exact ⟨_, rfl, .erased hlands herased hheap⟩
  · exact fun _ _ hfalse => hfalse

/-- **Every step** has its effect, or it stores something and the growth for it is refused; then the
table is as it was. -/
theorem run_ends (step : TableStep κ ν) (h : t.Sound) (hkey : t.keying.hash step.key ≠ 0)
    (host : Host) (bounds : host.heap.placement.InBounds) :
    step.run.Ends (t, host)
      (fun a s => ∃ found, a = step.answer found ∧
        ProbeTable.Effect t host step.key step.action found s.1 s.2)
      (fun e s => ProbeTable.Failed t host step e s.1 s.2) := by
  -- An update with a value is a put, and one without is an erase.
  cases step with
  | put key value =>
    apply (storing_ends h hkey value host bounds).mono
    · exact fun _ _ hok => hok
    · rintro e s ⟨he, hs, hrefused⟩
      exact ⟨he, ⟨value, rfl⟩, hs, hrefused⟩
  | erase key =>
    apply (removing_ends h hkey host).mono
    · exact fun _ _ hok => hok
    · exact fun _ _ hfalse => hfalse.elim
  | update key value =>
    cases value with
    | some value =>
      apply (storing_ends h hkey value host bounds).mono
      · exact fun _ _ hok => hok
      · rintro e s ⟨he, hs, hrefused⟩
        exact ⟨he, ⟨value, rfl⟩, hs, hrefused⟩
    | none =>
      apply (removing_ends h hkey host).mono
      · exact fun _ _ hok => hok
      · exact fun _ _ hfalse => hfalse.elim
  | get key =>
    obtain ⟨found, hget, heffect⟩ := ProbeTable.exists_look h hkey host
    have hask := ProbeTable.ask_eq (ε := ContainerError)
      (f := fun t : ProbeTable κ ν => Failure.ofChecked (t.get key)) (congrArg Failure.ofChecked hget)
      host
    exact (Prog.Ends.of_ok hask ⟨found, rfl, heffect⟩).map
  | contains key =>
    obtain ⟨found, hget, heffect⟩ := ProbeTable.exists_look h hkey host
    have hcontains := ProbeTable.contains_eq_of_get h hkey hget
    have hask := ProbeTable.ask_eq (ε := ContainerError)
      (f := fun t : ProbeTable κ ν => Failure.ofChecked (t.contains key))
      (congrArg Failure.ofChecked hcontains) host
    exact (Prog.Ends.of_ok hask ⟨found, rfl, heffect⟩).map

end TableStep

end AlignedSlots
