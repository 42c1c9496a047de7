import Mathlib
import AlignedSlots.Proofs.Container.ArrayCalls
import AlignedSlots.Proofs.Container.BufferCalls
import AlignedSlots.Proofs.Container.SlotBytes

/-!
# Which bytes a call changes

Every call of a buffer or of a static array changes bytes of the slots that it writes to and of no others:
`Buffer.run_follows` and `StaticArray.run_rewrites`, with one case per call.  The slots that a call writes
to are read off the call, by `BufferCall.Writes` and `ArrayCall.Writes`.
-/

namespace AlignedSlots

/-- The call writes to slot `i` of a buffer with the limit. -/
def BufferCall.Writes {α ν : Type} (limit i : Nat) : BufferCall α ν → Prop
  | step s => s.Writes limit i
  | _ => False

/-- How many slots the call wants room for. -/
def BufferCall.demand {α ν : Type} (limit : Nat) : BufferCall α ν → Nat
  | step s => s.demand limit
  | _ => 0

/-- The call writes to slot `i` of an array with `n` elements. -/
def ArrayCall.Writes {α ν : Type} (n i : Nat) : ArrayCall α ν → Prop
  | replace j _ => i = j
  | replaceLast _ => i + 1 = n
  | eachInPlace _ => i < n
  | eachReverseInPlace _ => i < n
  | _ => False

/-! ## Buffers -/

namespace Buffer

variable {α β γ ε ν : Type} {b : Buffer α} {host : Host}

@[simp] theorem after_ask (f : Buffer α → Except (Failure ε) β) (b : Buffer α) (host : Host) :
    (ask f).after (b, host) = (b, host) := by
  cases h : f b <;> simp only [Prog.after, ask, h]

variable [Element α] {align requested : Nat} {w : Window α} {written : Nat → Prop}

section Room

variable [LawfulElement α] [Initial α]

/-- Making room writes to new slots only. -/
theorem reserve_follows (h : b.Holds align w) (hreq : requested ≤ Word.greatest) (host : Host)
    (bounds : host.heap.placement.InBounds) :
    (reserve requested).Ends (b, host)
      (fun _ s => Slots.Follows written requested b.slots s.1.slots)
      fun _ s => Slots.Follows written requested b.slots s.1.slots := by
  unfold reserve
  apply (onSlots_ends (reserveSlots_ends h hreq host bounds)).mono
  · rintro _ ⟨⟨slots', limit⟩, host'⟩ ⟨_, slots, hreserved, _, hrewrites⟩
    refine (hreserved.follows h.ready bounds).trans_rewrites hrewrites (fun _ i hi hw => ?_) ?_
    · exact absurd hi (Nat.not_lt.mpr hw)
    · exact fun _ _ hw => hw
  · rintro _ ⟨⟨slots, limit⟩, host'⟩ ⟨_, _, _, hslots, _⟩
    cases hslots
    exact .refl _

/-- So does showing one more slot. -/
theorem expose_follows (h : b.Holds align w) (host : Host) (bounds : host.heap.placement.InBounds) :
    (expose (α := α)).Ends (b, host)
      (fun offset s => offset = b.limit * s.1.slots.stride ∧ Holds align s.1 w.expose ∧
        Slots.Follows written (b.limit + 1) b.slots s.1.slots)
      fun _ s => Slots.Follows written (b.limit + 1) b.slots s.1.slots := by
  apply expose_of_reserve h (P := fun slots _ => Slots.Follows written (b.limit + 1) b.slots slots)
  apply ((reserve_ends h h.limit_lt host bounds).and
    (reserve_follows h h.limit_lt host bounds)).mono
  · exact fun _ _ ⟨⟨hholds, _⟩, hfollows⟩ => ⟨hholds, hfollows⟩
  · exact fun _ _ ⟨_, hfollows⟩ => hfollows

theorem emplace_follows (h : b.Holds align w) (host : Host)
    (bounds : host.heap.placement.InBounds) :
    (emplace (α := α)).Ends (b, host)
      (fun _ s => Slots.Follows written (b.limit + 1) b.slots s.1.slots)
      fun _ s => Slots.Follows written (b.limit + 1) b.slots s.1.slots := by
  unfold emplace
  apply (expose_follows h host bounds).bind _ fun _ _ herror => herror
  rintro offset ⟨b₁, host₁⟩ ⟨_, _, hfollows⟩
  exact Prog.Ends.of_ok (ask_read (fun b => b.slots.load offset) b₁ host₁) hfollows

/-- Pushing writes to the slot that is shown now. -/
theorem push_follows (h : b.Holds align w) (x : α) (host : Host)
    (bounds : host.heap.placement.InBounds) :
    (push x).Ends (b, host)
      (fun _ s => Slots.Follows (· = b.limit) (b.limit + 1) b.slots s.1.slots)
      fun _ s => Slots.Follows (· = b.limit) (b.limit + 1) b.slots s.1.slots := by
  unfold push
  apply (expose_follows h host bounds).bind _ fun _ _ herror => herror
  rintro _ ⟨b₁, host₁⟩ ⟨rfl, hholds, hfollows⟩
  have hlimit : b₁.limit = b.limit + 1 := hholds.limit_eq.trans (congrArg (· + 1) h.limit_eq.symm)
  have hle : b₁.limit ≤ b₁.slots.capacity := hholds.limit_le
  have hlt : b.limit < b₁.slots.capacity := by omega
  have hstored := Slots.rewrites_store hholds.ready hlt hholds.size_le x
  have hpushed : Slots.Follows (· = b.limit) (b.limit + 1) b.slots
      (b₁.slots.store (b.limit * b₁.slots.stride) x) := by
    refine hfollows.trans_rewrites hstored (fun _ i _ hi => hi) ?_
    -- A buffer grows only where all its slots are visible, so the slot is a new one.
    rintro hgrown i rfl
    exact Nat.le_of_lt_succ (hfollows.lacked hgrown)
  exact Prog.Ends.of_ok (storeLast_eq hlimit _ x host₁) hpushed

end Room

/-- Replacing writes to one slot. -/
theorem replace_follows (h : b.Holds align w) (i : Nat) (x : α) (host : Host) :
    (replace i x).Ends (b, host) (fun _ s => Slots.Follows (· = i) 0 b.slots s.1.slots)
      fun _ s => Slots.Follows (· = i) 0 b.slots s.1.slots := by
  by_cases hout : b.limit ≤ i
  · exact Prog.Ends.of_error (replace_error hout x host) (.refl _)
  · have hi : i < b.limit := Nat.lt_of_not_le hout
    have hcapacity := Nat.lt_of_lt_of_le hi h.limit_le
    exact Prog.Ends.of_ok (replace_eq h hi x host)
      (Slots.rewrites_store h.ready hcapacity h.size_le x).follows

theorem replaceLast_follows (h : b.Holds align w) (x : α) (host : Host) :
    (replaceLast x).Ends (b, host) (fun _ s => Slots.Follows (· + 1 = b.limit) 0 b.slots s.1.slots)
      fun _ s => Slots.Follows (· + 1 = b.limit) 0 b.slots s.1.slots := by
  unfold replaceLast
  apply Prog.Ends.bind_ok (ask_read Buffer.limit b host)
  cases hlimit : b.limit with
  | zero => exact Prog.Ends.fail (.refl _)
  | succ n =>
    have hwritten : (fun i => i + 1 = n + 1) = (· = n) := by
      funext i
      rw [Nat.add_right_cancel_iff]
    rw [hwritten]
    exact replace_follows h n x host

theorem fillSlot_follows (h : b.Holds align w) (i : Nat) (value : UInt8) (host : Host) :
    (fillSlot i value).Ends (b, host) (fun _ s => Slots.Follows (· = i) 0 b.slots s.1.slots)
      fun _ s => Slots.Follows (· = i) 0 b.slots s.1.slots := by
  by_cases hout : b.limit ≤ i
  · exact Prog.Ends.of_error (fillSlot_error hout value host) (.refl _)
  · have hi : i < b.limit := Nat.lt_of_not_le hout
    have hcapacity := Nat.lt_of_lt_of_le hi h.limit_le
    exact Prog.Ends.of_ok (fillSlot_eq h hi value host)
      (Slots.rewrites_fill h.ready hcapacity value).follows

theorem eachInPlace_follows (h : b.Holds align w) (visitor : Nat → Prog ε (α × ν) Unit) (n : ν) :
    (eachInPlace visitor).Ends (b, n) (fun _ s => Slots.Follows (· < b.limit) 0 b.slots s.1.slots)
      fun _ s => Slots.Follows (· < b.limit) 0 b.slots s.1.slots := by
  have hcapacity : ∀ i ∈ Walk.forward b.limit, i < b.slots.capacity := fun i hi =>
    Nat.lt_of_lt_of_le (Walk.lt_of_mem_forward hi) h.limit_le
  have hvisited : ∀ i, i ∈ Walk.forward b.limit → i < b.limit := fun i => Walk.lt_of_mem_forward
  rcases (Walk.visitSlots_rewrites visitor h.ready h.size_le hcapacity n).run_eq with
    ⟨_, s, heq, hrewrites⟩ | ⟨e, s, heq, hrewrites⟩
  · have hrun : eachInPlace visitor (b, n) = .ok () (⟨s.1, b.limit⟩, s.2) := by
      simp only [eachInPlace, heq]
    exact Prog.Ends.of_ok hrun (hrewrites.mono hvisited).follows
  · have hrun : eachInPlace visitor (b, n) = .error e (⟨s.1, b.limit⟩, s.2) := by
      simp only [eachInPlace, heq]
    exact Prog.Ends.of_error hrun (hrewrites.mono hvisited).follows

variable [LawfulElement α] [Initial α]

theorem step_follows (step : BufferStep α ν) (h : b.Holds align w) (n : ν) (host : Host)
    (bounds : host.heap.placement.InBounds) :
    Slots.Follows (fun i => step.Writes b.limit i) (step.demand b.limit) b.slots
      (step.run.after ((b, n), host)).1.1.slots := by
  cases step <;>
    simp only [BufferStep.run, BufferStep.edit, BufferStep.fetch, Prog.after_map,
      Hosted.after_onObject, Hosted.after_offHost, after_ask]
  case reserve capacity =>
    have hword : capacity.toNat ≤ Word.greatest := Nat.le_sub_one_of_lt capacity.toNat_lt
    exact Prog.ends_iff_after.mp (reserve_follows h hword host bounds)
  case emplace => exact Prog.ends_iff_after.mp (emplace_follows h host bounds)
  case push x => exact Prog.ends_iff_after.mp (push_follows h x host bounds)
  case replace i x => exact Prog.ends_iff_after.mp (replace_follows h i x host)
  case replaceLast x => exact Prog.ends_iff_after.mp (replaceLast_follows h x host)
  case fillSlot i value => exact Prog.ends_iff_after.mp (fillSlot_follows h i value host)
  case eachInPlace visitor => exact Prog.ends_iff_after.mp (eachInPlace_follows h visitor n)
  -- No other step touches the slots.
  all_goals exact .refl _

/-- **Every call** of a buffer changes no byte outside the slots that it writes to, and loses none where it
makes the slots grow. -/
theorem run_follows (c : BufferCall α ν) (h : b.Holds align w) (n : ν) (host : Host)
    (bounds : host.heap.placement.InBounds) :
    Slots.Follows (fun i => c.Writes b.limit i) (c.demand b.limit) b.slots
      (c.run.after ((b, n), host)).1.1.slots := by
  cases c <;>
    simp only [BufferCall.run, Prog.after_map, Hosted.after_reading, Hosted.after_asking]
  case step s => exact step_follows s h n host bounds
  all_goals exact .refl _

end Buffer

/-! ## Static arrays -/

namespace StaticArray

variable {α ε ν : Type} {n : Nat} [Element α] {a : StaticArray α n} {host : Host}

theorem replace_rewrites (h : a.Sound) (i : Nat) (x : α) (host : Host) :
    (replace i x).Ends (a, host) (fun _ s => Slots.Rewrites (· = i) a.slots s.1.slots)
      fun _ s => Slots.Rewrites (· = i) a.slots s.1.slots := by
  by_cases hi : i < n
  · have hcapacity : i < a.slots.capacity := by
      rw [h.capacity_eq]
      exact hi
    exact Prog.Ends.of_ok (replace_eq h hi x host)
      (Slots.rewrites_store h.ready hcapacity h.size_le x)
  · exact Prog.Ends.of_error (replace_error (Nat.le_of_not_lt hi) x host) (.refl h.ready)

theorem replaceLast_rewrites (h : a.Sound) (x : α) (host : Host) :
    (replaceLast x).Ends (a, host) (fun _ s => Slots.Rewrites (· + 1 = n) a.slots s.1.slots)
      fun _ s => Slots.Rewrites (· + 1 = n) a.slots s.1.slots := by
  unfold replaceLast
  cases n with
  | zero => exact Prog.Ends.bind_error (Prog.lift_failure_error rfl) (.refl h.ready)
  | succ k =>
    have hlast : ∀ i, i = k → i + 1 = k + 1 := fun i hi => congrArg (· + 1) hi
    apply Prog.Ends.bind_ok (Prog.lift_failure_ok (a := k) rfl)
    apply (replace_rewrites h k x host).mono
    · exact fun _ _ hok => hok.mono hlast
    · exact fun _ _ herror => herror.mono hlast

theorem visitInOrder_rewrites (h : a.Sound) {order : List Nat} (horder : ∀ i ∈ order, i < n)
    (visitor : Nat → Prog ε (α × ν) Unit) (m : ν) :
    (visitInOrder order visitor).Ends (a, m) (fun _ s => Slots.Rewrites (· < n) a.slots s.1.slots)
      fun _ s => Slots.Rewrites (· < n) a.slots s.1.slots := by
  have hcapacity : ∀ i ∈ order, i < a.slots.capacity := fun i hi => by
    rw [h.capacity_eq]
    exact horder i hi
  rcases (Walk.visitSlots_rewrites visitor h.ready h.size_le hcapacity m).run_eq with
    ⟨_, s, heq, hrewrites⟩ | ⟨e, s, heq, hrewrites⟩
  · have hrun : visitInOrder order visitor (a, m) = .ok () (⟨s.1⟩, s.2) := by
      simp only [visitInOrder, heq]
    exact Prog.Ends.of_ok hrun (hrewrites.mono horder)
  · have hrun : visitInOrder order visitor (a, m) = .error e (⟨s.1⟩, s.2) := by
      simp only [visitInOrder, heq]
    exact Prog.Ends.of_error hrun (hrewrites.mono horder)

/-- **Every call** of an array changes no byte outside the slots that it writes to. -/
theorem run_rewrites (c : ArrayCall α ν) (h : a.Sound) (m : ν) (host : Host) :
    Slots.Rewrites (fun i => c.Writes n i) a.slots (c.run.after ((a, m), host)).1.1.slots := by
  have hforward : ∀ i ∈ Walk.forward n, i < n := fun i => Walk.lt_of_mem_forward
  have hbackward : ∀ i ∈ Walk.backward n, i < n := fun i => Walk.lt_of_mem_backward
  cases c <;>
    simp only [ArrayCall.run, Prog.after_map, Hosted.after_onObject, Hosted.after_offHost,
      Hosted.after_reading, Hosted.after_asking]
  case replace i x => exact Prog.ends_iff_after.mp (replace_rewrites h i x host)
  case replaceLast x => exact Prog.ends_iff_after.mp (replaceLast_rewrites h x host)
  case eachInPlace visitor =>
    exact Prog.ends_iff_after.mp (visitInOrder_rewrites h hforward visitor m)
  case eachReverseInPlace visitor =>
    exact Prog.ends_iff_after.mp (visitInOrder_rewrites h hbackward visitor m)
  all_goals exact .refl h.ready

end StaticArray

end AlignedSlots
