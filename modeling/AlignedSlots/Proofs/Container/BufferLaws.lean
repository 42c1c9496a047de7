import Mathlib
import AlignedSlots.Proofs.Container.BufferInvariant
import AlignedSlots.Proofs.Container.SlotBytes

/-!
# Operations of a buffer

Each operation is described by the window that it makes of the one the buffer holds.  Room is made before
anything else, so that nothing has changed yet where it is denied, and every other failure is found
before the first write.  A walk in place is the walk over the list of the visible elements.
-/

namespace AlignedSlots

namespace Buffer

variable {α β ε ν : Type}

/-! ## The parts of an operation -/

section Parts

variable {b : Buffer α} {host : Host} {f : Buffer α → Except (Failure ε) β}

theorem ask_ok {x : β} (h : f b = .ok x) (host : Host) :
    (ask f : Hosted ε (Buffer α) β) (b, host) = .ok x (b, host) := by
  unfold ask
  simp only [h]

theorem ask_error {e : Failure ε} (h : f b = .error e) (host : Host) :
    (ask f : Hosted ε (Buffer α) β) (b, host) = .error e (b, host) := by
  unfold ask
  simp only [h]

theorem ask_read (f : Buffer α → β) (b : Buffer α) (host : Host) :
    ask (ε := ε) (fun b => .ok (f b)) (b, host) = .ok (f b) (b, host) := rfl

theorem locate_eq (h : b.slots.Ready) {i : Nat} (hi : i < b.slots.capacity) (host : Host) :
    (locate i : Hosted ε (Buffer α) Nat) (b, host) = .ok (i * b.slots.stride) (b, host) :=
  ask_ok (congrArg Failure.ofChecked (h.offset_eq hi)) host

theorem locateVisible_eq (h : b.slots.Ready) {i : Nat} (hi : i < b.limit)
    (hle : b.limit ≤ b.slots.capacity) (host : Host) :
    locateVisible i (b, host) = .ok (i * b.slots.stride) (b, host) := by
  apply ask_ok
  rw [if_neg (Nat.not_le.mpr hi), h.offset_eq (Nat.lt_of_lt_of_le hi hle)]
  rfl

theorem locateVisible_error {i : Nat} (hi : b.limit ≤ i) (host : Host) :
    locateVisible i (b, host) = .error (.error .overflow) (b, host) := by
  apply ask_error
  rw [if_pos hi]

theorem updateSlots_eq (g : Slots → Slots) (b : Buffer α) (host : Host) :
    (updateSlots g : Hosted ε (Buffer α) Unit) (b, host) = .ok () (⟨g b.slots, b.limit⟩, host) :=
  rfl

theorem onSlots_ends {m : Hosted Refusal Slots β} {Q : β → Slots × Host → Prop}
    {E : Failure Refusal → Slots × Host → Prop} (h : m.Ends (b.slots, host) Q E) :
    (onSlots m : Hosted ContainerError (Buffer α) β).Ends (b, host)
      (fun x s => s.1.limit = b.limit ∧ Q x (s.1.slots, s.2))
      (fun e s => s.1.limit = b.limit ∧ ∃ r, e = r.map .ofAlloc ∧ E r (s.1.slots, s.2)) := by
  rcases h.run_eq with ⟨x, s, heq, hq⟩ | ⟨r, s, heq, he⟩
  · have hrun : onSlots m (b, host) = .ok x (⟨s.1, b.limit⟩, s.2) := by
      simp only [onSlots, heq]
    exact Prog.Ends.of_ok hrun ⟨rfl, hq⟩
  · have hrun : onSlots m (b, host) = .error (r.map .ofAlloc) (⟨s.1, b.limit⟩, s.2) := by
      simp only [onSlots, heq]
    exact Prog.Ends.of_error hrun ⟨rfl, r, rfl, he⟩

end Parts

variable [Element α] {align : Nat} {b : Buffer α} {w : Window α}

/-! ## Making room and showing slots -/

section Room

variable [LawfulElement α] [Initial α] {requested : Nat}

/-- Slots that were reserved and initialised hold the window with room. -/
theorem Holds.reserved (h : b.Holds align w) {heap heap' : Heap} (bounds : heap.placement.InBounds)
    {slots slots' : Slots} (hreserved : b.slots.Reserved requested heap slots heap')
    (hcarries : Walk.Carries slots slots' fun j =>
      if b.slots.capacity ≤ j ∧ j < b.slots.capacity + (slots.capacity - b.slots.capacity)
      then Initial.initial else slots.item (α := α) j) :
    Holds align ⟨slots', b.limit⟩ (w.reserve requested) := by
  have hcapacity := h.capacity_eq
  have hle := hreserved.capacity_le
  have hslots : (w.reserve requested).slots =
      w.slots ++ List.replicate (slots.capacity - b.slots.capacity) Initial.initial := by
    cases hreserved with
    | enough hroom =>
      rw [Window.reserve_of_le (hcapacity ▸ hroom), Nat.sub_self, List.replicate_zero,
        List.append_nil]
    | grown _ _ hlt _ _ =>
      rw [Window.slots_reserve_of_lt (hcapacity ▸ hlt), Slots.capacity_regrown, hcapacity]
  refine ⟨hcarries.ready, ?_, ?_, ?_, ?_⟩
  · rw [hcarries.place.stride_eq, hreserved.stride_eq]
    exact h.size_le
  · rw [hcarries.place.align_eq, hreserved.align_eq, h.align_eq]
  · rw [hcarries.place.capacity_eq, hcarries.item_eq, hslots, ← h.slots_eq]
    apply Slots.map_range_append_replicate hle
    · intro j hj
      rw [if_neg (by omega)]
      exact hreserved.item_eq h.ready bounds h.size_le hj
    · intro j hj hlt
      rw [if_pos (by omega)]
  · rw [Window.limit_reserve]
    exact h.limit_eq

/-- What making room does to the slots: the new ones, and no others, are written to. -/
theorem reserveSlots_ends (h : b.Holds align w) (hreq : requested ≤ Word.greatest) (host : Host)
    (bounds : host.heap.placement.InBounds) :
    (do
      let before ← Slots.reserve requested
      let after := (← Hosted.object).capacity
      Slots.initialise α before (after - before) : Hosted Refusal Slots Unit).Ends (b.slots, host)
      (fun _ s => ∃ slots, b.slots.Reserved requested host.heap slots s.2.heap ∧
        (Walk.Carries slots s.1 fun j =>
          if b.slots.capacity ≤ j ∧ j < b.slots.capacity + (slots.capacity - b.slots.capacity)
          then Initial.initial else slots.item (α := α) j) ∧
        Slots.Rewrites (b.slots.capacity ≤ ·) slots s.1)
      (fun e s => s.1 = b.slots ∧ b.slots.capacity < requested ∧
        b.slots.Denied requested host.heap s.2.heap e) := by
  apply (Slots.reserve_ends host h.ready hreq bounds).bind _ fun _ _ hdenied => hdenied
  rintro _ ⟨slots, host₁⟩ ⟨rfl, hreserved⟩
  have hready := hreserved.ready h.ready bounds
  have hsize : Element.size α ≤ slots.stride := by
    rw [hreserved.stride_eq]
    exact h.size_le
  have hle : b.slots.capacity ≤ slots.capacity := hreserved.capacity_le
  have hfit : b.slots.capacity + (slots.capacity - b.slots.capacity) ≤ slots.capacity := by
    omega
  apply Prog.Ends.bind_ok (Hosted.object_eq slots host₁)
  apply ((Slots.initialise_ends hready hsize hfit host₁).and
    (Slots.initialise_rewrites hready hsize hfit host₁)).mono _ fun _ _ hfalse => hfalse.1.elim
  rintro _ ⟨slots', _⟩ ⟨⟨hcarries, rfl⟩, hrewrites⟩
  exact ⟨slots, hreserved, hcarries, hrewrites⟩

/-- **Making room** keeps every slot, hidden or not, and puts the initial value into the new ones. -/
theorem reserve_ends (h : b.Holds align w) (hreq : requested ≤ Word.greatest) (host : Host)
    (bounds : host.heap.placement.InBounds) :
    (reserve requested).Ends (b, host)
      (fun _ s => Holds align s.1 (w.reserve requested) ∧
        b.Grown requested host.heap s.1 s.2.heap)
      (fun e s => s.1 = b ∧ b.Denied requested host.heap s.2.heap e) := by
  unfold reserve
  apply (onSlots_ends (reserveSlots_ends h hreq host bounds)).mono
  · rintro _ ⟨⟨slots', limit⟩, host'⟩ ⟨rfl, slots, hreserved, hcarries, _⟩
    exact ⟨h.reserved bounds hreserved hcarries, slots, hreserved, hcarries.place⟩
  · rintro _ ⟨⟨slots, limit⟩, host'⟩ ⟨hlimit, r, rfl, hslots, hlt, hdenied⟩
    cases hlimit
    cases hslots
    exact ⟨rfl, hlt, r, rfl, hdenied⟩

omit [LawfulElement α] in
/-- Showing one more slot leaves the slots as they are when room was made for it. -/
theorem expose_of_reserve (h : b.Holds align w) {host : Host} {P : Slots → Heap → Prop}
    {E : Failure ContainerError → Buffer α × Host → Prop}
    (hreserve : (reserve (b.limit + 1)).Ends (b, host)
      (fun _ s => Holds align s.1 (w.reserve (b.limit + 1)) ∧ P s.1.slots s.2.heap) E) :
    (expose (α := α)).Ends (b, host)
      (fun offset s => offset = b.limit * s.1.slots.stride ∧ Holds align s.1 w.expose ∧
        P s.1.slots s.2.heap) E := by
  have hadd : Word.add? b.limit 1 = some (b.limit + 1) :=
    Word.add?_eq_some_iff.mpr ⟨h.limit_lt, rfl⟩
  unfold expose
  apply Prog.Ends.bind_ok (ask_read Buffer.limit b host)
  simp only [hadd]
  apply hreserve.bind _ fun _ _ hfail => hfail
  rintro _ ⟨⟨slots, limit⟩, host₁⟩ ⟨hholds, hleft⟩
  have hroom : b.limit < slots.capacity := by
    have hle := w.le_length_reserve (b.limit + 1)
    rw [← hholds.capacity_eq] at hle
    exact hle
  -- Only the limit changes: what the slot holds that it shows now was decided before.
  have hshown : Holds align ⟨slots, b.limit + 1⟩ w.expose := by
    rw [h.limit_eq] at hholds ⊢
    exact hholds.limited (w.le_length_reserve (w.limit + 1))
  refine Prog.Ends.bind_ok
    (rfl : _ = EStateM.Result.ok () ((⟨slots, b.limit + 1⟩ : Buffer α), host₁)) ?_
  apply Prog.Ends.bind_ok (ask_read Buffer.capacity _ host₁)
  apply Hosted.trace_ends
  intro log
  apply Prog.Ends.of_ok (locate_eq hshown.ready hroom _)
  exact ⟨rfl, hshown, hleft⟩

/-- **Showing one more slot** makes room for it first. -/
theorem expose_ends (h : b.Holds align w) (host : Host) (bounds : host.heap.placement.InBounds) :
    (expose (α := α)).Ends (b, host)
      (fun offset s => offset = w.limit * s.1.slots.stride ∧ Holds align s.1 w.expose ∧
        b.Grown (w.limit + 1) host.heap s.1 s.2.heap)
      (fun e s => s.1 = b ∧ b.Denied (w.limit + 1) host.heap s.2.heap e) := by
  rw [← h.limit_eq]
  exact expose_of_reserve h
    (P := fun slots heap => b.Grown (b.limit + 1) host.heap ⟨slots, b.limit⟩ heap)
    (reserve_ends h h.limit_lt host bounds)

/-- The slot that was shown last. -/
theorem Holds.exposed_reaches (h : b.Holds align w.expose) :
    b.slots.Reaches α w.limit (w.limit * b.slots.stride) ∧
      (b.slots.item w.limit : α) = w.held w.limit := by
  have hlt : w.limit < b.slots.capacity := by
    have hlimit : b.limit = w.limit + 1 := h.limit_eq
    have hle := h.limit_le
    omega
  refine ⟨h.reaches hlt, ?_⟩
  have hread := h.getElem?_slots hlt
  rw [w.getElem?_expose] at hread
  exact (Option.some.inj hread).symm

/-- **Emplacing** answers what the slot held that is shown now. -/
theorem emplace_ends (h : b.Holds align w) (host : Host) (bounds : host.heap.placement.InBounds) :
    (emplace (α := α)).Ends (b, host)
      (fun x s => x = w.held w.limit ∧ Holds align s.1 w.expose ∧
        b.Grown (w.limit + 1) host.heap s.1 s.2.heap)
      (fun e s => s.1 = b ∧ b.Denied (w.limit + 1) host.heap s.2.heap e) := by
  unfold emplace
  apply (expose_ends h host bounds).bind _ fun _ _ hdenied => hdenied
  rintro _ ⟨b₁, host₁⟩ ⟨rfl, hholds, hgrown⟩
  obtain ⟨hreaches, hheld⟩ := hholds.exposed_reaches
  apply Prog.Ends.of_ok (ask_read (fun b => b.slots.load (w.limit * b₁.slots.stride)) b₁ host₁)
  exact ⟨hreaches.load_eq.trans hheld, hholds, hgrown⟩

omit [LawfulElement α] [Initial α] in
/-- An element is stored where the last visible slot starts, and the index of that slot answered. -/
theorem storeLast_eq {n : Nat} (hlimit : b.limit = n + 1) (offset : Nat) (x : α) (host : Host) :
    (do
      updateSlots fun s => s.store offset x
      let limit ← ask fun b => .ok b.limit
      Word.sub limit 1 : Hosted ContainerError (Buffer α) Nat) (b, host) =
      .ok n (⟨b.slots.store offset x, b.limit⟩, host) := by
  have hsub : Word.sub b.limit 1 = .ok n := by
    rw [Word.sub_eq_ok (by omega), hlimit, Nat.add_sub_cancel]
  rw [Prog.bind_ok (updateSlots_eq _ _ _), Prog.bind_ok (ask_read Buffer.limit _ host)]
  exact Prog.lift_ok hsub

/-- **Pushing** stores an element in the slot that is shown now. -/
theorem push_ends (h : b.Holds align w) (x : α) (host : Host)
    (bounds : host.heap.placement.InBounds) :
    (push x).Ends (b, host)
      (fun i s => i = w.limit ∧ Holds align s.1 (w.expose.set w.limit x) ∧
        b.Grown (w.limit + 1) host.heap s.1 s.2.heap)
      (fun e s => s.1 = b ∧ b.Denied (w.limit + 1) host.heap s.2.heap e) := by
  unfold push
  apply (expose_ends h host bounds).bind _ fun _ _ hdenied => hdenied
  rintro _ ⟨b₁, host₁⟩ ⟨rfl, hholds, hgrown⟩
  obtain ⟨hreaches, _⟩ := hholds.exposed_reaches
  have hplace := Slots.samePlace_store b₁.slots (w.limit * b₁.slots.stride) x
  have hstored := hholds.updated hplace (hholds.ready.store _ _) (hreaches.item_store x)
  apply Prog.Ends.of_ok (storeLast_eq hholds.limit_eq _ x host₁)
  exact ⟨rfl, hstored, hgrown.trans_samePlace hplace⟩

end Room

/-! ## Limits -/

theorem Holds.setLimit (h : b.Holds align w) (limit : Nat) :
    Holds align ⟨b.slots, min limit b.slots.capacity⟩ (w.setLimit limit) := by
  rw [h.capacity_eq]
  exact h.limited _

/-- **Setting the limit** touches no slot. -/
theorem setLimit_ends (h : b.Holds align w) (limit : Nat) (host : Host) :
    (setLimit limit : Hosted ε (Buffer α) Unit).Ends (b, host)
      (fun _ s => Holds align s.1 (w.setLimit limit) ∧ s.1.slots = b.slots ∧ s.2 = host)
      (fun _ _ => False) :=
  Prog.Ends.of_ok rfl ⟨h.setLimit limit, rfl, rfl⟩

/-- **Clearing** touches no slot either. -/
theorem clear_ends (h : b.Holds align w) (host : Host) :
    (clear : Hosted ε (Buffer α) Unit).Ends (b, host)
      (fun _ s => Holds align s.1 (w.setLimit 0) ∧ s.1.slots = b.slots ∧ s.2 = host)
      (fun _ _ => False) := by
  have hnone := h.setLimit 0
  rw [Nat.zero_min] at hnone
  exact Prog.Ends.of_ok rfl ⟨hnone, rfl, rfl⟩

/-! ## Reading and writing slots -/

section Access

theorem Holds.visible_eq (h : b.Holds align w) :
    w.visible = (List.range b.limit).map b.slots.item := by
  unfold Window.visible
  rw [← h.slots_eq, ← h.limit_eq, ← List.map_take, List.take_range, Nat.min_eq_left h.limit_le]

theorem Holds.read_eq (h : b.Holds align w) {i : Nat} (hi : i < b.slots.capacity) :
    b.read i = .ok (b.slots.item i) :=
  (h.ready.read_eq α i).trans (if_pos hi)

theorem Holds.read_of_getElem? (h : b.Holds align w) {i : Nat} {x : α} (hx : w.slots[i]? = some x) :
    b.read i = .ok x := by
  obtain ⟨hi, _⟩ := List.getElem?_eq_some_iff.mp hx
  have hcapacity : i < b.slots.capacity := h.capacity_eq ▸ hi
  rw [h.getElem?_slots hcapacity, Option.some.injEq] at hx
  rw [h.read_eq hcapacity, hx]

theorem toList_eq (h : b.Holds align w) : b.toList = .ok w.visible := by
  rw [h.visible_eq]
  apply mapM_eq_ok
  intro i hi
  exact h.read_eq (Nat.lt_of_lt_of_le (List.mem_range.mp hi) h.limit_le)

variable [LawfulElement α]

/-- What is read from a visible slot, or the failure where there is none. -/
def found (e : ContainerError) (x : Option α) : Except (Failure ContainerError) α :=
  x.elim (.error (.error e)) .ok

theorem get_eq (h : b.Holds align w) (i : Nat) : b.get i = found .overflow w.visible[i]? := by
  unfold get
  by_cases hout : b.limit ≤ i
  · rw [if_pos hout, w.getElem?_visible_eq_none (h.limit_eq ▸ hout)]
    rfl
  · have hi : i < b.limit := Nat.lt_of_not_le hout
    have hcapacity := Nat.lt_of_lt_of_le hi h.limit_le
    rw [if_neg hout, h.getElem?_visible hi, h.ready.offset_eq hcapacity]
    exact congrArg Except.ok (h.reaches hcapacity).load_eq

theorem last_eq (h : b.Holds align w) : b.last = found .underflow w.visible.getLast? := by
  unfold last
  cases hlimit : b.limit with
  | zero =>
    have hnone : w.visible = [] := List.length_eq_zero_iff.mp (by
      rw [w.length_visible, ← h.limit_eq, hlimit])
    rw [hnone]
    rfl
  | succ n =>
    have hn : n < b.limit := by omega
    rw [w.getLast?_visible (h.limit_eq ▸ hlimit)]
    show b.get n = _
    rw [get_eq h n, h.getElem?_visible hn]
    rfl

omit [LawfulElement α] in
/-- An element is put into a visible slot. -/
theorem replace_eq (h : b.Holds align w) {i : Nat} (hi : i < b.limit) (x : α) (host : Host) :
    replace i x (b, host) = .ok (b.slots.load (i * b.slots.stride))
      (⟨b.slots.store (i * b.slots.stride) x, b.limit⟩, host) := by
  unfold replace
  rw [Prog.bind_ok (locateVisible_eq h.ready hi h.limit_le host),
    Prog.bind_ok (ask_read (fun c => c.slots.load (i * b.slots.stride)) b host),
    Prog.bind_ok (updateSlots_eq _ _ _)]
  rfl

omit [LawfulElement α] in
/-- There is no slot to put an element into. -/
theorem replace_error {i : Nat} (hout : b.limit ≤ i) (x : α) (host : Host) :
    replace i x (b, host) = .error (.error .overflow) (b, host) := by
  unfold replace
  exact Prog.bind_error (locateVisible_error hout host)

/-- **Replacing** answers the element that was there. -/
theorem replace_ends (h : b.Holds align w) (i : Nat) (x : α) (host : Host) :
    (replace i x).Ends (b, host)
      (fun y s => w.visible[i]? = some y ∧ Holds align s.1 (w.set i x) ∧
        Slots.SamePlace b.slots s.1.slots ∧ s.2 = host)
      (fun e s => w.visible[i]? = none ∧ e = .error .overflow ∧ s = (b, host)) := by
  by_cases hout : b.limit ≤ i
  · apply Prog.Ends.of_error (replace_error hout x host)
    exact ⟨w.getElem?_visible_eq_none (h.limit_eq ▸ hout), rfl, rfl⟩
  · have hi : i < b.limit := Nat.lt_of_not_le hout
    have hreaches := h.reaches (Nat.lt_of_lt_of_le hi h.limit_le)
    have hplace := Slots.samePlace_store b.slots (i * b.slots.stride) x
    apply Prog.Ends.of_ok (replace_eq h hi x host)
    refine ⟨?_, h.updated hplace (h.ready.store _ _) (hreaches.item_store x), hplace, rfl⟩
    rw [hreaches.load_eq]
    exact h.getElem?_visible hi

theorem replaceLast_ends (h : b.Holds align w) (x : α) (host : Host) :
    (replaceLast x).Ends (b, host)
      (fun y s => w.visible.getLast? = some y ∧ Holds align s.1 (w.set (w.limit - 1) x) ∧
        Slots.SamePlace b.slots s.1.slots ∧ s.2 = host)
      (fun e s => w.visible.getLast? = none ∧ e = .error .underflow ∧ s = (b, host)) := by
  unfold replaceLast
  apply Prog.Ends.bind_ok (ask_read Buffer.limit b host)
  cases hlimit : b.limit with
  | zero =>
    have hnone : w.visible = [] := List.length_eq_zero_iff.mp (by
      rw [w.length_visible, ← h.limit_eq, hlimit])
    rw [hnone]
    exact Prog.Ends.fail ⟨rfl, rfl, rfl⟩
  | succ n =>
    have hn : w.limit = n + 1 := h.limit_eq ▸ hlimit
    rw [w.getLast?_visible hn, hn, Nat.add_sub_cancel]
    apply (replace_ends h n x host).mono
    · exact fun _ _ hok => hok
    · rintro e s ⟨hnone, _⟩
      rw [h.getElem?_visible (by omega)] at hnone
      cases hnone

omit [LawfulElement α] in
/-- A visible slot is filled in place. -/
theorem fillSlot_eq (h : b.Holds align w) {i : Nat} (hi : i < b.limit) (value : UInt8)
    (host : Host) :
    fillSlot i value (b, host) =
      .ok () (⟨b.slots.fill (i * b.slots.stride) b.slots.stride value, b.limit⟩, host) := by
  unfold fillSlot
  rw [Prog.bind_ok (locateVisible_eq h.ready hi h.limit_le host)]
  rfl

omit [Element α] [LawfulElement α] in
/-- There is no slot to fill. -/
theorem fillSlot_error {i : Nat} (hout : b.limit ≤ i) (value : UInt8) (host : Host) :
    fillSlot i value (b, host) = .error (.error .overflow) (b, host) := by
  unfold fillSlot
  exact Prog.bind_error (locateVisible_error hout host)

/-- **Filling a slot** writes one byte over all of it. -/
theorem fillSlot_ends (h : b.Holds align w) (i : Nat) (value : UInt8) (host : Host) :
    (fillSlot i value).Ends (b, host)
      (fun _ s => i < w.limit ∧ Holds align s.1 (w.set i (Slots.uniform α value)) ∧
        Slots.SamePlace b.slots s.1.slots ∧ s.2 = host)
      (fun e s => w.limit ≤ i ∧ e = .error .overflow ∧ s = (b, host)) := by
  rw [← h.limit_eq]
  by_cases hout : b.limit ≤ i
  · exact Prog.Ends.of_error (fillSlot_error hout value host) ⟨hout, rfl, rfl⟩
  · have hi : i < b.limit := Nat.lt_of_not_le hout
    have hplace := Slots.samePlace_fill b.slots (i * b.slots.stride) b.slots.stride value
    have hitem := Slots.item_fill h.ready (Nat.lt_of_lt_of_le hi h.limit_le) h.size_le value
    apply Prog.Ends.of_ok (fillSlot_eq h hi value host)
    exact ⟨hi, h.updated hplace (h.ready.fill _ _ _) hitem, hplace, rfl⟩

/-- **A walk in place** is the walk over the list of the visible elements.  It ends with another list of
them in the first slots, and the hidden slots stay as they are. -/
theorem eachInPlace_ends (h : b.Holds align w) (visitor : Nat → Prog ε (α × ν) Unit) (n : ν) :
    (eachInPlace visitor).Ends (b, n)
      (fun _ s => ∃ l, Walk.visitList visitor 0 w.visible n = .ok () (l, s.2) ∧
        Holds align s.1 (w.overwrite l) ∧ Slots.SamePlace b.slots s.1.slots)
      (fun e s => ∃ l, Walk.visitList visitor 0 w.visible n = .error e (l, s.2) ∧
        Holds align s.1 (w.overwrite l) ∧ Slots.SamePlace b.slots s.1.slots) := by
  have hcapacity : ∀ i ∈ List.range b.limit, i < b.slots.capacity := fun i hi =>
    Nat.lt_of_lt_of_le (List.mem_range.mp hi) h.limit_le
  have hwalk := Walk.visitSlots_ends visitor h.ready h.size_le hcapacity n
  have hframe := Walk.visitRow_frame visitor (List.range b.limit) b.slots.item n
  have hlist := Walk.visitRow_range visitor 0 b.limit b.slots.item n
  rw [← List.range_eq_range', ← h.visible_eq] at hlist
  rcases hwalk.run_eq with ⟨_, s, heq, row, hrow, hplace, hready, rfl⟩ |
    ⟨e, s, heq, row, hrow, hplace, hready, rfl⟩
  · have hrun : eachInPlace visitor (b, n) = .ok () (⟨s.1, b.limit⟩, s.2) := by
      simp only [eachInPlace, Walk.forward, heq]
    exact Prog.Ends.of_ok hrun
      ⟨_, hlist.of_run_ok hrow, h.overwritten hplace hready (hframe.of_run_ok hrow), hplace⟩
  · have hrun : eachInPlace visitor (b, n) = .error e (⟨s.1, b.limit⟩, s.2) := by
      simp only [eachInPlace, Walk.forward, heq]
    exact Prog.Ends.of_error hrun
      ⟨_, hlist.of_run_error hrow, h.overwritten hplace hready (hframe.of_run_error hrow), hplace⟩

end Access

end Buffer

end AlignedSlots
