import Mathlib
import AlignedSlots.Proofs.Container.VisitorState
import AlignedSlots.Proofs.Memory.BlockAccount

/-!
# Lifecycles

A `Lifecycle` is a kind of container as it is seen from the heap: how an object is made, which calls it
takes, how it is given up, and which raw block it owns; beside that, how each call is documented to fail.

`Hosted.Tends` is what is shown of a single call, from an invariant that it keeps, and `Lifecycle.Tended`
collects it for all that can be done with an object.  Two statements about every run follow, each by one
induction: `Lifecycle.Balanced`, that no block is ever lost or taken back twice, and
`Lifecycle.Documented`, that nothing fails in any other way than documented.
-/

namespace AlignedSlots

/-! ## One call -/

/-- The failure is one of these errors or faults. -/
def Failure.Within {ε : Type} (answers : ε → Prop) (panics : Fault → Prop) : Failure ε → Prop
  | .error x => answers x
  | .fault f => panics f

/-- What somebody raises who does not fault is an error that he raises. -/
theorem Failure.within_of_calm {ε : Type} {raised : Failure ε → Prop} {panics : Fault → Prop}
    {e : Failure ε} (h : raised e) (calm : ∀ f, ¬ raised (.fault f)) :
    e.Within (fun x => raised (.error x)) panics := by
  cases e with
  | error x => exact h
  | fault f => exact (calm f h).elim

namespace Hosted

variable {ε C ν β γ : Type}

/-- The program keeps an invariant of its object, and turns the block that the object owns over at most
once.  If it fails, then as `Fails` says. -/
def Tends (owned : C → Option Nat) (Kept : C → Prop) (Fails : Failure ε → Prop) (o : C) (n : ν)
    (host : Host) (m : Hosted ε (C × ν) β) : Prop :=
  m.Ends ((o, n), host)
    (fun _ s => Kept s.1.1 ∧ Turnover host.heap (owned o) (owned s.1.1) s.2.heap)
    (fun e s => Kept s.1.1 ∧ Turnover host.heap (owned o) (owned s.1.1) s.2.heap ∧ Fails e)

namespace Tends

variable {owned : C → Option Nat} {Kept : C → Prop} {Fails : Failure ε → Prop} {o : C} {n : ν}
  {host : Host}

theorem map {m : Hosted ε (C × ν) β} (h : m.Tends owned Kept Fails o n host) (f : β → γ) :
    (f <$> m).Tends owned Kept Fails o n host :=
  Prog.Ends.map h

/-- A program that only reads the object. -/
theorem reading {m : C → Prog ε ν β} {raised : Failure ε → Prop} (hkept : Kept o)
    (h : (m o).Ends n (fun _ _ => True) fun e _ => raised e) (hfails : ∀ e, raised e → Fails e) :
    (Hosted.reading m).Tends owned Kept Fails o n host := by
  apply (reading_ends h host).mono
  · rintro _ ⟨⟨_, _⟩, _⟩ ⟨rfl, rfl, _⟩
    exact ⟨hkept, .kept _⟩
  · rintro e ⟨⟨_, _⟩, _⟩ ⟨rfl, rfl, hraised⟩
    exact ⟨hkept, .kept _, hfails e hraised⟩

/-- A question to the object. -/
theorem asking {f : C → Except (Failure ε) β} (hkept : Kept o)
    (hfails : ∀ e, f o = .error e → Fails e) :
    (Hosted.asking f).Tends owned Kept Fails o n host := by
  unfold Tends
  cases hf : f o with
  | ok b =>
    have hrun : Hosted.asking f ((o, n), host) = .ok b ((o, n), host) := by
      simp only [Hosted.asking, hf]
    exact Prog.Ends.of_ok hrun ⟨hkept, .kept _⟩
  | error e =>
    have hrun : Hosted.asking f ((o, n), host) = .error e ((o, n), host) := by
      simp only [Hosted.asking, hf]
    exact Prog.Ends.of_error hrun ⟨hkept, .kept _, hfails e hf⟩

/-- A program of the object alone. -/
theorem onObject {m : Hosted ε C β}
    (h : m.Ends (o, host)
      (fun _ s => Kept s.1 ∧ Turnover host.heap (owned o) (owned s.1) s.2.heap)
      fun e s => Kept s.1 ∧ Turnover host.heap (owned o) (owned s.1) s.2.heap ∧ Fails e) :
    (Hosted.onObject m).Tends owned Kept Fails o n host :=
  (onObject_ends h n).mono (fun _ _ hok => hok.2) fun _ _ herror => herror.2

end Tends

end Hosted

/-! ## Kinds of containers -/

/-- The layout of the elements is supported: their size is one that a type can have, and blocks can be
aligned for them. -/
structure Supported (α : Type) [Element α] : Prop where
  size_lt : Element.size α < 2 ^ 63
  align_le : Element.align α ≤ greatestAlign

section Supported

variable {α : Type} [Element α] [LawfulElement α]

theorem Supported.validAlign (h : Supported α) : ValidAlign (Element.align α) :=
  ⟨LawfulElement.align_isPowerOfTwo, h.align_le⟩

theorem Supported.validAlign_max (h : Supported α) {align : Nat} (valid : ValidAlign align) :
    ValidAlign (max align (Element.align α)) :=
  ⟨isPowerOfTwo_max valid.1 LawfulElement.align_isPowerOfTwo, max_le valid.2 h.align_le⟩

end Supported

/-- A byte that is stored at a multiple of 65536.  Its layout is lawful, and no block is aligned for it. -/
structure Sparse where
  value : UInt8

namespace Sparse

instance : Element Sparse where
  size := 65536
  align := 65536
  encode w i := .byte (if i = 0 then w.value else 0)
  decode cells := ⟨(cells 0).toByte⟩

instance : LawfulElement Sparse where
  decode_encode _ := rfl
  decode_congr f g same := by
    change Sparse.mk _ = Sparse.mk _
    rw [same 0 (by decide)]
  align_isPowerOfTwo := ⟨16, rfl⟩
  align_dvd_size := Nat.dvd_refl _

instance : Initial Sparse := ⟨⟨0⟩⟩

end Sparse

/-- A kind of container. -/
structure Lifecycle where
  Object : Type
  /-- The state that the visitors of all walks share. -/
  Visitors : Type
  Call : Type
  Error : Type
  make : Prog Error Host Object
  run : Call → Hosted Error (Object × Visitors) Unit
  drop : Hosted Error Object Unit
  /-- The address of the raw block that the object owns. -/
  owned : Object → Option Nat
  /-- The object has to own a block. -/
  Stores : Object → Prop
  /-- The errors that making an object answers. -/
  MakeAnswers : Error → Prop
  /-- The errors that a call answers. -/
  Answers : Call → Error → Prop
  /-- The faults that a call stops with on an object. -/
  Panics : Object → Call → Fault → Prop
  /-- No visitor that the call is given faults by itself. -/
  Calm : Call → Prop

namespace Lifecycle

/-- The call fails on the object as documented. -/
def Fails (k : Lifecycle) (o : k.Object) (c : k.Call) (e : Failure k.Error) : Prop :=
  e.Within (k.Answers c) (k.Panics o c)

/-- What holds of all that can be done with an object: it keeps an invariant, and turns the block of the
object over at most once.  It fails as documented where the layout of the elements is supported. -/
structure Tended (k : Lifecycle) (supported : Prop) (Kept : k.Object → Prop) : Prop where
  make_ends : ∀ host : Host, host.heap.placement.InBounds → k.make.Ends host
    (fun o host' => Kept o ∧ Turnover host.heap none (k.owned o) host'.heap)
    (fun e host' => Turnover host.heap none none host'.heap ∧
      (supported → e.Within k.MakeAnswers fun _ => False))
  run_tends : ∀ (c : k.Call) (o : k.Object) (n : k.Visitors) (host : Host), Kept o →
    host.heap.placement.InBounds →
    (k.run c).Tends k.owned Kept (fun e => supported → k.Calm c → k.Fails o c e) o n host
  drop_ends : ∀ (o : k.Object) (host : Host), Kept o → k.drop.Ends (o, host)
    (fun _ s => s.2.heap = host.heap.after ((k.owned o).toList.map HeapEvent.freed))
    (fun _ _ => False)
  stores_iff : ∀ o, Kept o → ((k.owned o).isSome ↔ k.Stores o)

/-- The object comes about on some host, by some run of calls with any visitors. -/
def Reaches (k : Lifecycle) (o : k.Object) : Prop :=
  ∃ (host host' : Host) (first : k.Object) (n : k.Visitors) (calls : List k.Call),
    host.heap.placement.InBounds ∧ k.make host = .ok first host' ∧
      (Prog.session k.run calls ((first, n), host')).2.1.1 = o

namespace Tended

variable {k : Lifecycle} {supported : Prop} {Kept : k.Object → Prop} {o : k.Object} {n : k.Visitors}
  {host host' : Host} {start : Heap}

/-- A call that fails keeps the invariant and turns over like one that does not. -/
theorem run_after (h : k.Tended supported Kept) (c : k.Call) (hkept : Kept o) (n : k.Visitors)
    (bounds : host.heap.placement.InBounds) :
    Kept ((k.run c).after ((o, n), host)).1.1 ∧
      Turnover host.heap (k.owned o) (k.owned ((k.run c).after ((o, n), host)).1.1)
        ((k.run c).after ((o, n), host)).2.heap := by
  rcases Prog.Ends.cases (h.run_tends c o n host hkept bounds) with
    ⟨_, _, hok⟩ | ⟨_, _, hkept', hturn, _⟩
  · exact hok
  · exact ⟨hkept', hturn⟩

/-- What every run of calls keeps. -/
structure Kempt (k : Lifecycle) (Kept : k.Object → Prop) (start : Heap)
    (s : (k.Object × k.Visitors) × Host) : Prop where
  kept : Kept s.1.1
  bounds : s.2.heap.placement.InBounds
  owes : Owes start s.2.heap (k.owned s.1.1).toList

theorem kempt_of_make (h : k.Tended supported Kept) (bounds : host.heap.placement.InBounds)
    (hmake : k.make host = .ok o host') (n : k.Visitors) :
    Kempt k Kept host.heap ((o, n), host') := by
  obtain ⟨hkept, hturn⟩ := (h.make_ends host bounds).of_run_ok hmake
  exact ⟨hkept, hturn.placement_eq ▸ bounds, hturn.owes (.refl host.heap)⟩

theorem kempt_session (h : k.Tended supported Kept) {s : (k.Object × k.Visitors) × Host}
    (hs : Kempt k Kept start s) (calls : List k.Call) :
    Kempt k Kept start (Prog.session k.run calls s).2 := by
  -- A call that fails counts as one that ends, with what it has left behind.
  refine Prog.session_induct (Kempt k Kept start) ?_ calls hs
  rintro c ⟨⟨o, n⟩, host⟩ ⟨hkept, bounds, howes⟩
  obtain ⟨hkept', hturn⟩ := h.run_after c hkept n bounds
  exact ⟨hkept', hturn.placement_eq ▸ bounds, hturn.owes howes⟩

/-- An object that comes about satisfies the invariant. -/
theorem kept_of_reaches (h : k.Tended supported Kept) (hreaches : k.Reaches o) : Kept o := by
  obtain ⟨host, host', first, n, calls, bounds, hmake, rfl⟩ := hreaches
  exact (h.kempt_session (h.kempt_of_make bounds hmake n) calls).kept

/-- Giving an object up takes its block back. -/
theorem exists_drop (h : k.Tended supported Kept) (hkept : Kept o)
    (howes : Owes start host.heap (k.owned o).toList) :
    ∃ o' host', k.drop (o, host) = .ok () (o', host') ∧ Owes start host'.heap [] := by
  obtain ⟨_, ⟨o', host'⟩, hdrop, hheap⟩ := (h.drop_ends o host hkept).exists_ok
  refine ⟨o', host', hdrop, ?_⟩
  have hheap : host'.heap = _ := hheap
  rw [hheap]
  cases howned : k.owned o with
  | none =>
    rw [howned] at howes
    exact howes
  | some base =>
    rw [howned] at howes
    exact howes.freed

end Tended

/-! ## Every run -/

/-- **The account of a container balances**, for objects that are made on the host. -/
structure Balanced (k : Lifecycle) (host : Host) : Prop where
  /-- Where none can be made, no block is left out. -/
  failed : ∀ e host', k.make host = .error e host' → Owes host.heap host'.heap []
  /-- After any run, the block of the object is the only one that is out, and there is one exactly where
  the object stores something. -/
  session : ∀ o host' n calls s, k.make host = .ok o host' →
    (Prog.session k.run calls ((o, n), host')).2 = s →
    Owes host.heap s.2.heap (k.owned s.1.1).toList ∧ ((k.owned s.1.1).isSome ↔ k.Stores s.1.1)
  /-- A call that comes next turns the block over at most once. -/
  turnover : ∀ o host' n calls s c, k.make host = .ok o host' →
    (Prog.session k.run calls ((o, n), host')).2 = s →
    Turnover s.2.heap (k.owned s.1.1) (k.owned ((k.run c).after s).1.1) ((k.run c).after s).2.heap
  /-- Giving the object up leaves no block out. -/
  dropped : ∀ o host' n calls s, k.make host = .ok o host' →
    (Prog.session k.run calls ((o, n), host')).2 = s →
    ∃ o' host'', k.drop (s.1.1, s.2) = .ok () (o', host'') ∧ Owes host.heap host''.heap []

/-- **A container fails as documented**, for objects that are made on the host. -/
structure Documented (k : Lifecycle) (host : Host) : Prop where
  /-- Making an object stops at no fault. -/
  make : ∀ e host', k.make host = .error e host' → e.Within k.MakeAnswers fun _ => False
  /-- After any run, a call fails as documented. -/
  session : ∀ o host' n calls s c e, k.make host = .ok o host' →
    (Prog.session k.run calls ((o, n), host')).2 = s → k.Calm c → (k.run c).answer s = .error e →
    k.Fails s.1.1 c e
  /-- Giving an object up does not fail. -/
  dropped : ∀ o host' n calls s, k.make host = .ok o host' →
    (Prog.session k.run calls ((o, n), host')).2 = s →
    ∃ s', k.drop (s.1.1, s.2) = .ok () s'

variable {k : Lifecycle} {supported : Prop} {Kept : k.Object → Prop} {host : Host}

theorem Tended.balanced (h : k.Tended supported Kept) (bounds : host.heap.placement.InBounds) :
    k.Balanced host := by
  refine ⟨fun e host' hfail => ?_, fun o host' n calls s hmake hs => ?_,
    fun o host' n calls s c hmake hs => ?_, fun o host' n calls s hmake hs => ?_⟩
  · exact ((h.make_ends host bounds).of_run_error hfail).1.owes (.refl host.heap)
  all_goals
    have hkempt := h.kempt_session (h.kempt_of_make bounds hmake n) calls
    rw [hs] at hkempt
  · exact ⟨hkempt.owes, h.stores_iff _ hkempt.kept⟩
  · exact (h.run_after c hkempt.kept _ hkempt.bounds).2
  · exact h.exists_drop hkempt.kept hkempt.owes

theorem Tended.documented (h : k.Tended supported Kept) (hsupported : supported)
    (bounds : host.heap.placement.InBounds) : k.Documented host := by
  refine ⟨fun e host' hfail => ?_, fun o host' n calls s c e hmake hs hcalm he => ?_,
    fun o host' n calls s hmake hs => ?_⟩
  · exact ((h.make_ends host bounds).of_run_error hfail).2 hsupported
  all_goals
    have hkempt := h.kempt_session (h.kempt_of_make bounds hmake n) calls
    rw [hs] at hkempt
  · rcases Prog.Ends.cases (h.run_tends c s.1.1 s.1.2 s.2 hkempt.kept hkempt.bounds) with
      ⟨_, hanswer, _⟩ | ⟨e', hanswer, _, _, hfails⟩
    · rw [he] at hanswer
      cases hanswer
    · rw [he] at hanswer
      cases hanswer
      exact hfails hsupported hcalm
  · obtain ⟨o', host'', hdrop, _⟩ := h.exists_drop hkempt.kept hkempt.owes
    exact ⟨_, hdrop⟩

end Lifecycle

end AlignedSlots
