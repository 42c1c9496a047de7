import Mathlib
import AlignedSlots.Proofs.Memory.ArenaLaws
import AlignedSlots.Proofs.Memory.LiveBlocks

/-!
# Runs of an arena

`Arena.session_account`: after any run of requests, writes and resets on a new arena, the offset is the
sum of the rounded sizes of the pieces that were cut off since the last reset, and these pieces lie behind
one another in the block.  The request that comes next gets its piece exactly where the rounded size still
fits, over the naturals, and is otherwise refused without a trace.
-/

namespace AlignedSlots

/-- What the holder of an arena does with it. -/
inductive ArenaStep where
  /-- Asks for a piece, perhaps one whose bytes are all zero. -/
  | take (zeroed : Bool) (size : Nat)
  /-- Writes bytes into the arena. -/
  | writeBytes (offset : Nat) (bytes : List UInt8)
  /-- Gives back all pieces. -/
  | reset

/-- Runs a step.  A request answers where its piece starts. -/
def ArenaStep.run : ArenaStep → Hosted Refusal Arena (Option Nat)
  | take false size => Arena.take size
  | take true size => Arena.takeZeroed size
  | writeBytes offset bytes => (fun _ => none) <$> Arena.writeBytes offset bytes
  | reset => (fun _ => none) <$> Arena.reset

namespace Arena

/-- A piece of an arena: where in the block it starts, and the size that was asked for. -/
structure Piece where
  start : Nat
  size : Nat
  deriving DecidableEq

/-- The addresses of a piece, with the bytes that rounding adds. -/
def Piece.region (p : Piece) (a : Arena) : Region := ⟨a.block.address + p.start, pieceSize p.size⟩

/-- The pieces that are out after a step and its answer, the latest one first. -/
def piecesAfter (out : List Piece) :
    Prog.Record Refusal ArenaStep (Option Nat) → List Piece
  | (.reset, _) => []
  | (.take _ size, .ok (some start)) => ⟨start, size⟩ :: out
  | _ => out

/-- The pieces that a run cut off since its last reset, the latest one first. -/
def pieces (records : List (Prog.Record Refusal ArenaStep (Option Nat))) : List Piece :=
  records.foldl piecesAfter []

/-! ## Pieces behind one another -/

/-- The pieces lie behind one another from the front of the block on, up to an offset. -/
inductive Stacked : List Piece → Nat → Prop
  | nil : Stacked [] 0
  | cons {out : List Piece} {stop : Nat} (size : Nat) :
      Stacked out stop → Stacked (⟨stop, size⟩ :: out) (stop + pieceSize size)

theorem pieceSize_eq (size : Nat) : pieceSize size = 8 * (size ⌈/⌉ 8) := by
  rw [Nat.ceilDiv_eq_add_pred_div, Nat.mul_comm]
  rfl

theorem dvd_pieceSize (size : Nat) : addressAlign ∣ pieceSize size := Layout.dvd_roundUp _ _

namespace Stacked

variable {out : List Piece} {stop : Nat} {p : Piece}

theorem stop_eq (h : Stacked out stop) : stop = (out.map fun p => pieceSize p.size).sum := by
  induction h with
  | nil => rfl
  | cons size _ ih =>
    rw [List.map_cons, List.sum_cons, ← ih]
    exact Nat.add_comm _ _

theorem dvd_stop (h : Stacked out stop) : addressAlign ∣ stop := by
  induction h with
  | nil => exact Nat.dvd_zero _
  | cons size _ ih => exact Nat.dvd_add ih (dvd_pieceSize size)

theorem dvd_start (h : Stacked out stop) (hp : p ∈ out) : addressAlign ∣ p.start := by
  induction h with
  | nil => cases hp
  | cons size hout ih =>
    rcases List.mem_cons.mp hp with rfl | hp
    · exact hout.dvd_stop
    · exact ih hp

theorem le_stop (h : Stacked out stop) (hp : p ∈ out) : p.start + pieceSize p.size ≤ stop := by
  induction h with
  | nil => cases hp
  | cons size _ ih =>
    rcases List.mem_cons.mp hp with rfl | hp
    · exact Nat.le_refl _
    · exact Nat.le_add_right_of_le (ih hp)

/-- A piece starts where the earlier ones have ended. -/
theorem pairwise_apart (h : Stacked out stop) (a : Arena) :
    (out.map fun p => p.region a).Pairwise Region.Apart := by
  induction h with
  | nil => exact .nil
  | @cons out stop size hout ih =>
    refine List.pairwise_cons.mpr ⟨fun r hr => ?_, ih⟩
    obtain ⟨p, hp, rfl⟩ := List.mem_map.mp hr
    have hle := hout.le_stop hp
    refine .inr ?_
    show a.block.address + p.start + pieceSize p.size ≤ a.block.address + stop
    omega

end Stacked

/-! ## Steps -/

variable {a : Arena} {out : List Piece} {host : Host}

/-- What a run keeps of an arena, beside its size and its place: it is sound, and what is in use are the
pieces that are out. -/
structure Keeps (size address : Nat) (out : List Piece) (a : Arena) : Prop where
  sound : a.Sound
  size_eq : a.size = size
  address_eq : a.block.address = address
  stacked : Stacked out a.offset

/-- What a request answers and leaves: the next piece where it fits, and otherwise nothing. -/
structure Requested (a : Arena) (size : Nat) (answer : Option Nat) (a' : Arena) : Prop where
  /-- The piece starts where the pieces so far end. -/
  granted : a.Fits size → answer = some a.offset ∧ a'.offset = a.offset + pieceSize size
  refused : ¬ a.Fits size → answer = none ∧ a' = a
  sound : a'.Sound
  size_eq : a'.size = a.size
  address_eq : a'.block.address = a.block.address

theorem run_take_ends (h : a.Sound) (zeroed : Bool) (size : Nat) (host : Host) :
    (ArenaStep.run (.take zeroed size)).Ends (a, host)
      (fun answer s => s.2.heap = host.heap ∧ Requested a size answer s.1) (fun _ _ => False) := by
  cases zeroed with
  | false =>
    apply (take_ends h size host).mono _ fun _ _ hfalse => hfalse
    rintro _ ⟨_, _⟩ ⟨hheap, ⟨hfits, rfl, rfl⟩ | ⟨hfits, rfl, rfl⟩⟩
    · exact ⟨hheap, fun _ => ⟨rfl, rfl⟩, fun hnot => absurd hfits hnot, h.taken hfits, rfl, rfl⟩
    · exact ⟨hheap, fun hyes => absurd hyes hfits, fun _ => ⟨rfl, rfl⟩, h, rfl, rfl⟩
  | true =>
    apply (takeZeroed_ends h size host).mono _ fun _ _ hfalse => hfalse
    rintro _ ⟨_, _⟩ ⟨hheap, ⟨hfits, rfl, rfl⟩ | ⟨hfits, rfl, rfl⟩⟩
    · exact ⟨hheap, fun _ => ⟨rfl, rfl⟩, fun hnot => absurd hfits hnot,
        (h.taken hfits).fill _ _ _, rfl, Parcel.address_mapCells _ _⟩
    · exact ⟨hheap, fun hyes => absurd hyes hfits, fun _ => ⟨rfl, rfl⟩, h, rfl, rfl⟩

/-- **A step** keeps the account of the pieces, and does not fail. -/
theorem run_keeps {size address : Nat} (step : ArenaStep) (h : Keeps size address out a)
    (host : Host) :
    step.run.Ends (a, host)
      (fun answer s => Keeps size address (piecesAfter out (step, .ok answer)) s.1)
      (fun _ _ => False) := by
  obtain ⟨hsound, hsize, haddress, hstacked⟩ := h
  cases step with
  | take zeroed request =>
    apply (run_take_ends hsound zeroed request host).mono _ fun _ _ hfalse => hfalse
    rintro answer ⟨a', host'⟩ ⟨_, hrequested⟩
    by_cases hfits : a.Fits request
    · obtain ⟨rfl, hoffset⟩ := hrequested.granted hfits
      have hstacked' := hstacked.cons request
      rw [← hoffset] at hstacked'
      exact ⟨hrequested.sound, hrequested.size_eq.trans hsize,
        hrequested.address_eq.trans haddress, hstacked'⟩
    · obtain ⟨rfl, rfl⟩ := hrequested.refused hfits
      exact ⟨hsound, hsize, haddress, hstacked⟩
  | writeBytes offset bytes =>
    apply Prog.Ends.map
    apply Prog.Ends.of_ok (updateBlock_eq _ a host)
    exact ⟨hsound.writeBytes offset bytes, hsize, (Parcel.address_mapCells _ _).trans haddress, hstacked⟩
  | reset =>
    apply Prog.Ends.map
    apply Prog.Ends.of_ok (setOffset_eq 0 a host)
    exact ⟨hsound.reset, hsize, haddress, .nil⟩

/-! ## Runs -/

/-- From an arena with some pieces out, a run keeps the account of those and its own. -/
theorem session_keeps {size address : Nat} (steps : List ArenaStep) (h : Keeps size address out a)
    (host : Host) :
    ∃ records a' host', Prog.session ArenaStep.run steps (a, host) = (records, a', host') ∧
      (∀ r ∈ records, ∃ answer, r.2 = .ok answer) ∧
      Keeps size address (records.foldl piecesAfter out) a' := by
  induction steps generalizing a out host with
  | nil => exact ⟨[], a, host, rfl, nofun, h⟩
  | cons step rest ih =>
    obtain ⟨answer, ⟨a₁, host₁⟩, hrun, hkeeps⟩ := (run_keeps step h host).exists_ok
    obtain ⟨records, a', host', hrest, hok, hkeeps'⟩ := ih hkeeps host₁
    refine ⟨(step, .ok answer) :: records, a', host', ?_, fun r hr => ?_, hkeeps'⟩
    · rw [Prog.session_cons, Prog.answer_of_ok hrun, Prog.after_of_ok hrun, hrest]
    · rcases List.mem_cons.mp hr with rfl | hr
      · exact ⟨answer, rfl⟩
      · exact hok r hr

/-- **The account of an arena** with some pieces out. -/
structure Account (a : Arena) (out : List Piece) : Prop where
  offset_eq : a.offset = (out.map fun p => 8 * (p.size ⌈/⌉ 8)).sum
  dvd_offset : 8 ∣ a.offset
  offset_le : a.offset ≤ a.size
  remaining_eq : a.remaining = .ok (a.size - a.offset)
  aligned : ∀ p ∈ out, 8 ∣ (p.region a).base
  apart : (out.map fun p => p.region a).Pairwise Region.Apart
  /-- The pieces are inside the arena, and the arena is inside its raw block. -/
  inside : ∀ p ∈ out, a.block.address ≤ (p.region a).base ∧
    (p.region a).base + (p.region a).size ≤ a.block.address + a.size
  arena_inside : a.block.raw.base ≤ a.block.address ∧
    a.block.address + a.size ≤ a.block.raw.base + a.block.raw.size

theorem Keeps.account {size address : Nat} (h : Keeps size address out a) : a.Account out := by
  have hdvd : addressAlign ∣ a.block.address := h.sound.placed.aligned
  have hfits := h.sound.placed.fits
  have hle := h.sound.offset_le
  have haddress : a.block.address = a.block.raw.base + a.block.start := rfl
  have hsum : (out.map fun p => pieceSize p.size) = out.map fun p => 8 * (p.size ⌈/⌉ 8) :=
    List.map_congr_left fun p _ => pieceSize_eq p.size
  refine ⟨?_, h.stacked.dvd_stop, hle, remaining_eq h.sound, fun p hp => ?_,
    h.stacked.pairwise_apart a, fun p hp => ?_, by omega, by omega⟩
  · rw [← hsum]
    exact h.stacked.stop_eq
  · exact Nat.dvd_add hdvd (h.stacked.dvd_start hp)
  · have hstop := h.stacked.le_stop hp
    refine ⟨Nat.le_add_right _ _, ?_⟩
    show a.block.address + p.start + pieceSize p.size ≤ a.block.address + a.size
    omega

/-- **The pieces of an arena account for its offset**: after any run from a new arena they are stacked from
its front on, aligned and apart.  A request that comes next, of any size, gets a piece exactly where its
rounded size still fits; a refused one leaves the arena as it is, with its bytes. -/
theorem session_account {size : Nat} {host' : Host} (bounds : host.heap.placement.InBounds)
    (hmake : create size host = .ok a host') (steps : List ArenaStep) :
    ∃ records a' host'', Prog.session ArenaStep.run steps (a, host') = (records, a', host'') ∧
      (∀ r ∈ records, ∃ answer, r.2 = .ok answer) ∧
      a'.size = size ∧ a'.block.address = a.block.address ∧ a'.Account (pieces records) ∧
      ∀ zeroed request, ∃ answer a'' log,
        ArenaStep.run (.take zeroed request) (a', host'') = .ok answer (a'', ⟨host''.heap, log⟩) ∧
        (answer.isSome ↔ 0 < request ∧ a'.offset + 8 * (request ⌈/⌉ 8) ≤ size) ∧
        (∀ start, answer = some start →
          start = a'.offset ∧ a''.offset = a'.offset + 8 * (request ⌈/⌉ 8)) ∧
        (answer = none → a'' = a') := by
  obtain ⟨hsound, hsize, hoffset, _⟩ := (create_ends size host bounds).of_run_ok hmake
  have hkeeps : Keeps size a.block.address [] a := ⟨hsound, hsize, rfl, hoffset ▸ .nil⟩
  obtain ⟨records, a', host'', hsession, hok, hkeeps'⟩ := session_keeps steps hkeeps host'
  refine ⟨records, a', host'', hsession, hok, hkeeps'.size_eq, hkeeps'.address_eq,
    hkeeps'.account, fun zeroed request => ?_⟩
  obtain ⟨answer, ⟨a'', ⟨heap, log⟩⟩, hrun, hheap, hrequested⟩ :=
    (run_take_ends hkeeps'.sound zeroed request host'').exists_ok
  have hheap : heap = host''.heap := hheap
  subst hheap
  have hfits : a'.Fits request ↔ 0 < request ∧ a'.offset + 8 * (request ⌈/⌉ 8) ≤ size := by
    unfold Fits
    rw [hkeeps'.size_eq, pieceSize_eq]
  refine ⟨answer, a'', log, hrun, ?_⟩
  rw [← hfits, ← pieceSize_eq]
  by_cases h : a'.Fits request
  · obtain ⟨rfl, hoffset'⟩ := hrequested.granted h
    exact ⟨iff_of_true rfl h, fun start hstart => ⟨(Option.some.inj hstart).symm, hoffset'⟩, nofun⟩
  · obtain ⟨rfl, rfl⟩ := hrequested.refused h
    exact ⟨iff_of_false nofun h, nofun, fun _ => rfl⟩

/-- After a reset two pieces are cut off an arena of 20 bytes, and the four bytes behind them are left over:
no request gets them. -/
theorem session_account_leftover :
    ∃ (a : Arena) (host' : Host) (records : List (Prog.Record Refusal ArenaStep (Option Nat)))
      (a' : Arena) (host'' : Host), Host.ordinary.heap.placement.InBounds ∧
      create 20 Host.ordinary = .ok a host' ∧
      Prog.session ArenaStep.run
        [.take false 17, .reset, .take false 3, .take true 17, .take true 8, .take false 0]
        (a, host') = (records, a', host'') ∧
      a'.Account [⟨8, 8⟩, ⟨0, 3⟩] ∧
      (ArenaStep.run (.take false 1)).answer (a', host'') = .ok none := by
  let steps : List ArenaStep :=
    [.take false 17, .reset, .take false 3, .take true 17, .take true 8, .take false 0]
  obtain ⟨a, host', hmake, hpieces, hoffset⟩ :
      ∃ (a : Arena) (host' : Host), create 20 Host.ordinary = .ok a host' ∧
        pieces (Prog.session ArenaStep.run steps (a, host')).1 = [⟨8, 8⟩, ⟨0, 3⟩] ∧
        (Prog.session ArenaStep.run steps (a, host')).2.1.offset = 16 :=
    ⟨_, _, rfl, by decide +kernel, by decide +kernel⟩
  obtain ⟨records, a', host'', hsession, _, _, _, haccount, hnext⟩ :=
    session_account Host.ordinary_sound.inBounds hmake steps
  rw [hsession] at hpieces hoffset
  have hpieces : pieces records = [⟨8, 8⟩, ⟨0, 3⟩] := hpieces
  have hoffset : a'.offset = 16 := hoffset
  obtain ⟨answer, _, _, hrun, hsome, _, _⟩ := hnext false 1
  have hnone : answer = none := by
    rw [← Option.not_isSome_iff_eq_none, hsome, hoffset]
    decide
  exact ⟨a, host', records, a', host'', Host.ordinary_sound.inBounds, hmake, hsession,
    hpieces ▸ haccount, (Prog.answer_of_ok hrun).trans (congrArg Except.ok hnone)⟩

end Arena

end AlignedSlots
