import Mathlib
import AlignedSlots.Proofs.Container.SlotBytes
import AlignedSlots.Proofs.Memory.ArenaSessions

/-!
# The bytes of an arena

An arena is used again after a reset, with the bytes that were left in it.  `Arena.Effect` says for each
step which bytes of the raw block it changes: a request none, or exactly those of the new piece if they
are to be zero, and a write those that it is given.

`Arena.session_bytes` says what this comes to along a run.  Until the next reset a piece holds what was
last written into it, however many pieces are cut off behind it.
-/

namespace AlignedSlots

/-- A cell of the payload, seen by its address. -/
theorem Parcel.cellAt_payload {b : Parcel} {k : Nat} (h : b.start + k < b.raw.size) :
    b.raw.cellAt (b.address + k) = some (b.peek k) := by
  have hoffset : b.raw.base + b.start + k - b.raw.base = b.start + k := by omega
  have hcovers : b.raw.region.Covers (b.raw.base + b.start + k) := by
    refine ⟨?_, ?_⟩
    · show b.raw.base ≤ _
      omega
    · show _ < b.raw.base + b.raw.size
      omega
  show b.raw.cellAt (b.raw.base + b.start + k) = some (b.raw.cells.peek (b.start + k))
  unfold RawBlock.cellAt
  rw [if_pos hcovers, hoffset]

instance (r q : Region) : Decidable (r.Inside q) := inferInstanceAs (Decidable (_ ∧ _))

namespace Arena

variable {a a' : Arena} {start count size address : Nat} {out : List Piece} {p q : Piece}
  {step : ArenaStep} {host : Host}

/-- What the raw block of an arena holds at an address. -/
def cellAt (a : Arena) (address : Nat) : Option Cell := a.block.raw.cellAt address

/-! ## Overwriting a range -/

/-- A range of the arena has got new bytes, and every other byte of the raw block is as it was. -/
structure Overwritten (a : Arena) (start count : Nat) (content : Nat → UInt8) (a' : Arena) : Prop where
  inside : ∀ k < count, a'.cellAt (a.block.address + start + k) = some (.byte (content k))
  outside : ∀ x, ¬ Region.Covers ⟨a.block.address + start, count⟩ x → a'.cellAt x = a.cellAt x

/-- A byte of the arena is one of the new ones, or the one that was there. -/
theorem Overwritten.cellAt_eq {content : Nat → UInt8} (h : Overwritten a start count content a')
    (j : Nat) : a'.cellAt (a.block.address + j) =
      if start ≤ j ∧ j < start + count then some (.byte (content (j - start)))
      else a.cellAt (a.block.address + j) := by
  by_cases hj : start ≤ j ∧ j < start + count
  · rw [if_pos hj, ← h.inside (j - start) (by omega)]
    congr 1
    omega
  · rw [if_neg hj]
    refine h.outside _ ?_
    rintro ⟨hlow, hhigh⟩
    have hlow : a.block.address + start ≤ a.block.address + j := hlow
    have hhigh : a.block.address + j < a.block.address + start + count := hhigh
    omega

theorem overwritten_mapCells {f : Cells → Cells} {content : Nat → UInt8} (h : a.Sound)
    (hfits : start + count ≤ a.size) (hblock : a'.block = a.block.mapCells f)
    (hsize : (f a.block.raw.cells).size = a.block.raw.cells.size)
    (hpeek : ∀ i, (f a.block.raw.cells).peek i =
      if a.block.start + start ≤ i ∧ i < a.block.start + start + count ∧ i < a.block.raw.cells.size
      then .byte (content (i - (a.block.start + start))) else a.block.raw.cells.peek i) :
    Overwritten a start count content a' := by
  have hroom : a.block.start + a.size ≤ a.block.raw.cells.size := h.placed.fits
  constructor
  · intro k hk
    show a'.block.raw.cellAt (a.block.address + start + k) = _
    have hin : (a.block.mapCells f).start + (start + k) < (a.block.mapCells f).raw.size := by
      show _ < (a.block.mapCells f).raw.cells.size
      rw [Parcel.start_mapCells, Parcel.cells_mapCells, hsize]
      omega
    have hcell := Parcel.cellAt_payload hin
    unfold Parcel.peek at hcell
    rw [Parcel.address_mapCells, Parcel.start_mapCells, Parcel.cells_mapCells, hpeek,
      if_pos (by omega)] at hcell
    have hindex : a.block.start + (start + k) - (a.block.start + start) = k := by omega
    rw [hblock, Nat.add_assoc, hcell, hindex]
  · intro x hx
    show a'.block.raw.cellAt x = _
    rw [hblock]
    refine Parcel.cellAt_mapCells hsize (fun i hi => ?_) hx
    rw [hpeek, if_neg (by omega)]

theorem overwritten_fill (h : a.Sound) (hfits : start + count ≤ a.size) (value : UInt8)
    (hblock : a'.block = a.block.fill start count value) :
    Overwritten a start count (fun _ => value) a' :=
  overwritten_mapCells (f := fun cells => cells.fill (a.block.start + start) count value) h hfits
    hblock (Cells.size_fill _ _ _ _) fun _ => Cells.peek_fill _ _ _ _ _

theorem overwritten_writeBytes (h : a.Sound) {bytes : List UInt8}
    (hfits : start + bytes.length ≤ a.size) (hblock : a'.block = a.block.writeBytes start bytes) :
    Overwritten a start bytes.length (fun k => bytes.getD k 0) a' :=
  overwritten_mapCells (f := fun cells => cells.writeBytes (a.block.start + start) bytes) h hfits
    hblock (Cells.size_writeBytes _ _ _) fun _ => Cells.peek_writeBytes _ _ _ _

/-! ## One step -/

/-- The offsets of a piece in its arena, with the bytes that rounding adds. -/
def Piece.span (p : Piece) : Region := ⟨p.start, 8 * (p.size ⌈/⌉ 8)⟩

theorem Piece.span_eq (p : Piece) : p.span = ⟨p.start, pieceSize p.size⟩ := by
  rw [pieceSize_eq]
  rfl

end Arena

namespace ArenaStep

open Arena

/-- If the step writes bytes, it writes them into a piece that is out. -/
def Within (out : List Piece) : ArenaStep → Prop
  | writeBytes offset bytes => ∃ p ∈ out, Region.Inside ⟨offset, bytes.length⟩ p.span
  | take _ _ => True
  | reset => True

instance (out : List Piece) : (step : ArenaStep) → Decidable (step.Within out)
  | writeBytes _ _ => inferInstanceAs (Decidable (∃ p ∈ out, _))
  | take _ _ => .isTrue trivial
  | reset => .isTrue trivial

/-- The byte that the step writes at an offset of the arena. -/
def byteAt (j : Nat) : ArenaStep → Option UInt8
  | writeBytes offset bytes => if offset ≤ j then bytes[j - offset]? else none
  | take _ _ => none
  | reset => none

/-- The byte that a run has written last at an offset of the arena. -/
def lastWritten (j : Nat) : List ArenaStep → Option UInt8
  | [] => none
  | step :: rest => (lastWritten j rest).or (step.byteAt j)

end ArenaStep

namespace Arena

variable {a a' : Arena} {start count size address : Nat} {out : List Piece} {p q : Piece}
  {step : ArenaStep} {host : Host}

/-- **What a step does** to the bytes of the raw block, and where it puts the offset. -/
inductive Effect (a : Arena) : ArenaStep → Option Nat → Arena → Prop
  /-- A refused request changes nothing at all. -/
  | refused (zeroed : Bool) (size : Nat) : Effect a (.take zeroed size) none a
  /-- A piece keeps the bytes that were there. -/
  | taken {a' : Arena} (size : Nat) : a'.offset = a.offset + 8 * (size ⌈/⌉ 8) →
      (∀ x, a'.cellAt x = a.cellAt x) → Effect a (.take false size) (some a.offset) a'
  /-- A piece that is to be zero gets zeros from the old offset to the new one. -/
  | zeroed {a' : Arena} (size : Nat) : a'.offset = a.offset + 8 * (size ⌈/⌉ 8) →
      Overwritten a a.offset (8 * (size ⌈/⌉ 8)) (fun _ => 0) a' →
      Effect a (.take true size) (some a.offset) a'
  | reset {a' : Arena} : a'.offset = 0 → (∀ x, a'.cellAt x = a.cellAt x) → Effect a .reset none a'
  | written {a' : Arena} (offset : Nat) (bytes : List UInt8) : a'.offset = a.offset →
      Overwritten a offset bytes.length (fun k => bytes.getD k 0) a' →
      Effect a (.writeBytes offset bytes) none a'

theorem Keeps.span_le (h : Keeps size address out a) (hp : p ∈ out) :
    p.start + 8 * (p.size ⌈/⌉ 8) ≤ a.offset := by
  rw [← pieceSize_eq]
  exact h.stacked.le_stop hp

/-- **Every step** that writes into pieces only has its effect, and keeps the account of the pieces. -/
theorem run_effect (step : ArenaStep) (h : Keeps size address out a) (hwithin : step.Within out)
    (host : Host) :
    step.run.Ends (a, host)
      (fun answer s => Effect a step answer s.1 ∧
        Keeps size address (piecesAfter out (step, .ok answer)) s.1)
      (fun _ _ => False) := by
  suffices heffect : step.run.Ends (a, host) (fun answer s => Effect a step answer s.1)
      fun _ _ => False from
    (heffect.and (run_keeps step h host)).mono (fun _ _ hboth => hboth) fun _ _ hfalse => hfalse.1
  cases step with
  | take zeroed request =>
    have hpiece := pieceSize_eq request
    cases zeroed with
    | false =>
      apply (take_ends h.sound request host).mono _ fun _ _ hfalse => hfalse
      rintro _ ⟨_, _⟩ ⟨_, ⟨_, rfl, rfl⟩ | ⟨_, rfl, rfl⟩⟩
      · exact .taken request (congrArg (a.offset + ·) hpiece) fun _ => rfl
      · exact .refused false request
    | true =>
      apply (takeZeroed_ends h.sound request host).mono _ fun _ _ hfalse => hfalse
      rintro _ ⟨_, _⟩ ⟨_, ⟨hfits, rfl, rfl⟩ | ⟨_, rfl, rfl⟩⟩
      · refine .zeroed request (congrArg (a.offset + ·) hpiece) ?_
        rw [← hpiece]
        exact overwritten_fill h.sound hfits.2 0 rfl
      · exact .refused true request
  | writeBytes offset bytes =>
    obtain ⟨p, hp, _, hend⟩ := hwithin
    have hend : offset + bytes.length ≤ p.start + 8 * (p.size ⌈/⌉ 8) := hend
    have hspan := h.span_le hp
    have hoffset := h.sound.offset_le
    apply Prog.Ends.map
    apply Prog.Ends.of_ok (updateBlock_eq _ a host)
    exact .written offset bytes rfl (overwritten_writeBytes h.sound (by omega) rfl)
  | reset =>
    apply Prog.Ends.map
    apply Prog.Ends.of_ok (setOffset_eq 0 a host)
    exact .reset rfl fun _ => rfl

/-- A byte that is in use changes only where it is written. -/
theorem Effect.cellAt_eq {answer : Option Nat} (heffect : Effect a step answer a') {j : Nat}
    (hj : j < a.offset) : a'.cellAt (a.block.address + j) =
      ((step.byteAt j).map Cell.byte).or (a.cellAt (a.block.address + j)) := by
  cases heffect with
  | refused _ _ => rfl
  | taken _ _ hsame => exact hsame _
  | reset _ hsame => exact hsame _
  | zeroed size _ hzero =>
    -- The new piece starts behind all that are out.
    rw [hzero.cellAt_eq, if_neg (by omega)]
    rfl
  | written offset bytes _ hwritten =>
    rw [hwritten.cellAt_eq]
    simp only [ArenaStep.byteAt]
    by_cases hin : offset ≤ j ∧ j < offset + bytes.length
    · have hget : bytes[j - offset]? = some bytes[j - offset] :=
        List.getElem?_eq_getElem (by omega)
      rw [if_pos hin, if_pos hin.1, List.getD_eq_getElem?_getD, hget]
      rfl
    · rw [if_neg hin]
      by_cases hle : offset ≤ j
      · rw [if_pos hle, List.getElem?_eq_none (by omega)]
        rfl
      · rw [if_neg hle]
        rfl

/-! ## Runs -/

/-- Along a run, bytes are written only into pieces that are out at the time. -/
def Confined : List ArenaStep → List Piece → Arena × Host → Prop
  | [], _, _ => True
  | step :: rest, out, s => step.Within out ∧
      Confined rest (piecesAfter out (step, step.run.answer s)) (step.run.after s)

instance instDecidableConfined : (steps : List ArenaStep) → (out : List Piece) →
    (s : Arena × Host) → Decidable (Confined steps out s)
  | [], _, _ => .isTrue trivial
  | step :: rest, out, s =>
    haveI := instDecidableConfined rest (piecesAfter out (step, step.run.answer s)) (step.run.after s)
    inferInstanceAs (Decidable (_ ∧ _))

/-- What has become of a piece after a run: each of its bytes is the one that was written there last, or
the one that was there before, and no write of the run goes across its ends. -/
structure Retained (a : Arena) (p : Piece) (steps : List ArenaStep) (a' : Arena) : Prop where
  cellAt_eq : ∀ j, p.span.Covers j → a'.cellAt (a.block.address + j) =
    ((ArenaStep.lastWritten j steps).map Cell.byte).or (a.cellAt (a.block.address + j))
  writes : ∀ offset bytes, ArenaStep.writeBytes offset bytes ∈ steps →
    Region.Inside ⟨offset, bytes.length⟩ p.span ∨ Region.Apart ⟨offset, bytes.length⟩ p.span

/-- What lies in one of the pieces lies in a given one or apart from it. -/
theorem Stacked.inside_or_apart {stop : Nat} {r : Region} (h : Stacked out stop) (hp : p ∈ out)
    (hq : q ∈ out) (hin : r.Inside q.span) : r.Inside p.span ∨ r.Apart p.span := by
  rw [Piece.span_eq] at hin ⊢
  have hlow : q.start ≤ r.base := hin.1
  have hhigh : r.base + r.size ≤ q.start + pieceSize q.size := hin.2
  induction h with
  | nil => cases hp
  | @cons out stop size hout ih =>
    rcases List.mem_cons.mp hp with rfl | hp
    · rcases List.mem_cons.mp hq with rfl | hq
      · exact .inl hin
      · have hle := hout.le_stop hq
        exact .inr (.inl (Nat.le_trans hhigh hle))
    · rcases List.mem_cons.mp hq with rfl | hq
      · have hle := hout.le_stop hp
        exact .inr (.inr (Nat.le_trans hle hlow))
      · exact ih hp hq

theorem mem_piecesAfter {answer : Except (Failure Refusal) (Option Nat)} (hp : p ∈ out)
    (hstep : step ≠ .reset) : p ∈ piecesAfter out (step, answer) := by
  cases step with
  | reset => exact (hstep rfl).elim
  | writeBytes _ _ => exact hp
  | take _ _ =>
    rcases answer with _ | _ | _
    · exact hp
    · exact hp
    · exact List.mem_cons_of_mem _ hp

/-- **A piece that is out** is retained by every run without a reset. -/
theorem session_retains (steps : List ArenaStep) (h : Keeps size address out a) (hp : p ∈ out)
    (hreset : ArenaStep.reset ∉ steps) (hconfined : Confined steps out (a, host)) :
    Retained a p steps (Prog.session ArenaStep.run steps (a, host)).2.1 := by
  induction steps generalizing a out host with
  | nil => exact ⟨fun _ _ => rfl, fun _ _ hmem => (List.not_mem_nil hmem).elim⟩
  | cons step rest ih =>
    obtain ⟨hwithin, hrest⟩ := hconfined
    obtain ⟨answer, ⟨a₁, host₁⟩, hrun, heffect, hkeeps⟩ := (run_effect step h hwithin host).exists_ok
    rw [Prog.answer_of_ok hrun, Prog.after_of_ok hrun] at hrest
    have hne : step ≠ .reset := fun heq => hreset (heq ▸ List.mem_cons_self)
    have hnext := ih hkeeps (mem_piecesAfter hp hne) (fun hmem => hreset (List.mem_cons_of_mem _ hmem))
      hrest
    rw [Prog.session_cons, Prog.after_of_ok hrun]
    refine ⟨fun j hj => ?_, fun offset bytes hmem => ?_⟩
    · have haddress : a₁.block.address = a.block.address := hkeeps.address_eq.trans h.address_eq.symm
      have hused : j < a.offset := Nat.lt_of_lt_of_le hj.2 (h.span_le hp)
      have hcell := hnext.cellAt_eq j hj
      rw [haddress, heffect.cellAt_eq hused, ← Option.or_assoc, ← Option.map_or] at hcell
      exact hcell
    · rcases List.mem_cons.mp hmem with rfl | hmem
      · obtain ⟨q, hq, hin⟩ := hwithin
        exact h.stacked.inside_or_apart hp hq hin
      · exact hnext.writes offset bytes hmem

/-- **The bytes of an arena**, after any run of requests, writes and resets on a new arena of any size.

* Every step that comes next, a write into one of the pieces that are out included, changes the bytes
  that are given by its effect and no others: a request none, unless it is met with zeros, and a reset
  none either.
* Until the next reset, a piece that is out retains its bytes: they change only where a write into that
  piece changes them. -/
theorem session_bytes {size : Nat} {host' : Host} (bounds : host.heap.placement.InBounds)
    (hmake : create size host = .ok a host') (steps : List ArenaStep) :
    ∃ records a' host'', Prog.session ArenaStep.run steps (a, host') = (records, a', host'') ∧
      (∀ step : ArenaStep, step.Within (pieces records) → ∃ answer a'' host''',
        step.run (a', host'') = .ok answer (a'', host''') ∧ Effect a' step answer a'') ∧
      ∀ p ∈ pieces records, ∀ more, ArenaStep.reset ∉ more →
        Confined more (pieces records) (a', host'') →
        Retained a' p more (Prog.session ArenaStep.run more (a', host'')).2.1 := by
  obtain ⟨hsound, hsize, hoffset, _⟩ := (create_ends size host bounds).of_run_ok hmake
  have hnew : Keeps size a.block.address [] a := ⟨hsound, hsize, rfl, hoffset ▸ .nil⟩
  obtain ⟨records, a', host'', hsession, _, hkeeps⟩ := session_keeps steps hnew host'
  refine ⟨records, a', host'', hsession, fun step hwithin => ?_, fun p hp more hreset hconfined =>
    session_retains more hkeeps hp hreset hconfined⟩
  obtain ⟨answer, ⟨a'', host'''⟩, hrun, heffect, _⟩ :=
    (run_effect step hkeeps hwithin host'').exists_ok
  exact ⟨answer, a'', host''', hrun, heffect⟩

/-- An arena of 32 bytes is filled and reset, and a piece of three bytes is cut off.  The next piece, of
seventeen, is zeroed over 24 bytes; the first one holds what is written into it, and in its padding what
was there before the reset. -/
theorem session_bytes_reused :
    ∃ (a : Arena) (host' : Host) (records : List (Prog.Record Refusal ArenaStep (Option Nat)))
      (a' a'' : Arena) (host'' : Host),
      let more : List ArenaStep := [.writeBytes 0 [1, 2, 3], .take true 17, .writeBytes 8 [9]]
      let last := (Prog.session ArenaStep.run more (a', host'')).2.1
      Host.ordinary.heap.placement.InBounds ∧ create 32 Host.ordinary = .ok a host' ∧
      Prog.session ArenaStep.run
        [.take false 32, .writeBytes 0 (List.replicate 32 255), .reset, .take false 3] (a, host') =
          (records, a', host'') ∧
      Effect a' (.take true 17) (some 8) a'' ∧ Confined more (pieces records) (a', host'') ∧
      Retained a' ⟨0, 3⟩ more last ∧ last.cellAt (a'.block.address + 2) = some (.byte 3) ∧
      last.cellAt (a'.block.address + 5) = some (.byte 255) := by
  let steps : List ArenaStep :=
    [.take false 32, .writeBytes 0 (List.replicate 32 255), .reset, .take false 3]
  let more : List ArenaStep := [.writeBytes 0 [1, 2, 3], .take true 17, .writeBytes 8 [9]]
  obtain ⟨a, host', hmake, hpieces, hanswer, hconfined, hpadding⟩ :
      ∃ (a : Arena) (host' : Host), create 32 Host.ordinary = .ok a host' ∧
        pieces (Prog.session ArenaStep.run steps (a, host')).1 = [⟨0, 3⟩] ∧
        (ArenaStep.run (.take true 17)).answer (Prog.session ArenaStep.run steps (a, host')).2 =
          .ok (some 8) ∧
        Confined more [⟨0, 3⟩] (Prog.session ArenaStep.run steps (a, host')).2 ∧
        (Prog.session ArenaStep.run steps (a, host')).2.1.cellAt
          ((Prog.session ArenaStep.run steps (a, host')).2.1.block.address + 5) =
            some (.byte 255) :=
    ⟨_, _, rfl, by decide +kernel, by decide +kernel, by decide +kernel, by decide +kernel⟩
  obtain ⟨records, a', host'', hsession, hnext, hretained⟩ :=
    session_bytes Host.ordinary_sound.inBounds hmake steps
  rw [hsession] at hpieces hanswer hconfined hpadding
  have hpieces : pieces records = [⟨0, 3⟩] := hpieces
  obtain ⟨answer, a'', host''', hrun, heffect⟩ := hnext (.take true 17) trivial
  rw [Prog.answer_of_ok hrun] at hanswer
  cases hanswer
  rw [← hpieces] at hconfined
  have hkept := hretained ⟨0, 3⟩ (by rw [hpieces]; exact List.mem_cons_self) more (by simp [more])
    hconfined
  refine ⟨a, host', records, a', a'', host'', Host.ordinary_sound.inBounds, hmake, hsession, heffect,
    hconfined, hkept, hkept.cellAt_eq 2 (by decide), ?_⟩
  rw [hkept.cellAt_eq 5 (by decide)]
  exact hpadding

end Arena

end AlignedSlots
