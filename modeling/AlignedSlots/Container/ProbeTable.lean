import AlignedSlots.Container.Entry
import AlignedSlots.Container.Keying
import AlignedSlots.Container.Walk

/-!
# Probe tables

Hash tables with open addressing and linear probing.

The number of slots is a power of two.  The hash of a key chooses its home slot, and a probe goes from
there to the following slots, around the end, until it meets the key or an empty slot.  A put first
doubles the slots of a table that is at least half full, so that there is always an empty slot.  An
erase leaves no mark: every entry between the emptied slot and the next empty one is taken out and put
in again, so that no probe stops too early.

`ProbeTable.probe` is the one definition of a probe; finding, putting and rehashing go through it.
-/

namespace AlignedSlots

/-- A hash table with linear probing. -/
structure ProbeTable (κ ν : Type) where
  slots : Slots
  length : Nat
  keying : Keying κ

/-- Where a probe for a key ends. -/
inductive Landing where
  /-- At a slot that holds the key. -/
  | occupied (index : Nat)
  /-- At an empty slot. -/
  | vacant (index : Nat)
  deriving DecidableEq, Repr

namespace ProbeTable

/-- The number of slots of a new table. -/
def firstCapacity : Nat := 16

variable {κ ν ε σ β : Type}

/-- The number of slots. -/
def capacity (t : ProbeTable κ ν) : Nat := t.slots.capacity

/-- Without entries. -/
def isEmpty (t : ProbeTable κ ν) : Bool := t.length == 0

/-- At least half of the slots hold an entry. -/
def isHalfFull (t : ProbeTable κ ν) : Bool := decide (t.capacity / 2 ≤ t.length)

/-- The address of the first slot. -/
def address (t : ProbeTable κ ν) : Nat := t.slots.address

/-- A program of the slots alone. -/
def onSlots (m : Prog ε Slots β) : Hosted ε (ProbeTable κ ν) β :=
  fun (⟨slots, length, keying⟩, host) =>
    match m slots with
    | .ok b slots => .ok b (⟨slots, length, keying⟩, host)
    | .error e slots => .error e (⟨slots, length, keying⟩, host)

/-- Asks something of the table. -/
def ask (f : ProbeTable κ ν → Except (Failure ε) β) : Hosted ε (ProbeTable κ ν) β :=
  fun (t, host) =>
    match f t with
    | .ok b => .ok b (t, host)
    | .error e => .error e (t, host)

/-- Sets the length. -/
def setLength (length : Nat) : Hosted ε (ProbeTable κ ν) Unit := fun (⟨slots, _, keying⟩, host) =>
  .ok () (⟨slots, length, keying⟩, host)

/-- Exchanges the slots, and answers the ones before. -/
def exchangeSlots (new : Slots) : Hosted ε (ProbeTable κ ν) Slots :=
  fun (⟨slots, length, keying⟩, host) => .ok slots (⟨new, length, keying⟩, host)

section Slots

variable [Element κ] [Element ν]

/-- The alignment of the slots: that of an entry, and at least a cache line. -/
def blockAlign (κ ν : Type) [Element κ] [Element ν] : Nat :=
  if cacheLine < Element.align (Entry κ ν) then Element.align (Entry κ ν) else cacheLine

/-- The content of slot `index`. -/
def entryAt (slots : Slots) (index : Nat) : Except Fault (Entry κ ν) := do
  let offset ← slots.offset index
  return slots.load offset

/-- The hash in slot `index`. -/
@[inline] def hashAt (slots : Slots) (index : Nat) : Except Fault UInt64 :=
  match slots.offset index with
  | .ok offset => .ok (slots.word offset)
  | .error f => .error f

/-- The key in slot `index`. -/
def keyAt (slots : Slots) (index : Nat) : Except Fault κ :=
  match slots.offset index with
  | .ok offset => .ok (slots.load (offset + Entry.keyOffset κ))
  | .error f => .error f

/-- Slot `index`, which has the hash `held`, holds the key. -/
@[inline] def holdsKey (slots : Slots) (keying : Keying κ) (hash held : UInt64) (key : κ)
    (index : Nat) : Except Fault Bool :=
  if held = hash then
    match keyAt slots index with
    | .ok stored => .ok (keying.same stored key)
    | .error f => .error f
  else .ok false

/-- Goes from slot `index` on until a slot holds the key or is empty, over at most `fuel` slots. -/
def probeFrom (slots : Slots) (keying : Keying κ) (hash : UInt64) (key : κ) (mask : Nat) :
    (fuel : Nat) → (index : Nat) → Except Fault Landing
  | 0, _ => .error .endlessProbe
  | fuel + 1, index => do
    let held ← hashAt slots index
    if held = 0 then return .vacant index
    else if ← holdsKey slots keying hash held key index then return .occupied index
    else
      let next ← Word.add index 1
      probeFrom slots keying hash key mask fuel (next &&& mask)

/-- Where the probe for a key ends.  It starts at the home slot of the hash, and never needs to look
at a slot twice. -/
def probe (slots : Slots) (keying : Keying κ) (hash : UInt64) (key : κ) : Except Fault Landing := do
  -- The capacity is a power of two, so the mask takes an index modulo the capacity.
  let mask ← Word.sub slots.capacity 1
  probeFrom slots keying hash key mask slots.capacity (hash.toNat &&& mask)

/-- The slot that holds a key. -/
def find (t : ProbeTable κ ν) (hash : UInt64) (key : κ) : Except Fault (Option Nat) := do
  match ← probe t.slots t.keying hash key with
  | .occupied index => return some index
  | .vacant _ => return none

/-- Stores an entry in slot `index`. -/
def putEntry (index : Nat) (entry : Entry κ ν) : Prog ε Slots Unit := fun slots =>
  match slots.offset index with
  | .ok offset => .ok () (slots.store offset entry)
  | .error f => .error (.fault f) slots

/-- Writes an entry where the probe for its key ends.  A slot that holds the key keeps its key and
answers its value; an empty slot takes the whole entry. -/
def place (keying : Keying κ) (entry : Entry κ ν) : Prog ε Slots (Option ν) := do
  match ← probe (← get) keying entry.hash entry.key with
  | .vacant index =>
    putEntry index entry
    return none
  | .occupied index =>
    let held : Entry κ ν ← entryAt (← get) index
    putEntry index { held with value := entry.value }
    return some held.value

/-- Empties slot `index` and answers what it held. -/
def takeEntry (index : Nat) : Prog ε Slots (Entry κ ν) := do
  let held : Entry κ ν ← entryAt (← get) index
  -- The hash alone marks a slot as empty; key and value stay in memory until it is used again.
  putEntry index { held with hash := 0 }
  return held

/-- Takes out and puts in again every entry from slot `index` to the next empty slot, over at most
`fuel` slots. -/
def settleFrom (keying : Keying κ) (ν : Type) [Element ν] (mask : Nat) :
    (fuel : Nat) → (index : Nat) → Prog ε Slots Unit
  | 0, _ => Prog.crash .endlessProbe
  | fuel + 1, index => do
    let held : Entry κ ν ← entryAt (← get) index
    if held.hash = 0 then return ()
    else
      -- The slot is emptied before the probe, which may then land in it again.
      let _ : Entry κ ν ← takeEntry index
      let _ ← place keying held
      let next ← Word.add index 1
      settleFrom keying ν mask fuel (next &&& mask)

/-- Settles the entries behind a slot that was just emptied. -/
def settle (keying : Keying κ) (ν : Type) [Element ν] (emptied : Nat) : Prog ε Slots Unit := do
  let capacity := (← get).capacity
  let mask ← Word.sub capacity 1
  let next ← Word.add emptied 1
  settleFrom keying ν mask capacity (next &&& mask)

/-- Puts the entries of the given slots into other slots, by their stored hashes. -/
def rehash (keying : Keying κ) (ν : Type) [Element ν] (old : Slots) :
    List Nat → Prog ε Slots Unit
  | [] => pure ()
  | index :: rest => do
    let entry : Entry κ ν ← entryAt old index
    if entry.hash ≠ 0 then
      let _ ← place keying entry
    rehash keying ν old rest

/-- A table without entries. -/
def create (keying : Keying κ) (ν : Type) [Element ν] :
    Prog ContainerError Host (ProbeTable κ ν) := do
  let slots ← Prog.mapError .ofAlloc
    (Slots.cleared (Element.size (Entry κ ν)) (blockAlign κ ν) firstCapacity)
  return ⟨slots, 0, keying⟩

/-- The hash of a key, which must not be 0. -/
def hashOf (t : ProbeTable κ ν) (key : κ) : Except Fault UInt64 :=
  let hash := t.keying.hash key
  if hash ≠ 0 then .ok hash else .error .zeroHash

/-- The slot of a key. -/
def locate (t : ProbeTable κ ν) (key : κ) : Except Fault (Option Nat) := do
  t.find (← t.hashOf key) key

/-- The value of a key. -/
def get (t : ProbeTable κ ν) (key : κ) : Except Fault (Option ν) := do
  match ← t.locate key with
  | none => return none
  | some index =>
    let entry : Entry κ ν ← entryAt t.slots index
    return some entry.value

/-- The table has the key. -/
def contains (t : ProbeTable κ ν) (key : κ) : Except Fault Bool := do
  return (← t.locate key).isSome

/-- Doubles the slots and puts all entries into the new ones.  Where they cannot be allocated, the
slots stay as they are. -/
def grow : Hosted ContainerError (ProbeTable κ ν) Unit := do
  let t ← Hosted.object
  let some doubled := Word.mul? t.capacity 2 | Prog.crash (.tableOverflow t.capacity)
  if ¬ doubled.isPowerOfTwo then Prog.crash (.tableCapacity doubled)
  Hosted.trace fun _ => s!"[ht_expand] - len={t.length}, cap={t.capacity}, new_cap={doubled}"
  let slots ← Hosted.onHost <| Prog.mapError .ofAlloc <|
    Slots.cleared (Element.size (Entry κ ν)) (blockAlign κ ν) doubled
  -- The old slots are only read here, and are given back last.
  let slots ← fun s =>
    match rehash (ε := ContainerError) t.keying ν t.slots (List.range t.capacity) slots with
    | .ok () slots => .ok slots s
    | .error e _ => .error e s
  let old ← exchangeSlots slots
  match old.block with
  | some block => Hosted.onHost block.release
  | none => pure ()

/-- Gives a key a value, and answers the value it had.  A table that is at least half full grows
first; where that fails, nothing changes. -/
def put (key : κ) (value : ν) : Hosted ContainerError (ProbeTable κ ν) (Option ν) := do
  if ← ask (fun t => .ok t.isHalfFull) then grow
  let hash ← ask fun t => Failure.ofChecked (t.hashOf key)
  let keying ← ask fun t => .ok t.keying
  let replaced ← onSlots (place keying ⟨hash, key, value⟩)
  if replaced.isNone then
    let length ← ask fun t => .ok t.length
    setLength (← Word.add length 1)
  return replaced

/-- Takes a key away, and answers the value it had. -/
def erase (key : κ) : Hosted ContainerError (ProbeTable κ ν) (Option ν) := do
  match ← ask (fun t => Failure.ofChecked (t.locate key)) with
  | none => return none
  | some index =>
    let held : Entry κ ν ← onSlots (takeEntry index)
    let length ← ask fun t => .ok t.length
    let length ← Word.sub length 1
    setLength length
    Hosted.trace fun _ => s!"[ht_erase] - slot={index}, len={length}"
    let keying ← ask fun t => .ok t.keying
    onSlots (settle keying ν index)
    return some held.value

/-- Puts a value, or takes the key away if there is none.  Answers the value before. -/
def update (key : κ) : Option ν → Hosted ContainerError (ProbeTable κ ν) (Option ν)
  | some value => put key value
  | none => erase key

/-- The entries of the given slots that are not empty. -/
def entriesAt (slots : Slots) (indices : List Nat) : Except Fault (List (Entry κ ν)) := do
  let entries : List (Entry κ ν) ← indices.mapM (entryAt slots)
  return entries.filter fun e => !e.isEmpty

/-- Keys and values in the order of the slots. -/
def toList (t : ProbeTable κ ν) : Except Fault (List (κ × ν)) := do
  let entries : List (Entry κ ν) ← entriesAt t.slots (List.range t.capacity)
  return entries.map fun e => (e.key, e.value)

/-- Visits keys and values in the order of the slots. -/
def each (t : ProbeTable κ ν) (visitor : κ → ν → Prog ε σ Unit) : Prog ε σ Unit :=
  Walk.visit (entryAt t.slots)
    (fun _ (e : Entry κ ν) => if e.hash ≠ 0 then visitor e.key e.value else pure ())
    (Walk.forward t.capacity)

/-- Keys and values as an outline. -/
def outline [Outlined κ] [Outlined ν] (t : ProbeTable κ ν) : Except Fault Outline := do
  return .map ((← t.toList).map fun p => (Outlined.outline p.1, Outlined.outline p.2))

end Slots

/-- Gives the storage back. -/
def drop : Hosted ContainerError (ProbeTable κ ν) Unit := fun (⟨slots, length, keying⟩, host) =>
  match Slots.release (slots, host) with
  | .ok () (slots, host) => .ok () (⟨slots, length, keying⟩, host)
  | .error e (slots, host) => .error e (⟨slots, length, keying⟩, host)

end ProbeTable

end AlignedSlots
