import AlignedSlots.Container.Buffer
import AlignedSlots.Container.Entry
import AlignedSlots.Container.Keying
import AlignedSlots.Container.ProbeLaws
import AlignedSlots.Container.ProbeTable
import AlignedSlots.Container.Recorder
import AlignedSlots.Container.Sequence
import AlignedSlots.Container.SlotLaws
import AlignedSlots.Container.Slots
import AlignedSlots.Container.StaticArray
import AlignedSlots.Container.Walk
import AlignedSlots.Decimal.Binary32
import AlignedSlots.Decimal.Shortest
import AlignedSlots.Element.Basic
import AlignedSlots.Element.Compound
import AlignedSlots.Element.Lawful
import AlignedSlots.Element.Scalars
import AlignedSlots.Failure
import AlignedSlots.FixedInt
import AlignedSlots.Growth
import AlignedSlots.Hash.Digest
import AlignedSlots.Hash.Fnv
import AlignedSlots.Hash.Sip
import AlignedSlots.Host
import AlignedSlots.Log.Basic
import AlignedSlots.Log.Level
import AlignedSlots.Log.Session
import AlignedSlots.Memory.Arena
import AlignedSlots.Memory.Cell
import AlignedSlots.Memory.Heap
import AlignedSlots.Memory.Metered
import AlignedSlots.Memory.MeteredSession
import AlignedSlots.Memory.Parcel
import AlignedSlots.Memory.Placement
import AlignedSlots.Memory.Shelf
import AlignedSlots.Text.Blank
import AlignedSlots.Text.CodeRange
import AlignedSlots.Text.GraphemeExtend
import AlignedSlots.Text.Ignorable
import AlignedSlots.Text.Outline
import AlignedSlots.Text.Quoted
import AlignedSlots.Text.Unprintable
import AlignedSlots.Word
import AlignedSlots.Proofs.Memory.CellLaws
import AlignedSlots.Proofs.Memory.Placing
import AlignedSlots.Proofs.Container.SlotStorage
import AlignedSlots.Proofs.Probe.Row
import AlignedSlots.Proofs.Probe.Settling
import AlignedSlots.Proofs.Probe.Rehashing
import AlignedSlots.Proofs.Container.TableSlots
import AlignedSlots.Proofs.Container.TableLaws
import AlignedSlots.Proofs.Container.TableSteps
import AlignedSlots.Proofs.Container.TableSessions
import AlignedSlots.Proofs.Memory.ShelfLaws
import AlignedSlots.Proofs.Memory.ShelfSessions
import AlignedSlots.Proofs.Container.WalkLaws
import AlignedSlots.Proofs.Container.SequenceLaws
import AlignedSlots.Proofs.Container.SequenceSteps
import AlignedSlots.Proofs.Container.SequenceSessions
import AlignedSlots.Proofs.Probe.Occupied
import AlignedSlots.Proofs.Container.TableOccupancy
import AlignedSlots.Proofs.Container.SlotFilling
import AlignedSlots.Proofs.Container.BufferInvariant
import AlignedSlots.Proofs.Container.BufferLaws
import AlignedSlots.Proofs.Container.VisitorState
import AlignedSlots.Proofs.Container.BufferSteps
import AlignedSlots.Proofs.Container.BufferSessions
import AlignedSlots.Proofs.Container.SlotOwnership
import AlignedSlots.Proofs.Container.Lifecycle
import AlignedSlots.Proofs.Container.SequenceCalls
import AlignedSlots.Proofs.Container.BufferCalls
import AlignedSlots.Proofs.Container.ArrayLaws
import AlignedSlots.Proofs.Container.ArrayCalls
import AlignedSlots.Proofs.Container.TableCalls
import AlignedSlots.Proofs.Memory.ArenaLaws
import AlignedSlots.Proofs.Memory.ArenaCalls
import AlignedSlots.Proofs.Container.Safety
import AlignedSlots.Proofs.Memory.ArenaSessions
import AlignedSlots.Proofs.Memory.MeterLaws
import AlignedSlots.Proofs.Memory.MeterSteps
import AlignedSlots.Proofs.Memory.MeterAccount
import AlignedSlots.Proofs.Log.Blind
import AlignedSlots.Proofs.Log.BlindOperations
import AlignedSlots.Proofs.Log.BlindCalls
import AlignedSlots.Proofs.Log.Independence
import AlignedSlots.Proofs.Container.SlotBytes
import AlignedSlots.Proofs.Container.ByteFrames
import AlignedSlots.Proofs.Container.SlotLayout
import AlignedSlots.Proofs.Probe.Runs
import AlignedSlots.Proofs.Probe.Tightening
import AlignedSlots.Proofs.Container.TableReach
import AlignedSlots.Proofs.Container.TableTermination
import AlignedSlots.Proofs.Container.TableErasure
import AlignedSlots.Proofs.Container.TableRefusals
import AlignedSlots.Proofs.Memory.Carving
import AlignedSlots.Proofs.Memory.Resizing
import AlignedSlots.Proofs.Container.ReserveOutcome
import AlignedSlots.Proofs.Container.TableGrowth
import AlignedSlots.Proofs.Container.SequenceRoom
import AlignedSlots.Proofs.Container.SequenceGrowth
import AlignedSlots.Proofs.Memory.ArenaBytes
import AlignedSlots.Proofs.Container.ArrayRows
import AlignedSlots.Proofs.Container.ArraySessions
import AlignedSlots.Proofs.Arithmetic.GrowthPolicy
import AlignedSlots.Proofs.Arithmetic.LeastMultiple
import AlignedSlots.Proofs.Hash.Absorption
import AlignedSlots.Proofs.Container.WalkCalls
import AlignedSlots.Proofs.Container.WalkOrder
import AlignedSlots.Proofs.Container.ProbePaths
import AlignedSlots.Proofs.Hash.LowBits
import AlignedSlots.Proofs.Container.TableClusters
import AlignedSlots.Proofs.Log.LevelGrammar
import AlignedSlots.Proofs.Log.Filtering
