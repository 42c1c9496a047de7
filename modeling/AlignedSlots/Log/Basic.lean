import AlignedSlots.Failure
import AlignedSlots.Log.Level

/-!
# The log

A log has a greatest level and the lines written so far.  The level is kept as a byte, and decoded
whenever it is asked for.  A call at a level writes its line only if the log admits the level, and evaluates
its argument only then; so an argument is a computation (`StateM ν String`), and whether it ran can be seen
in the state `ν`.
-/

namespace AlignedSlots

/-- The byte of the greatest level that is written, and the lines written so far. -/
structure Log where
  code : UInt8 := Level.default.code
  lines : Array String := #[]
  deriving Repr, Inhabited

namespace Log

/-- The greatest level that is written. -/
def ceiling (log : Log) : Level := .ofCode log.code

/-- Lines of this level are written.  Nothing is ever written at `off`. -/
def admits (log : Log) (level : Level) : Bool :=
  decide (level ≠ .off) && decide (level ≤ log.ceiling)

/-- A line: the level in brackets and the text. -/
def format (level : Level) (text : String) : String :=
  "[" ++ level.word ++ "] " ++ text

/-- Writes a line whatever the greatest level is. -/
def write (log : Log) (level : Level) (text : String) : Log :=
  { log with lines := log.lines.push (format level text) }

/-- Writes a line if the log admits its level. -/
def record (log : Log) (level : Level) (text : Unit → String) : Log :=
  if log.admits level then log.write level (text ()) else log

/-- Sets the greatest level. -/
def withCeiling (log : Log) (level : Level) : Log :=
  { log with code := level.code }

/-- Lines as they are printed, each with its end. -/
def print (lines : Array String) : String :=
  lines.foldl (fun text line => text ++ line ++ "\n") ""

variable {ε ν : Type}

/-- A log call: evaluates its argument and writes its line if the log admits its level, and does nothing
elsewhere. -/
def call (level : Level) (argument : StateM ν String) : Prog ε (Log × ν) Unit := fun (log, n) =>
  if log.admits level then
    let (text, n) := argument.run n
    .ok () (log.write level text, n)
  else
    .ok () (log, n)

/-- An assertion: where the condition fails it evaluates its message and faults with it.  It writes no
line. -/
def assert (condition : Bool) (message : StateM ν String) : Prog ε (Log × ν) Unit := fun (log, n) =>
  if condition then
    .ok () (log, n)
  else
    let (text, n) := message.run n
    .error (.fault (.assertion text)) (log, n)

end Log

end AlignedSlots
