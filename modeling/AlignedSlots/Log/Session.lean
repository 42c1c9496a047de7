import AlignedSlots.Log.Basic

/-!
# Log sessions

The steps that a user of the log can take, one value each, and what each of them answers.  An argument is
any computation on the state `ν` that a user shares with the log; `counted` is one that counts how often it
is evaluated.
-/

namespace AlignedSlots

/-- One use of the log. -/
inductive LogStep (ν : Type) where
  /-- Sets the greatest level. -/
  | setCeiling (level : Level)
  /-- Asks for the greatest level. -/
  | ceiling
  /-- Asks whether a level is written. -/
  | admits (level : Level)
  /-- A log call. -/
  | call (level : Level) (argument : StateM ν String)
  /-- Writes a line whatever the greatest level is. -/
  | force (level : Level) (text : String)
  /-- An assertion. -/
  | assert (condition : Bool) (message : StateM ν String)

/-- What a step answers. -/
inductive LogAnswer where
  | level (level : Level)
  | flag (value : Bool)
  | done
  deriving DecidableEq, Repr

namespace LogStep

variable {ν : Type}

/-- A log call at the level `error`. -/
def error (argument : StateM ν String) : LogStep ν := .call .error argument

/-- A log call at the level `warn`. -/
def warn (argument : StateM ν String) : LogStep ν := .call .warn argument

/-- A log call at the level `info`. -/
def info (argument : StateM ν String) : LogStep ν := .call .info argument

/-- A log call at the level `debug`. -/
def debug (argument : StateM ν String) : LogStep ν := .call .debug argument

/-- A log call at the level `trace`. -/
def trace (argument : StateM ν String) : LogStep ν := .call .trace argument

/-- Takes a step. -/
def run : LogStep ν → Prog Empty (Log × ν) LogAnswer
  | .setCeiling level => fun (log, n) => .ok .done (log.withCeiling level, n)
  | .ceiling => fun (log, n) => .ok (.level log.ceiling) (log, n)
  | .admits level => fun (log, n) => .ok (.flag (log.admits level)) (log, n)
  | .force level text => fun (log, n) => .ok .done (log.write level text, n)
  | .call level argument => (fun _ => .done) <$> Log.call level argument
  | .assert condition message => (fun _ => .done) <$> Log.assert condition message

/-- A text whose evaluation is counted. -/
def counted (text : String) : StateM Nat String := do
  modify (· + 1)
  return text

/-- Takes a step, and answers how often its argument was evaluated, too. -/
def watched (step : LogStep Nat) : Prog Empty (Log × Nat) (LogAnswer × Nat) := do
  let (_, before) ← get
  let answer ← step.run
  let (_, after) ← get
  return (answer, after - before)

end LogStep

end AlignedSlots
