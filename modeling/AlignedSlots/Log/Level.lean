import AlignedSlots.Text.Blank

/-!
# Log levels

Six levels, from silence to the most verbose.  A level is read from text: blanks at the ends are
dropped, the case of ASCII letters does not matter, and two levels have a second word.
-/

namespace AlignedSlots

/-- How verbose a line is, and the most verbose line that is written. -/
inductive Level where
  | off
  | error
  | warn
  | info
  | debug
  | trace
  deriving DecidableEq, Repr, Inhabited

namespace Level

/-- All levels, from silence to the most verbose. -/
def all : List Level := [off, error, warn, info, debug, trace]

/-- The place of a level in that order. -/
def rank : Level → Nat
  | off => 0
  | error => 1
  | warn => 2
  | info => 3
  | debug => 4
  | trace => 5

instance : LE Level := ⟨fun a b => a.rank ≤ b.rank⟩

instance (a b : Level) : Decidable (a ≤ b) := inferInstanceAs (Decidable (a.rank ≤ b.rank))

instance : Ord Level := ⟨fun a b => compare a.rank b.rank⟩

instance : Max Level := ⟨fun a b => if a ≤ b then b else a⟩

/-- The word for a level, as it stands in log lines. -/
def word : Level → String
  | off => "off"
  | error => "error"
  | warn => "warn"
  | info => "info"
  | debug => "debug"
  | trace => "trace"

/-- The name of a level. -/
def name : Level → String
  | off => "Off"
  | error => "Error"
  | warn => "Warn"
  | info => "Info"
  | debug => "Debug"
  | trace => "Trace"

/-- The words that are read as a level. -/
def words : List (String × Level) :=
  [("off", off), ("none", off), ("error", error), ("warn", warn), ("warning", warn),
   ("info", info), ("debug", debug), ("trace", trace)]

/-- The level of a word in lower case. -/
def ofWord? (cs : List Char) : Option Level :=
  (words.find? (fun w => w.1.toList == cs)).map Prod.snd

/-- A text that is no level. -/
structure Unknown where
  text : String
  deriving DecidableEq, Repr

/-- The message holds the text as it was given. -/
def Unknown.message (e : Unknown) : String := "unknown log level `" ++ e.text ++ "`"

/-- Reads a level.  `Char.toLower` changes ASCII letters only. -/
def parse (text : String) : Except Unknown Level :=
  match ofWord? ((trimBlank text.toList).map Char.toLower) with
  | some level => .ok level
  | none => .error ⟨text⟩

/-- The level in force before one is set. -/
def default : Level := warn

/-- The byte that stands for a level. -/
def code : Level → UInt8
  | off => 0
  | error => 1
  | warn => 2
  | info => 3
  | debug => 4
  | trace => 5

/-- The level that a byte stands for.  All bytes past the codes stand for `trace`. -/
def ofCode (byte : UInt8) : Level :=
  match byte with
  | 0 => off
  | 1 => error
  | 2 => warn
  | 3 => info
  | 4 => debug
  | _ => trace

/-- The name of the setting that chooses the first level. -/
def settingName : String := "ACOL_LOG"

/-- The level that a setting chooses: the default where it is absent or no level. -/
def ofSetting (value : Option String) : Level :=
  match value with
  | none => default
  | some text =>
    match parse text with
    | .ok level => level
    | .error _ => default

end Level

end AlignedSlots
