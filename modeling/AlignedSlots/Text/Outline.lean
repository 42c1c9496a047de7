/-!
# Outlines

The structure of a value as it is shown to a reader: single words, lists, tuples, records and maps.  An
outline is written on one line, or laid out over several lines with four blanks of indentation for
each level and a comma after every part.
-/

namespace AlignedSlots

/-- The structure of a value as it is shown to a reader. -/
inductive Outline where
  /-- A text that stands for itself. -/
  | word (text : String)
  /-- Parts in square brackets. -/
  | list (parts : List Outline)
  /-- Parts in parentheses, after a name that may be empty. -/
  | tuple (name : String) (parts : List Outline)
  /-- Named fields in braces, after the name of the record. -/
  | record (name : String) (fields : List (String × Outline))
  /-- Keys and values in braces. -/
  | map (entries : List (Outline × Outline))

namespace Outline

/-- What stands before, between and after the parts of an outline. -/
structure Layout where
  /-- After the opening bracket and before the closing one. -/
  inside : String
  /-- After the opening brace of a record and before the closing one. -/
  insideRecord : String
  /-- Between two parts. -/
  between : String
  /-- After the last part. -/
  last : String
  /-- Moves the lines of a part to the right. -/
  indent : String → String

/-- Everything on one line. -/
def oneLine : Layout :=
  { inside := "", insideRecord := " ", between := ", ", last := "", indent := id }

/-- A line for every part. -/
def manyLines : Layout :=
  { inside := "\n", insideRecord := "\n", between := ",\n", last := ",\n",
    indent := fun text =>
      "    " ++ String.ofList (text.toList.flatMap fun c =>
        if c = '\n' then "\n    ".toList else [c]) }

/-- Parts between two brackets.  Without parts only the brackets are left. -/
def bracket (layout : Layout) (inside opening closing : String) (parts : List String) : String :=
  match parts with
  | [] => opening ++ closing
  | parts =>
    let body := layout.between.intercalate (parts.map layout.indent)
    let last := if layout.last.isEmpty then inside else layout.last
    opening ++ inside ++ body ++ last ++ closing

mutual

/-- The text of an outline in a layout. -/
def render (layout : Layout) : Outline → String
  | word text => text
  | list parts => bracket layout layout.inside "[" "]" (renderAll layout parts)
  | tuple name parts => name ++ bracket layout layout.inside "(" ")" (renderAll layout parts)
  | record name fields =>
      name ++ " " ++ bracket layout layout.insideRecord "\x7b" "\x7d" (renderFields layout fields)
  | map entries => bracket layout layout.inside "\x7b" "\x7d" (renderEntries layout entries)

/-- The texts of several outlines. -/
def renderAll (layout : Layout) : List Outline → List String
  | [] => []
  | o :: os => render layout o :: renderAll layout os

/-- The texts of named fields. -/
def renderFields (layout : Layout) : List (String × Outline) → List String
  | [] => []
  | (name, o) :: fields => (name ++ ": " ++ render layout o) :: renderFields layout fields

/-- The texts of keys with their values. -/
def renderEntries (layout : Layout) : List (Outline × Outline) → List String
  | [] => []
  | (key, value) :: entries =>
      (render layout key ++ ": " ++ render layout value) :: renderEntries layout entries

end

/-- The text of an outline on one line. -/
def line (o : Outline) : String := render oneLine o

/-- The text of an outline over several lines. -/
def lines (o : Outline) : String := render manyLines o

end Outline

end AlignedSlots
