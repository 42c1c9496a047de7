import AlignedSlots.Text.Blank
import AlignedSlots.Text.GraphemeExtend
import AlignedSlots.Text.Ignorable
import AlignedSlots.Text.Unprintable

/-!
# Quoted text

A character in single quotes and a text in double quotes.  A backslash stands before the quote in use
and before a backslash, four controls have short forms, and a character that would not be seen on its
own is written as its code point in hexadecimal.
-/

namespace AlignedSlots

namespace Quoted

/-- The voiced and the semi-voiced sound mark of half-width Katakana.  They extend the character before
them, but stand in a cell of their own. -/
def isSoundMark (c : Char) : Bool := c.toNat == 0xFF9E || c.toNat == 0xFF9F

/-- A character that would not be seen on its own. -/
def isHidden (c : Char) : Bool :=
  (extendsGrapheme c && !isSoundMark c) || isUnprintable c || isIgnorable c

/-- The space is the only blank that is written as it is. -/
theorem isHidden_of_isBlank {c : Char} (blank : isBlank c = true) (space : c ≠ ' ') :
    isHidden c = true := by
  have codes : ∀ n ∈ blankCodes, n ≠ 0x20 → inRanges unprintableRanges n = true := by
    decide +kernel
  have code : c.toNat ≠ 0x20 := fun h => space (Char.toNat_inj.mp h)
  have unprintable : isUnprintable c = true := codes c.toNat (List.contains_iff_mem.mp blank) code
  simp [isHidden, unprintable]

/-- The code point of a character between braces. -/
def codePoint (c : Char) : List Char :=
  "\\u\x7b".toList ++ Nat.toDigits 16 c.toNat ++ ['\x7d']

/-- One character between quotes of the kind `quote`. -/
def escape (quote : Char) (c : Char) : List Char :=
  if c = Char.ofNat 0 then "\\0".toList
  else if c = '\t' then "\\t".toList
  else if c = '\r' then "\\r".toList
  else if c = '\n' then "\\n".toList
  else if c = quote || c = '\\' then ['\\', c]
  else if isHidden c then codePoint c
  else [c]

/-- A character in single quotes. -/
def char (c : Char) : String :=
  String.ofList ('\x27' :: escape '\x27' c ++ ['\x27'])

/-- A text in double quotes. -/
def string (text : String) : String :=
  String.ofList ('"' :: text.toList.flatMap (escape '"') ++ ['"'])

end Quoted

end AlignedSlots
