import MessageTemplate.Text.CharClass

/-! # Characters quoted in messages

A message that names a character shows it between single quotes. Control characters, separators,
combining marks and characters without a shape of their own are shown by their code point.

The only characters that messages name are those that cannot start a name, so the table lists the
invisible characters between the ranges of name characters.
-/

namespace MessageTemplate

/-- Characters that cannot start a name and have no printed form of their own: controls, formats,
separators, combining marks, private-use, unassigned and noncharacter code points. -/
def CharClass.unprinted : CharClass where
  ranges := [
    (0x00, 0x1F), (0x7F, 0xA0), (0xAD, 0xAD), (0x300, 0x36F), (0x2000, 0x200F),
    (0x2028, 0x202F), (0x205F, 0x206F), (0x242A, 0x243F), (0x244B, 0x245F), (0x2B74, 0x2B75),
    (0x3000, 0x3000), (0xE000, 0xF8FF), (0xFDD0, 0xFDEF), (0xFFFE, 0xFFFF),
    (0xF0000, 0x10FFFF)]

/-- The inside of a quoted character: a few controls have a short escape, a character without a
printed form is given by its code point, and any other stands for itself. -/
def charText (c : Char) : String :=
  if c = '\t' then "\\t"
  else if c = '\n' then "\\n"
  else if c = '\r' then "\\r"
  else if c = '\x00' then "\\0"
  else if c = '\'' || c = '\\' then String.ofList ['\\', c]
  else if CharClass.unprinted.contains c then
    "\\u\x7b" ++ String.ofList (Nat.toDigits 16 c.toNat) ++ "\x7d"
  else c.toString

/-- A character between single quotes, as the texts of errors show it. -/
def quoteChar (c : Char) : String := "'" ++ charText c ++ "'"

end MessageTemplate
