import System370.Text.Printable

/-!
# Quoted text in messages

Messages show a text between double quotes and a single character between
apostrophes.  Printable characters stand for themselves, the quote in use and
the backslash get a backslash in front, the usual controls have letters of
their own, and everything else is written by its number: two hexadecimal digits
for ASCII controls and stray octets, four or eight for other characters.
-/

namespace System370

namespace Quoted

/-- A number in small hexadecimal with at least `width` digits. -/
def hexDigits (width n : Nat) : Bytes := Bytes.padLeft width 0x30 (digits 16 n)

/-- One character between quotes of the kind `mark`. -/
def escape (mark : UInt8) (code : Nat) : Bytes :=
  if code = mark.toNat then [octet '\\', mark]
  else if code = 0x5C then bytes "\\\\"
  else if isPrintable code then Utf8.encode code
  else if code = 0x07 then bytes "\\a"
  else if code = 0x08 then bytes "\\b"
  else if code = 0x0C then bytes "\\f"
  else if code = 0x0A then bytes "\\n"
  else if code = 0x0D then bytes "\\r"
  else if code = 0x09 then bytes "\\t"
  else if code = 0x0B then bytes "\\v"
  else if code < 0x20 ∨ code = 0x7F then bytes "\\x" ++ hexDigits 2 code
  else if code < 0x10000 then bytes "\\u" ++ hexDigits 4 code
  else bytes "\\U" ++ hexDigits 8 code

/-- One character of a quoted text. -/
def escapeCharacter (r : Character) : Bytes :=
  if Utf8.isStray r then
    bytes "\\x" ++ r.spelling.flatMap fun b => hexDigits 2 b.toNat
  else escape 0x22 r.code

end Quoted

/-- A text between double quotes. -/
def quoted (text : Bytes) : Bytes :=
  [0x22] ++ (Utf8.decode text).flatMap Quoted.escapeCharacter ++ [0x22]

/-- A character between apostrophes. -/
def quotedCharacter (code : Nat) : Bytes :=
  [quote] ++ Quoted.escape quote code ++ [quote]

end System370
