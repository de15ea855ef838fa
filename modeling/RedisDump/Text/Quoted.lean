import RedisDump.Bytes
import RedisDump.Text.Printable

/-!
# Quoted texts

Messages and descriptions show a byte string as `b'...'` and a text as `'...'`. The quotation
mark is an apostrophe unless the content holds an apostrophe and no double quote. The backslash
and the mark in use get a backslash before them, tabs and line ends have their short escapes,
and any other character outside the printable ones is written by its number.
-/

namespace RedisDump.Text

/-- The apostrophe. -/
def apostrophe : Char := Char.ofNat 0x27

/-- The double quote. -/
def doubleQuote : Char := Char.ofNat 0x22

/-- The backslash. -/
def backslash : Char := Char.ofNat 0x5C

/-- The quotation mark that surrounds a content. -/
def quotationMark (content : List Char) : Char :=
  if content.contains apostrophe && !content.contains doubleQuote then doubleQuote
  else apostrophe

/-- A number in lower-case hexadecimal digits, with zeros in front up to `width` digits. -/
def hexDigits (width n : Nat) : List Char :=
  let digits := Nat.toDigits 16 n
  List.replicate (width - digits.length) '0' ++ digits

/-- A character written by its number, in as few of two, four or eight digits as hold it. -/
def numericEscape (c : Char) : List Char :=
  let n := c.toNat
  if n < 0x100 then backslash :: 'x' :: hexDigits 2 n
  else if n < 0x10000 then backslash :: 'u' :: hexDigits 4 n
  else backslash :: 'U' :: hexDigits 8 n

/-- A character as it stands between two marks. -/
def escaped (printable : Char → Bool) (mark c : Char) : List Char :=
  if c == mark || c == backslash then [backslash, c]
  else if c.toNat == 0x09 then [backslash, 't']
  else if c.toNat == 0x0A then [backslash, 'n']
  else if c.toNat == 0x0D then [backslash, 'r']
  else if printable c then [c]
  else numericEscape c

/-- A content between quotation marks. -/
def quotedChars (printable : Char → Bool) (content : List Char) : List Char :=
  let mark := quotationMark content
  mark :: content.flatMap (escaped printable mark) ++ [mark]

/-- A text between quotation marks. -/
def quoted (text : String) : String :=
  String.ofList (quotedChars isPrintable text.toList)

/-- The printable characters of ASCII, the space among them. -/
def isPrintableAscii (c : Char) : Bool :=
  0x20 ≤ c.toNat && c.toNat < 0x7F

/-- A byte string between quotation marks, after the letter that tells it from a text. -/
def quotedBytes (bs : Bytes) : String :=
  String.ofList ('b' :: quotedChars isPrintableAscii (bs.map fun b => Char.ofNat b.toNat))

/-- A list of quoted byte strings between square brackets. -/
def quotedList (values : List Bytes) : String :=
  "[" ++ ", ".intercalate (values.map quotedBytes) ++ "]"

end RedisDump.Text
