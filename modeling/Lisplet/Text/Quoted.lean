import Lisplet.Text.Printable

/-!
# Quoted text

The form in which messages quote characters and texts.  The quote is `'`, or `"` if the text has a
`'` and no `"`.  A backslash and the quote in use get a backslash; line feed, carriage return and
tab are written `\n`, `\r`, `\t`; any other character that cannot be printed is written by its code
point in lower-case hexadecimal, in the shortest of the widths two (`\x`), four (`\u`) and
eight (`\U`).
-/

namespace Lisplet.Text

/-- the lower-case hexadecimal digit of a number below sixteen -/
def hexDigit (n : Nat) : Char := if n < 10 then Char.ofNat (n + 48) else Char.ofNat (n + 87)

/-- `width` hexadecimal digits of `n`, the leading ones zero if need be -/
def hex : (width : Nat) → (n : Nat) → List Char
  | 0, _ => []
  | w + 1, n => hex w (n / 16) ++ [hexDigit (n % 16)]

/-- a code point in the shortest numbered form -/
def numbered (n : Nat) : List Char :=
  if n < 0x100 then '\\' :: 'x' :: hex 2 n
  else if n < 0x10000 then '\\' :: 'u' :: hex 4 n
  else '\\' :: 'U' :: hex 8 n

/-- the quote in use for a text -/
def quoteFor (cs : List Char) : Char :=
  if cs.contains '\'' && !cs.contains '"' then '"' else '\''

def quotedChar (q c : Char) : List Char :=
  if c = q ∨ c = '\\' then ['\\', c]
  else if c = '\n' then ['\\', 'n']
  else if c = '\r' then ['\\', 'r']
  else if c = '\t' then ['\\', 't']
  else if isPrintable c then [c]
  else numbered c.toNat

def quoted (s : String) : String :=
  let q := quoteFor s.toList
  String.ofList (q :: s.toList.flatMap (quotedChar q) ++ [q])

def quotedOne (c : Char) : String := quoted (String.singleton c)

end Lisplet.Text
