import DocLayout.Text.Printable

/-! # Quoted texts

The form in which messages and written documents show a text.

* **Quotes.**  A text stands between apostrophes, or between quotation marks if it holds an
  apostrophe and no quotation mark.
* **Escapes.**  A backslash and the quote in use take a backslash; a tab, a line feed and a
  carriage return are `\t`, `\n` and `\r`; every other code point that may not be shown is
  written with two, four or eight lower-case hexadecimal digits, whichever suffice first.
* **Bytes.**  A byte string is quoted in the same way behind a `b`; it shows visible ASCII only. -/

namespace DocLayout.Quoted

/-- The last `count` hexadecimal digits of `n`. -/
def hexDigits : Nat → Nat → List Char
  | 0, _ => []
  | count + 1, n => hexDigits count (n / 16) ++ [Nat.digitChar (n % 16)]

@[simp] theorem length_hexDigits (count n : Nat) : (hexDigits count n).length = count := by
  induction count generalizing n with
  | zero => rfl
  | succ count ih => simp [hexDigits, ih]

/-- A code point written by its number. -/
def numeric (p : CodePoint) : List Char :=
  if p.val < 0x100 then '\\' :: 'x' :: hexDigits 2 p.val
  else if p.val < 0x10000 then '\\' :: 'u' :: hexDigits 4 p.val
  else '\\' :: 'U' :: hexDigits 8 p.val

/-- The quote around a text. -/
def quoteFor (t : Text) : Char :=
  if t.contains (CodePoint.ofChar '\'') && !t.contains (CodePoint.ofChar '"') then '"' else '\''

/-- A code point between two quotes; `shows` tells which ones may stand as they are. -/
def encodeOne (shows : CodePoint → Bool) (quote : Char) (p : CodePoint) : List Char :=
  match p.toChar? with
  | none => numeric p
  | some c =>
    if c = quote ∨ c = '\\' then ['\\', c]
    else if c = '\t' then ['\\', 't']
    else if c = '\n' then ['\\', 'n']
    else if c = '\r' then ['\\', 'r']
    else if shows p then [c]
    else numeric p

/-- A text between its quotes. -/
def encode (shows : CodePoint → Bool) (t : Text) : List Char :=
  quoteFor t :: (t.flatMap (encodeOne shows (quoteFor t)) ++ [quoteFor t])

/-- Whether the code point is visible ASCII or the space. -/
def isVisibleAscii (p : CodePoint) : Bool := decide (0x20 ≤ p.val) && decide (p.val ≤ 0x7E)

/-- A quoted text. -/
def text (t : Text) : String := String.ofList (encode CodePoint.isPrintable t)

/-- The code point whose number is a byte. -/
def ofByte (b : UInt8) : CodePoint := ⟨b.toNat, Nat.lt_trans b.toNat_lt (by decide)⟩

/-- A quoted byte string. -/
def bytes (bs : List UInt8) : String :=
  String.ofList ('b' :: encode isVisibleAscii (bs.map ofByte))

end DocLayout.Quoted
