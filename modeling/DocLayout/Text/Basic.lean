/-! # Texts as sequences of code points

A text is a list of Unicode code points.  Surrogates are code points like any other: they may
stand alone, and two of them that stand next to each other stay two code points.

* **Width.**  `Text.byteWidth` is the number of bytes of the UTF-8 encoding, in which every
  surrogate takes three bytes.  It is additive over concatenation (`Text.byteWidth_append`).
* **Newlines.**  `Text.newline n` is a line feed followed by `n` spaces. -/

namespace DocLayout

/-- A Unicode code point, surrogates included. -/
abbrev CodePoint := Fin 0x110000

namespace CodePoint

/-- The code point of a character. -/
def ofChar (c : Char) : CodePoint :=
  ⟨c.toNat, by
    rcases c.valid with h | ⟨_, h⟩
    · exact Nat.lt_trans h (by decide)
    · exact h⟩

/-- The character at a code point; a surrogate has none. -/
def toChar? (p : CodePoint) : Option Char :=
  if h : p.val.isValidChar then some (Char.ofNatAux p.val h) else none

/-- The line feed. -/
def lineFeed : CodePoint := 0x0A

/-- The space. -/
def space : CodePoint := 0x20

/-- Number of bytes of the UTF-8 form of a code point. -/
def byteWidth (p : CodePoint) : Nat :=
  if p.val < 0x80 then 1
  else if p.val < 0x800 then 2
  else if p.val < 0x10000 then 3
  else 4

@[simp] theorem byteWidth_space : byteWidth space = 1 := rfl

end CodePoint

/-- A text: a sequence of code points. -/
abbrev Text := List CodePoint

namespace Text

/-- The code points of a string. -/
def ofString (s : String) : Text := s.toList.map CodePoint.ofChar

/-- Number of bytes of the UTF-8 form. -/
def byteWidth : Text → Nat
  | [] => 0
  | p :: t => p.byteWidth + byteWidth t

@[simp] theorem byteWidth_nil : byteWidth [] = 0 := rfl

@[simp] theorem byteWidth_cons (p : CodePoint) (t : Text) :
    byteWidth (p :: t) = p.byteWidth + byteWidth t := rfl

@[simp] theorem byteWidth_append (s t : Text) :
    byteWidth (s ++ t) = byteWidth s + byteWidth t := by
  induction s with
  | nil => simp
  | cons p s ih => simp [ih, Nat.add_assoc]

/-- `n` spaces. -/
def spaces (n : Nat) : Text := List.replicate n CodePoint.space

@[simp] theorem byteWidth_spaces (n : Nat) : byteWidth (spaces n) = n := by
  induction n with
  | zero => rfl
  | succ n ih =>
    rw [spaces, List.replicate_succ, byteWidth_cons, ← spaces, ih]
    simp [Nat.add_comm]

/-- A line feed followed by `n` spaces. -/
def newline (n : Nat) : Text := CodePoint.lineFeed :: spaces n

theorem newline_ne_nil (n : Nat) : newline n ≠ [] := by simp [newline]

/-- A single space. -/
def blank : Text := [CodePoint.space]

/-- A comma. -/
def comma : Text := [0x2C]

/-- The code points, each as a text of its own. -/
def singletons (t : Text) : List Text := t.map fun p => [p]

end Text

end DocLayout
