import DocLayout.Text.Quoted
import Mathlib.Algebra.Group.Nat.Defs
import Mathlib.Tactic.SplitIfs

/-! # Quoted texts can be told apart

What is written for a value is `Legible` if the characters at the front of a row tell which value
they stand for and where they end, whatever follows them.

* **Numbers.**  As many hexadecimal digits as suffice tell a number (`Quoted.hexDigits_inj`).
* **Code points.**  Between quotes a code point stands for itself, or behind a backslash as a letter
  or as a row of digits (`Quoted.Encodes`).  The first character behind a backslash tells which of
  these it is, so that a code point is legible (`Quoted.legible_encodeOne`); and none starts with
  the quote (`Quoted.encodeOne_append_ne`).
* **Texts.**  So a text ends with the first quote that does not belong to a code point, and is
  legible (`Quoted.legible_encode`). -/

namespace DocLayout

/-- What is written at the front of a row of characters tells the value that it stands for, and
where it ends. -/
def Legible {α : Type} (write : α → List Char) : Prop :=
  ∀ ⦃a b : α⦄ ⦃s t : List Char⦄, write a ++ s = write b ++ t → a = b ∧ s = t

theorem CodePoint.toNat_of_toChar? {p : CodePoint} {c : Char} (h : p.toChar? = some c) :
    c.toNat = p.val := by
  unfold toChar? at h
  by_cases hvalid : p.val.isValidChar
  · rw [dif_pos hvalid] at h
    obtain rfl := Option.some.inj h
    rfl
  · rw [dif_neg hvalid] at h
    cases h

theorem CodePoint.eq_of_toChar? {p p' : CodePoint} {c : Char} (h : p.toChar? = some c)
    (h' : p'.toChar? = some c) : p = p' :=
  Fin.ext ((toNat_of_toChar? h).symm.trans (toNat_of_toChar? h'))

namespace Quoted

/-! ### Numbers -/

theorem digitChar_inj : ∀ m < 16, ∀ n < 16, Nat.digitChar m = Nat.digitChar n → m = n := by
  decide

theorem hexDigits_inj {count m n : Nat} (hm : m < 16 ^ count) (hn : n < 16 ^ count)
    (h : hexDigits count m = hexDigits count n) : m = n := by
  induction count generalizing m n with
  | zero => omega
  | succ count ih =>
      have hlength : (hexDigits count (m / 16)).length = (hexDigits count (n / 16)).length := by
        rw [length_hexDigits, length_hexDigits]
      obtain ⟨hbefore, hlast⟩ := List.append_inj h hlength
      have hquotient : m / 16 = n / 16 := by
        rw [Nat.pow_succ] at hm hn
        exact ih (Nat.div_lt_of_lt_mul (by omega)) (Nat.div_lt_of_lt_mul (by omega)) hbefore
      have hremainder : m % 16 = n % 16 :=
        digitChar_inj _ (Nat.mod_lt _ (by decide)) _ (Nat.mod_lt _ (by decide))
          (List.singleton_inj.mp hlast)
      omega

/-! ### Code points -/

/-- A quote that a text may stand between. -/
def IsQuote (c : Char) : Prop := c = '\'' ∨ c = '"'

theorem isQuote_quoteFor (t : Text) : IsQuote (quoteFor t) := by
  unfold quoteFor
  split
  · exact Or.inr rfl
  · exact Or.inl rfl

/-- The character that one behind a backslash stands for. -/
def escaped? (quote m : Char) : Option Char :=
  if m = quote ∨ m = '\\' then some m
  else if m = 't' then some '\t'
  else if m = 'n' then some '\n'
  else if m = 'r' then some '\r'
  else none

/-- How many digits a character behind a backslash announces. -/
def digitsBehind? (m : Char) : Option Nat :=
  if m = 'x' then some 2 else if m = 'u' then some 4 else if m = 'U' then some 8 else none

/-- The characters stand for a code point between two quotes. -/
inductive Encodes (quote : Char) (p : CodePoint) : List Char → Prop
  | plain {c : Char} : p.toChar? = some c → c ≠ quote → c ≠ '\\' → Encodes quote p [c]
  | letter {m c : Char} : p.toChar? = some c → escaped? quote m = some c →
      Encodes quote p ['\\', m]
  | digits {m : Char} {count : Nat} : digitsBehind? m = some count → p.val < 16 ^ count →
      Encodes quote p ('\\' :: m :: hexDigits count p.val)

theorem encodes_numeric (quote : Char) (p : CodePoint) : Encodes quote p (numeric p) := by
  have hp : p.val < 16 ^ 8 := Nat.lt_of_lt_of_le p.isLt (by decide)
  unfold numeric
  split_ifs with htwo hfour
  · exact .digits rfl htwo
  · exact .digits rfl hfour
  · exact .digits rfl hp

theorem escaped?_of_digitsBehind? {quote m : Char} {count : Nat} (hquote : IsQuote quote)
    (h : digitsBehind? m = some count) : escaped? quote m = none := by
  unfold digitsBehind? at h
  split_ifs at h with hx hu hU
  · rcases hquote with rfl | rfl <;> rw [hx] <;> rfl
  · rcases hquote with rfl | rfl <;> rw [hu] <;> rfl
  · rcases hquote with rfl | rfl <;> rw [hU] <;> rfl

theorem encodes_encodeOne {quote : Char} (hquote : IsQuote quote) (shows : CodePoint → Bool)
    (p : CodePoint) : Encodes quote p (encodeOne shows quote p) := by
  unfold encodeOne
  cases hc : p.toChar? with
  | none => exact encodes_numeric quote p
  | some c =>
      simp only
      split_ifs with hspecial htab hfeed hreturn hshown
      · exact .letter hc (if_pos hspecial)
      · exact .letter hc (by rcases hquote with rfl | rfl <;> rw [htab] <;> rfl)
      · exact .letter hc (by rcases hquote with rfl | rfl <;> rw [hfeed] <;> rfl)
      · exact .letter hc (by rcases hquote with rfl | rfl <;> rw [hreturn] <;> rfl)
      · obtain ⟨hne, hbackslash⟩ := not_or.mp hspecial
        exact .plain hc hne hbackslash
      · exact encodes_numeric quote p

section Encodes

variable {quote : Char} {p p' : CodePoint} {cs cs' s t : List Char}

theorem Encodes.append_ne (h : Encodes quote p cs) (hquote : IsQuote quote) :
    cs ++ s ≠ quote :: t := by
  have hbackslash : '\\' ≠ quote := by rcases hquote with rfl | rfl <;> decide
  cases h with
  | plain _ hne _ => exact fun he => hne (List.cons.inj he).1
  | letter _ _ => exact fun he => hbackslash (List.cons.inj he).1
  | digits _ _ => exact fun he => hbackslash (List.cons.inj he).1

theorem Encodes.unique (h : Encodes quote p cs) (h' : Encodes quote p' cs')
    (hquote : IsQuote quote) (he : cs ++ s = cs' ++ t) : p = p' ∧ s = t := by
  cases h with
  | plain hc hne hbackslash =>
      cases h' with
      | plain hc' _ _ =>
          obtain ⟨rfl, hst⟩ := List.cons.inj he
          exact ⟨CodePoint.eq_of_toChar? hc hc', hst⟩
      | letter _ _ => exact absurd (List.cons.inj he).1 hbackslash
      | digits _ _ => exact absurd (List.cons.inj he).1 hbackslash
  | letter hc hm =>
      cases h' with
      | plain _ _ hbackslash => exact absurd (List.cons.inj he).1.symm hbackslash
      | letter hc' hm' =>
          obtain ⟨rfl, hst⟩ := List.cons.inj (List.cons.inj he).2
          obtain rfl := Option.some.inj (hm.symm.trans hm')
          exact ⟨CodePoint.eq_of_toChar? hc hc', hst⟩
      | digits hk _ =>
          obtain ⟨rfl, -⟩ := List.cons.inj (List.cons.inj he).2
          rw [escaped?_of_digitsBehind? hquote hk] at hm
          cases hm
  | digits hk hp =>
      cases h' with
      | plain _ _ hbackslash => exact absurd (List.cons.inj he).1.symm hbackslash
      | letter _ hm =>
          obtain ⟨rfl, -⟩ := List.cons.inj (List.cons.inj he).2
          rw [escaped?_of_digitsBehind? hquote hk] at hm
          cases hm
      | digits hk' hp' =>
          obtain ⟨rfl, hrest⟩ := List.cons.inj (List.cons.inj he).2
          obtain rfl := Option.some.inj (hk.symm.trans hk')
          obtain ⟨hdigits, hst⟩ := List.append_inj hrest (by simp)
          exact ⟨Fin.ext (hexDigits_inj hp hp' hdigits), hst⟩

end Encodes

section Texts

variable {quote : Char} {s t : List Char}

theorem encodeOne_append_ne (hquote : IsQuote quote) (shows : CodePoint → Bool) (p : CodePoint) :
    encodeOne shows quote p ++ s ≠ quote :: t :=
  (encodes_encodeOne hquote shows p).append_ne hquote

theorem legible_encodeOne (hquote : IsQuote quote) (shows : CodePoint → Bool) :
    Legible (encodeOne shows quote) := fun _ _ _ _ he =>
  (encodes_encodeOne hquote shows _).unique (encodes_encodeOne hquote shows _) hquote he

/-! ### Texts -/

theorem legible_flatMap (hquote : IsQuote quote) (shows : CodePoint → Bool) :
    Legible fun x : Text => x.flatMap (encodeOne shows quote) ++ [quote] := by
  intro x y s t he
  simp only [List.append_assoc, List.singleton_append] at he
  induction x generalizing y with
  | nil =>
      cases y with
      | nil => exact ⟨rfl, (List.cons.inj he).2⟩
      | cons p y =>
          rw [List.flatMap_cons, List.append_assoc] at he
          exact absurd he.symm (encodeOne_append_ne hquote shows p)
  | cons p x ih =>
      cases y with
      | nil =>
          rw [List.flatMap_cons, List.append_assoc] at he
          exact absurd he (encodeOne_append_ne hquote shows p)
      | cons p' y =>
          rw [List.flatMap_cons, List.flatMap_cons, List.append_assoc, List.append_assoc] at he
          obtain ⟨rfl, hrest⟩ := legible_encodeOne hquote shows he
          obtain ⟨rfl, hst⟩ := ih hrest
          exact ⟨rfl, hst⟩

/-- **A quoted text is legible**: it shows its quote first. -/
theorem legible_encode (shows : CodePoint → Bool) : Legible (encode shows) := by
  intro x y s t he
  obtain ⟨hquote, hrest⟩ := List.cons.inj he
  rw [← hquote] at hrest
  exact legible_flatMap (isQuote_quoteFor x) shows hrest

theorem legible_text : Legible fun x => (text x).toList := by
  simp only [text, String.toList_ofList]
  exact legible_encode CodePoint.isPrintable

end Texts

end Quoted

end DocLayout
