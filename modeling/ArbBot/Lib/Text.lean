import Mathlib.Data.Char
import Mathlib.Data.List.Infix
import Mathlib.Data.List.Lex

/-!
# Texts

Texts as lists of characters, with what a standard library does to them: trimming, lines, the
comparison that ignores the case of ASCII letters, and numbers in decimal. A number that is written
is read back.
-/

namespace Lib

/-- A text. -/
abbrev Text := List Char

namespace Text

/-! ## White space and lines -/

/-- The characters of Unicode's property `White_Space`. -/
def isWhitespace (c : Char) : Bool :=
  let n := c.toNat
  decide (9 ≤ n ∧ n ≤ 13 ∨ n = 32 ∨ n = 0x85 ∨ n = 0xA0 ∨ n = 0x1680 ∨ 0x2000 ≤ n ∧ n ≤ 0x200A ∨
    n = 0x2028 ∨ n = 0x2029 ∨ n = 0x202F ∨ n = 0x205F ∨ n = 0x3000)

/-- The text without white space at its ends. -/
def trim (text : Text) : Text :=
  ((text.dropWhile isWhitespace).reverse.dropWhile isWhitespace).reverse

/-- A text without white space is not cut. -/
theorem trim_eq_self {text : Text} (h : ∀ c ∈ text, isWhitespace c = false) : trim text = text := by
  have hdrop : ∀ t : Text, (∀ c ∈ t, isWhitespace c = false) → t.dropWhile isWhitespace = t := by
    intro t ht
    cases t with
    | nil => rfl
    | cons c t => rw [List.dropWhile_cons_of_neg (by rw [ht c List.mem_cons_self]; decide)]
  have hrev : ∀ c ∈ text.reverse, isWhitespace c = false := fun c hc => h c (List.mem_reverse.mp hc)
  rw [trim, hdrop text h, hdrop text.reverse hrev, List.reverse_reverse]

/-- A line that ended in a line feed, without a carriage return before it. -/
def dropReturn (line : Text) : Text := if line.getLast? = some '\r' then line.dropLast else line

/-- The rest of the lines, after the characters `line` of the current one. -/
def linesFrom (line : Text) : Text → List Text
  | [] => if line = [] then [] else [line]
  | c :: rest =>
    if c = '\n' then dropReturn line :: linesFrom [] rest else linesFrom (line ++ [c]) rest

/-- The lines of a text. A line feed ends a line, and so does one with a carriage return before it;
what follows the last one is a line unless it is empty. -/
def lines (text : Text) : List Text := linesFrom [] text

theorem linesFrom_line {line : Text} (h : '\n' ∉ line) (start rest : Text) :
    linesFrom start (line ++ '\n' :: rest) = dropReturn (start ++ line) :: linesFrom [] rest := by
  induction line generalizing start with
  | nil =>
    rw [List.nil_append, List.append_nil]
    exact if_pos rfl
  | cons c line ih =>
    obtain ⟨hc, hline⟩ := not_or.mp (mt List.mem_cons.mpr h)
    show (if c = '\n' then _ else linesFrom (start ++ [c]) (line ++ '\n' :: rest)) = _
    rw [if_neg (Ne.symm hc), ih hline, List.append_assoc]
    rfl

/-- A line and what follows it. -/
theorem lines_line {line : Text} (h : '\n' ∉ line) (rest : Text) :
    lines (line ++ '\n' :: rest) = dropReturn line :: lines rest :=
  linesFrom_line h [] rest

theorem dropReturn_eq_self {line : Text} (h : '\r' ∉ line) : dropReturn line = line :=
  if_neg fun hlast => h (List.mem_of_getLast? hlast)

/-- Lines that are joined, with a line feed at the end. -/
theorem lines_intercalate {texts : List Text} (hne : texts ≠ [])
    (h : ∀ text ∈ texts, '\n' ∉ text ∧ '\r' ∉ text) :
    lines (['\n'].intercalate texts ++ ['\n']) = texts := by
  induction texts with
  | nil => exact absurd rfl hne
  | cons text texts ih =>
    obtain ⟨hfeed, hreturn⟩ := h text List.mem_cons_self
    cases texts with
    | nil =>
      rw [List.intercalate_singleton, lines_line hfeed, dropReturn_eq_self hreturn]
      rfl
    | cons next texts =>
      have hrest := ih (List.cons_ne_nil next texts) fun t ht => h t (List.mem_cons_of_mem _ ht)
      rw [List.intercalate_cons_cons, List.append_assoc, List.append_assoc, List.singleton_append,
        lines_line hfeed, dropReturn_eq_self hreturn, hrest]

/-! ## Texts inside texts -/

/-- The text neither stands in `before` nor begins there: no end of `before` begins it. -/
def Apart (before text : Text) : Prop :=
  ¬ text <:+: before ∧ ∀ tail ∈ before.tails, tail <+: text → tail = []

instance (before text : Text) : Decidable (Apart before text) :=
  inferInstanceAs (Decidable (_ ∧ _))

/-- What stands before a text does not matter to a search for something apart from it. -/
theorem infix_append_of_apart {before text : Text} (h : Apart before text) (rest : Text) :
    text <:+: before ++ rest ↔ text <:+: rest := by
  rw [List.infix_append_iff, or_iff_right h.1]
  refine ⟨fun hin => hin.elim id fun ⟨tail, front, htext, htail, hfront⟩ => ?_, .inl⟩
  have hnil : tail = [] := by
    refine h.2 tail ((List.mem_tails tail before).mpr htail) ?_
    rw [htext]
    exact List.prefix_append tail front
  rw [htext, hnil]
  exact hfront.isInfix

/-! ## Letters -/

/-- An ASCII letter in lower case. -/
def lowerChar (c : Char) : Char := if 'A' ≤ c ∧ c ≤ 'Z' then Char.ofNat (c.toNat + 32) else c

/-- The text with its ASCII letters in lower case. Texts are equal up to the case of ASCII letters
when these are equal. -/
def lower (text : Text) : Text := text.map lowerChar

/-! ## Decimal numbers -/

/-- A number in decimal. -/
def ofNat (n : Nat) : Text := Nat.toDigits 10 n

/-- The digits of an unsigned number, which may have a plus sign before it. -/
def unsigned : Text → Text
  | '+' :: digits => digits
  | digits => digits

/-- The unsigned number a text denotes, if it is below the bound. -/
def parseNat (bound : Nat) (text : Text) : Option Nat :=
  let digits := unsigned text
  if digits ≠ [] ∧ digits.all Char.isDigit ∧ Nat.ofDigitChars 10 digits 0 < bound then
    some (Nat.ofDigitChars 10 digits 0)
  else none

/-- What is written is read back. -/
theorem parseNat_ofNat {n bound : Nat} (h : n < bound) : parseNat bound (ofNat n) = some n := by
  have hdigit : ∀ c ∈ Nat.toDigits 10 n, c.isDigit = true := fun c hc =>
    Nat.isDigit_of_mem_toDigits (by decide) (by decide) hc
  have hplain : unsigned (Nat.toDigits 10 n) = Nat.toDigits 10 n := by
    unfold unsigned
    split
    · rename_i digits heq
      have hplus := hdigit '+' (heq ▸ List.mem_cons_self)
      exact absurd hplus (by decide)
    · rfl
  have hne : Nat.toDigits 10 n ≠ [] := Nat.toDigits_ne_nil
  unfold parseNat ofNat
  simp only [hplain, Nat.ofDigitChars_ten_toDigits]
  exact if_pos ⟨hne, List.all_eq_true.mpr hdigit, h⟩

end Text

end Lib
