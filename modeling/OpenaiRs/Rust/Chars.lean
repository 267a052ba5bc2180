import OpenaiRs.Preview.Inline
import Mathlib.Data.List.DropRight

/-!
# Text as characters

`str::lines`, `str::trim`, `str::split_once`, `str::parse::<u64>` and the `Debug` form of a string, over the
characters of a text. Which characters from U+007F on `Debug` takes for printable is a parameter.
-/

namespace OpenaiRs.Rust

open Preview (isWhitespace)

abbrev Chars := List Char

namespace Chars

section Definitions

def stripCr (line : Chars) : Chars := if line.getLast? = some '\r' then line.dropLast else line

/-- The lines of a text behind the characters of a first one. -/
def linesFrom (current : Chars) : Chars → List Chars
  | [] => if current.isEmpty then [] else [current]
  | c :: rest => if c = '\n' then stripCr current :: linesFrom [] rest else linesFrom (current ++ [c]) rest

/-- `str::lines`. -/
def lines (text : Chars) : List Chars := linesFrom [] text

/-- `str::trim`. -/
def trim (text : Chars) : Chars := (text.dropWhile isWhitespace).rdropWhile isWhitespace

/-- `str::split_once` at a character. -/
def splitOnce (separator : Char) : Chars → Option (Chars × Chars)
  | [] => none
  | c :: rest =>
      if c = separator then some ([], rest) else (splitOnce separator rest).map fun (left, right) => (c :: left, right)

/-- `str::parse::<u64>`. -/
def parseU64 (text : Chars) : Option UInt64 :=
  let digits := if text.head? = some '+' then text.tail else text
  if digits.isEmpty || !digits.all Char.isDigit then none
  else if h : Nat.ofDigitChars 10 digits 0 < UInt64.size then some (UInt64.ofNatLT (Nat.ofDigitChars 10 digits 0) h)
  else none

/-- `Display` of an integer. -/
def decimal (n : ℕ) : Chars := Nat.toDigits 10 n

def isPrintable (printable : Char → Bool) (c : Char) : Bool :=
  if c.toNat < 0x20 then false
  else if c.toNat < 0x7F then true
  else printable c

/-- How `Debug` of a string writes a character. -/
def escapeDebug (printable : Char → Bool) (c : Char) : Chars :=
  if c = '\x00' then ['\\', '0']
  else if c = '\t' then ['\\', 't']
  else if c = '\r' then ['\\', 'r']
  else if c = '\n' then ['\\', 'n']
  else if c = '\\' then ['\\', '\\']
  else if c = '"' then ['\\', '"']
  else if isPrintable printable c then [c]
  else ['\\', 'u', '\x7b'] ++ Nat.toDigits 16 c.toNat ++ ['\x7d']

/-- `Debug` of a string. -/
def debug (printable : Char → Bool) (text : Chars) : Chars := '"' :: (text.flatMap (escapeDebug printable) ++ ['"'])

end Definitions

theorem isPrintable_of_ascii (printable : Char → Bool) {c : Char} (hlow : 0x20 ≤ c.toNat) (hhigh : c.toNat < 0x7F) :
    isPrintable printable c = true := by
  rw [isPrintable, if_neg (by omega), if_pos hhigh]

/-- A control character is not printable. -/
theorem le_of_isPrintable {printable : Char → Bool} {c : Char} (h : isPrintable printable c = true) :
    0x20 ≤ c.toNat := by
  by_contra hlt
  rw [isPrintable, if_pos (by omega)] at h
  exact Bool.false_ne_true h

section Lines

theorem linesFrom_append {line : Chars} (h : '\n' ∉ line) (current rest : Chars) :
    linesFrom current (line ++ '\n' :: rest) = stripCr (current ++ line) :: lines rest := by
  induction line generalizing current with
  | nil => rw [List.nil_append, linesFrom, if_pos rfl, List.append_nil, lines]
  | cons c line ih =>
      have hc : c ≠ '\n' := (List.ne_of_not_mem_cons h).symm
      rw [List.cons_append, linesFrom, if_neg hc, ih (List.not_mem_of_not_mem_cons h), List.append_assoc,
        List.singleton_append]

/-- Lines that are written one by one are read as they are. -/
theorem lines_flatMap {texts : List Chars} (h : ∀ line ∈ texts, '\n' ∉ line ∧ line.getLast? ≠ some '\r') :
    lines (texts.flatMap fun line => line ++ ['\n']) = texts := by
  induction texts with
  | nil => rfl
  | cons line rest ih =>
      obtain ⟨⟨hlf, hcr⟩, hrest⟩ := List.forall_mem_cons.mp h
      rw [List.flatMap_cons, List.append_assoc, List.singleton_append, lines, linesFrom_append hlf, List.nil_append,
        stripCr, if_neg hcr, ih hrest]

theorem trim_padded {left text right : Chars} (hleft : ∀ c ∈ left, isWhitespace c = true)
    (hright : ∀ c ∈ right, isWhitespace c = true) (hne : text ≠ [])
    (hfirst : ∀ c ∈ text.head?, isWhitespace c = false) (hlast : ∀ c ∈ text.getLast?, isWhitespace c = false) :
    trim (left ++ (text ++ right)) = text := by
  have hdrop : (left ++ (text ++ right)).dropWhile isWhitespace = text ++ right := by
    obtain ⟨c, rest, rfl⟩ := List.exists_cons_of_ne_nil hne
    rw [List.dropWhile_append_of_pos hleft, List.cons_append]
    exact List.dropWhile_cons_of_neg (by simp [hfirst c rfl])
  have hrdrop : text.reverse.dropWhile isWhitespace = text.reverse := by
    obtain ⟨rest, c, rfl⟩ := (List.eq_nil_or_concat text).resolve_left hne
    have hc : isWhitespace c = false := hlast c (by simp)
    rw [List.concat_eq_append, List.reverse_concat]
    exact List.dropWhile_cons_of_neg (by simp [hc])
  rw [trim, hdrop, List.rdropWhile, List.reverse_append,
    List.dropWhile_append_of_pos fun c hc => hright c (List.mem_reverse.mp hc), hrdrop, List.reverse_reverse]

theorem splitOnce_append {separator : Char} {left : Chars} (h : separator ∉ left) (right : Chars) :
    splitOnce separator (left ++ separator :: right) = some (left, right) := by
  induction left with
  | nil => rw [List.nil_append, splitOnce, if_pos rfl]
  | cons c left ih =>
      have hc : c ≠ separator := (List.ne_of_not_mem_cons h).symm
      rw [List.cons_append, splitOnce, if_neg hc, ih (List.not_mem_of_not_mem_cons h)]
      rfl

end Lines

section Numbers

theorem isDigit_decimal {n : ℕ} {c : Char} (h : c ∈ decimal n) : c.isDigit = true :=
  Nat.isDigit_of_mem_toDigits (by decide) (by decide) h

/-- A number is read as it is written. -/
theorem parseU64_decimal (n : UInt64) : parseU64 (decimal n.toNat) = some n := by
  have hplus : (decimal n.toNat).head? ≠ some '+' := by
    intro h
    have hdigit := isDigit_decimal (List.mem_of_mem_head? h)
    exact absurd hdigit (by decide)
  have hdigits : (decimal n.toNat).all Char.isDigit = true := List.all_eq_true.mpr fun c => isDigit_decimal
  have hne : (decimal n.toNat).isEmpty = false := List.isEmpty_eq_false_iff.mpr Nat.toDigits_ne_nil
  have hvalue : Nat.ofDigitChars 10 (decimal n.toNat) 0 = n.toNat := Nat.ofDigitChars_ten_toDigits
  rw [parseU64]
  simp only [hplus, if_false, hne, hdigits, Bool.not_true, Bool.or_false, Bool.false_eq_true, hvalue]
  rw [dif_pos n.toNat_lt_size, UInt64.ofNatLT_toNat]

theorem exists_digit_of_mem {base n : ℕ} (hbase : 1 < base) {c : Char} (h : c ∈ Nat.toDigits base n) :
    ∃ digit, Nat.digitChar digit = c := by
  induction n using Nat.strong_induction_on with
  | h n ih =>
      rw [Nat.toDigits_eq_if hbase] at h
      split at h
      · exact ⟨n, (List.mem_singleton.mp h).symm⟩
      · rename_i hle
        rcases List.mem_append.mp h with h | h
        · exact ih _ (Nat.div_lt_self (by omega) hbase) h
        · exact ⟨n % base, (List.mem_singleton.mp h).symm⟩

theorem lf_notMem_toDigits {base : ℕ} (hbase : 1 < base) (n : ℕ) : '\n' ∉ Nat.toDigits base n := by
  intro h
  obtain ⟨digit, hdigit⟩ := exists_digit_of_mem hbase h
  exact Nat.digitChar_ne '\n' (by decide) hdigit

/-- `Debug` writes a text in one line. -/
theorem lf_notMem_debug (printable : Char → Bool) (text : Chars) : '\n' ∉ debug printable text := by
  have hescape : ∀ c, '\n' ∉ escapeDebug printable c := by
    intro c
    rw [escapeDebug]
    split_ifs with _ _ _ hlf
    · decide
    · decide
    · decide
    · decide
    · decide
    · decide
    · exact fun h => hlf (List.mem_singleton.mp h).symm
    · simp only [List.mem_append, not_or]
      exact ⟨⟨by decide, lf_notMem_toDigits (by decide) c.toNat⟩, by decide⟩
  simp [debug, hescape]

end Numbers

end Chars

end OpenaiRs.Rust
