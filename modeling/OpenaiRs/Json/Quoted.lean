import OpenaiRs.Rust.Chars

/-!
# JSON strings

The string literals of JSON with the strings that they stand for, over characters, and a reader of them. What is read
of the `Debug` form of a string is the string itself, as long as `Debug` writes no escape that JSON does not know.

## Implementation notes

`serde_json::from_str::<String>` reads exactly the literals: the hypothesis `Reads` on a function that stands for it.
-/

namespace OpenaiRs.Quoted

open Rust Rust.Chars

section Definitions

def isWs (c : Char) : Bool := c = ' ' || c = '\t' || c = '\n' || c = '\r'

def hexValue (c : Char) : Option ℕ :=
  if c.isDigit then some (c.toNat - '0'.toNat)
  else if 'a' ≤ c ∧ c ≤ 'f' then some (c.toNat - 'a'.toNat + 10)
  else if 'A' ≤ c ∧ c ≤ 'F' then some (c.toNat - 'A'.toNat + 10)
  else none

/-- The code unit of four hexadecimal digits. -/
def codeUnit (a b c d : Char) : Option ℕ :=
  (hexValue a).bind fun a => (hexValue b).bind fun b => (hexValue c).bind fun c => (hexValue d).map fun d =>
    ((a * 16 + b) * 16 + c) * 16 + d

def isLeading (unit : ℕ) : Bool := 0xD800 ≤ unit && unit ≤ 0xDBFF

def isTrailing (unit : ℕ) : Bool := 0xDC00 ≤ unit && unit ≤ 0xDFFF

/-- The character of an escape of one letter. -/
def shortEscape (c : Char) : Option Char :=
  if c = '"' then some '"'
  else if c = '\\' then some '\\'
  else if c = '/' then some '/'
  else if c = 'b' then some '\x08'
  else if c = 'f' then some '\x0c'
  else if c = 'n' then some '\n'
  else if c = 'r' then some '\r'
  else if c = 't' then some '\t'
  else none

/-- The character of two code units. -/
def surrogatePair (leading trailing : ℕ) : Char :=
  Char.ofNat (0x10000 + (leading - 0xD800) * 0x400 + (trailing - 0xDC00))

/-- What stands between the quotation marks, with the string that it stands for. -/
inductive Spells : Chars → Chars → Prop
  | nil : Spells [] []
  | plain {c : Char} {text value : Chars} : c ≠ '"' → c ≠ '\\' → 0x20 ≤ c.toNat → Spells text value →
      Spells (c :: text) (c :: value)
  | short {letter c : Char} {text value : Chars} : shortEscape letter = some c → Spells text value →
      Spells ('\\' :: letter :: text) (c :: value)
  | unicode {a b c d : Char} {unit : ℕ} {text value : Chars} : codeUnit a b c d = some unit →
      isLeading unit = false → isTrailing unit = false → Spells text value →
      Spells ('\\' :: 'u' :: a :: b :: c :: d :: text) (Char.ofNat unit :: value)
  | pair {a b c d a' b' c' d' : Char} {leading trailing : ℕ} {text value : Chars} :
      codeUnit a b c d = some leading → isLeading leading = true → codeUnit a' b' c' d' = some trailing →
      isTrailing trailing = true → Spells text value →
      Spells ('\\' :: 'u' :: a :: b :: c :: d :: '\\' :: 'u' :: a' :: b' :: c' :: d' :: text)
        (surrogatePair leading trailing :: value)

/-- A string in quotation marks with white space around it. -/
inductive Literal : Chars → Chars → Prop
  | mk (before body behind value : Chars) : (∀ c ∈ before, isWs c = true) → Spells body value →
      (∀ c ∈ behind, isWs c = true) → Literal (before ++ '"' :: (body ++ '"' :: behind)) value

/-- A function that reads the literals as their strings, and nothing else. -/
def Reads (fromStr : Chars → Option Chars) : Prop :=
  ∀ text value, fromStr text = some value ↔ Literal text value

/-- The second half of a surrogate pair. -/
def readTrailing (leading : ℕ) : Chars → Option (Char × Chars)
  | '\\' :: 'u' :: a :: b :: c :: d :: rest => (codeUnit a b c d).bind fun trailing =>
      if isTrailing trailing then some (surrogatePair leading trailing, rest) else none
  | _ => none

def readUnicode : Chars → Option (Char × Chars)
  | a :: b :: c :: d :: rest => (codeUnit a b c d).bind fun unit =>
      if isLeading unit then readTrailing unit rest
      else if isTrailing unit then none
      else some (Char.ofNat unit, rest)
  | _ => none

/-- The character of what stands behind a backslash. -/
def readEscape : Chars → Option (Char × Chars)
  | [] => none
  | letter :: rest => if letter = 'u' then readUnicode rest else (shortEscape letter).map fun c => (c, rest)

/-- A character of a string, or none at its closing quote. -/
def readChar : Chars → Option (Option Char × Chars)
  | [] => none
  | c :: rest =>
      if c = '"' then some (none, rest)
      else if c = '\\' then (readEscape rest).map fun (c, rest) => (some c, rest)
      else if c.toNat < 0x20 then none
      else some (some c, rest)

theorem length_readTrailing {leading : ℕ} {text rest : Chars} {c : Char} (h : readTrailing leading text = some (c, rest)) :
    rest.length < text.length := by
  rw [readTrailing.eq_def] at h
  split at h
  · obtain ⟨trailing, -, h⟩ := Option.bind_eq_some_iff.mp h
    split at h
    · obtain ⟨-, rfl⟩ := Prod.mk.inj (Option.some.inj h)
      simp only [List.length_cons]
      omega
    · cases h
  · cases h

theorem length_readUnicode {text rest : Chars} {c : Char} (h : readUnicode text = some (c, rest)) :
    rest.length < text.length := by
  rw [readUnicode.eq_def] at h
  split at h
  · obtain ⟨unit, -, h⟩ := Option.bind_eq_some_iff.mp h
    split at h
    · have hless := length_readTrailing h
      simp only [List.length_cons]
      omega
    · split at h
      · cases h
      · cases h
        simp only [List.length_cons]
        omega
  · cases h

theorem length_readEscape {text rest : Chars} {c : Char} (h : readEscape text = some (c, rest)) :
    rest.length < text.length := by
  cases text with
  | nil => cases h
  | cons letter text =>
      rw [readEscape] at h
      split at h
      · exact Nat.lt_succ_of_lt (length_readUnicode h)
      · obtain ⟨c', -, heq⟩ := Option.map_eq_some_iff.mp h
        cases heq
        exact Nat.lt_succ_self _

theorem length_readChar {text rest : Chars} {c : Option Char} (h : readChar text = some (c, rest)) :
    rest.length < text.length := by
  cases text with
  | nil => cases h
  | cons first text =>
      rw [readChar] at h
      split at h
      · cases h
        exact Nat.lt_succ_self _
      · split at h
        · obtain ⟨⟨c', rest'⟩, hescape, heq⟩ := Option.map_eq_some_iff.mp h
          cases heq
          exact Nat.lt_succ_of_lt (length_readEscape hescape)
        · split at h
          · cases h
          · cases h
            exact Nat.lt_succ_self _

/-- The string behind its opening quote, and what stands behind the closing one. -/
def readString (text : Chars) : Option (Chars × Chars) :=
  match _h : readChar text with
  | none => none
  | some (none, rest) => some ([], rest)
  | some (some c, rest) => (readString rest).map fun (value, behind) => (c :: value, behind)
termination_by text.length
decreasing_by exact length_readChar ‹_›

def readLiteral (text : Chars) : Option Chars :=
  match text.dropWhile isWs with
  | [] => none
  | c :: rest =>
      if c = '"' then
        (readString rest).bind fun (value, behind) => if behind.all isWs then some value else none
      else none

end Definitions

section Literals

theorem readString_of_readChar {text rest : Chars} {c : Char} (h : readChar text = some (some c, rest)) :
    readString text = (readString rest).map fun (value, behind) => (c :: value, behind) := by
  rw [readString]
  split <;> simp_all

theorem readString_of_none {text : Chars} (h : readChar text = none) : readString text = none := by
  rw [readString]
  split <;> simp_all

theorem readString_quote (behind : Chars) : readString ('"' :: behind) = some ([], behind) := by
  rw [readString]
  rfl

theorem readChar_plain {c : Char} (hquote : c ≠ '"') (hback : c ≠ '\\') (hcontrol : 0x20 ≤ c.toNat) (rest : Chars) :
    readChar (c :: rest) = some (some c, rest) := by
  rw [readChar, if_neg hquote, if_neg hback, if_neg (by omega)]

theorem readChar_short {letter c : Char} (h : shortEscape letter = some c) (rest : Chars) :
    readChar ('\\' :: letter :: rest) = some (some c, rest) := by
  have hletter : letter ≠ 'u' := by
    rintro rfl
    cases h
  rw [readChar, if_neg (by decide), if_pos rfl, readEscape, if_neg hletter, h]
  rfl

theorem readChar_unicode (a b c d : Char) (rest : Chars) :
    readChar ('\\' :: 'u' :: a :: b :: c :: d :: rest) =
      (readUnicode (a :: b :: c :: d :: rest)).map fun (c, rest) => (some c, rest) := by
  rw [readChar, if_neg (by decide), if_pos rfl, readEscape, if_pos rfl]

/-- A literal is read as its string. -/
theorem readString_of_spells {body value : Chars} (h : Spells body value) (behind : Chars) :
    readString (body ++ '"' :: behind) = some (value, behind) := by
  induction h with
  | nil => exact readString_quote behind
  | plain hquote hback hcontrol _ ih =>
      rw [List.cons_append, readString_of_readChar (readChar_plain hquote hback hcontrol _), ih]
      rfl
  | short hescape _ ih =>
      rw [List.cons_append, List.cons_append, readString_of_readChar (readChar_short hescape _), ih]
      rfl
  | @unicode a b c d unit text value hunit hleading htrailing _ ih =>
      have hread : readChar ('\\' :: 'u' :: a :: b :: c :: d :: (text ++ '"' :: behind)) =
          some (some (Char.ofNat unit), text ++ '"' :: behind) := by
        rw [readChar_unicode, readUnicode, hunit, Option.bind_some, hleading, htrailing]
        rfl
      change readString ('\\' :: 'u' :: a :: b :: c :: d :: (text ++ '"' :: behind)) = _
      rw [readString_of_readChar hread, ih]
      rfl
  | @pair a b c d a' b' c' d' leading trailing text value hfirst hleading hsecond htrailing _ ih =>
      have hread : readChar ('\\' :: 'u' :: a :: b :: c :: d :: '\\' :: 'u' :: a' :: b' :: c' :: d' ::
          (text ++ '"' :: behind)) = some (some (surrogatePair leading trailing), text ++ '"' :: behind) := by
        rw [readChar_unicode, readUnicode, hfirst, Option.bind_some, if_pos hleading, readTrailing, hsecond,
          Option.bind_some, if_pos htrailing]
        rfl
      change readString ('\\' :: 'u' :: a :: b :: c :: d :: '\\' :: 'u' :: a' :: b' :: c' :: d' ::
        (text ++ '"' :: behind)) = _
      rw [readString_of_readChar hread, ih]
      rfl

/-- An escape that is read is one of the grammar. -/
theorem spells_of_readEscape {text rest : Chars} {c : Char} (h : readEscape text = some (c, rest)) :
    ∃ piece, '\\' :: text = piece ++ rest ∧ ∀ body value, Spells body value → Spells (piece ++ body) (c :: value) := by
  cases text with
  | nil => cases h
  | cons letter text =>
      rw [readEscape] at h
      by_cases hletter : letter = 'u'
      · subst hletter
        rw [if_pos rfl, readUnicode.eq_def] at h
        split at h
        · rename_i a b c' d behind
          obtain ⟨unit, hunit, h⟩ := Option.bind_eq_some_iff.mp h
          by_cases hleading : isLeading unit = true
          · rw [if_pos hleading, readTrailing.eq_def] at h
            split at h
            · rename_i a' b' c'' d' behind' _
              obtain ⟨trailing, htrailing, h⟩ := Option.bind_eq_some_iff.mp h
              split_ifs at h with hpair
              obtain ⟨rfl, rfl⟩ := Prod.mk.inj (Option.some.inj h)
              exact ⟨['\\', 'u', a, b, c', d, '\\', 'u', a', b', c'', d'], rfl,
                fun body value hspells => .pair hunit hleading htrailing hpair hspells⟩
            · cases h
          · rw [if_neg hleading] at h
            split_ifs at h with htrailing
            cases h
            exact ⟨['\\', 'u', a, b, c', d], rfl, fun body value hspells =>
              .unicode hunit (Bool.eq_false_iff.mpr hleading) (Bool.eq_false_iff.mpr htrailing) hspells⟩
        · cases h
      · rw [if_neg hletter] at h
        obtain ⟨c', hescape, heq⟩ := Option.map_eq_some_iff.mp h
        cases heq
        exact ⟨['\\', letter], rfl, fun body value hspells => .short hescape hspells⟩

/-- A character that is read is spelled by what is read for it. -/
theorem spells_of_readChar {text rest : Chars} {c : Char} (h : readChar text = some (some c, rest)) :
    ∃ piece, text = piece ++ rest ∧ ∀ body value, Spells body value → Spells (piece ++ body) (c :: value) := by
  cases text with
  | nil => cases h
  | cons first text =>
      rw [readChar] at h
      by_cases hquote : first = '"'
      · rw [if_pos hquote] at h
        cases h
      · rw [if_neg hquote] at h
        by_cases hback : first = '\\'
        · rw [if_pos hback] at h
          obtain ⟨⟨c', rest'⟩, hescape, heq⟩ := Option.map_eq_some_iff.mp h
          cases heq
          subst hback
          exact spells_of_readEscape hescape
        · rw [if_neg hback] at h
          split_ifs at h with hcontrol
          cases h
          exact ⟨[c], rfl, fun body value hspells => .plain hquote hback (by omega) hspells⟩

theorem quote_of_readChar {text rest : Chars} (h : readChar text = some (none, rest)) : text = '"' :: rest := by
  cases text with
  | nil => cases h
  | cons first text =>
      rw [readChar] at h
      by_cases hquote : first = '"'
      · rw [if_pos hquote] at h
        cases h
        rw [hquote]
      · rw [if_neg hquote] at h
        split_ifs at h
        · obtain ⟨⟨c, behind⟩, -, heq⟩ := Option.map_eq_some_iff.mp h
          cases heq
        · cases h

/-- A string that is read is spelled by what is read for it. -/
theorem spells_of_readString {text value behind : Chars} (h : readString text = some (value, behind)) :
    ∃ body, text = body ++ '"' :: behind ∧ Spells body value := by
  induction hlength : text.length using Nat.strongRecOn generalizing text value with
  | _ length ih =>
      rw [readString] at h
      split at h
      · cases h
      · rename_i rest hread
        cases h
        exact ⟨[], quote_of_readChar hread, .nil⟩
      · rename_i c rest hread
        obtain ⟨⟨value, behind⟩, hrest, heq⟩ := Option.map_eq_some_iff.mp h
        cases heq
        obtain ⟨piece, htext, hpiece⟩ := spells_of_readChar hread
        obtain ⟨body, hbody, hspells⟩ := ih rest.length (hlength ▸ length_readChar hread) hrest rfl
        refine ⟨piece ++ body, ?_, hpiece body value hspells⟩
        rw [htext, hbody, List.append_assoc]

theorem reads_readLiteral : Reads readLiteral := by
  intro text value
  constructor
  · intro h
    rw [readLiteral] at h
    split at h
    · cases h
    · rename_i c rest hdrop
      split_ifs at h with hquote
      obtain ⟨⟨value', behind⟩, hstring, h⟩ := Option.bind_eq_some_iff.mp h
      dsimp only at h
      split_ifs at h with hbehind
      cases h
      subst hquote
      obtain ⟨body, rfl, hspells⟩ := spells_of_readString hstring
      have htext := List.takeWhile_append_dropWhile (p := isWs) (l := text)
      rw [hdrop] at htext
      rw [← htext]
      exact .mk _ body behind value (fun c hc => List.all_eq_true.mp List.all_takeWhile c hc) hspells
        (List.all_eq_true.mp hbehind)
  · rintro ⟨before, body, behind, _, hbefore, hspells, hbehind⟩
    have hdrop : (before ++ '"' :: (body ++ '"' :: behind)).dropWhile isWs = '"' :: (body ++ '"' :: behind) := by
      rw [List.dropWhile_append_of_pos hbefore, List.dropWhile_cons_of_neg (by decide)]
    rw [readLiteral, hdrop]
    simp only [if_true, readString_of_spells hspells behind, Option.bind_some]
    rw [if_pos (List.all_eq_true.mpr hbehind)]

/-- There is one function that reads the literals. -/
theorem Reads.eq_readLiteral {fromStr : Chars → Option Chars} (h : Reads fromStr) : fromStr = readLiteral := by
  funext text
  apply Option.ext
  intro value
  rw [h text value, reads_readLiteral text value]

end Literals

section Debug

variable {printable : Char → Bool}

/-- What `Debug` writes as it is, or with an escape that JSON has too. -/
def Kept (printable : Char → Bool) (c : Char) : Prop :=
  c ∈ ['\t', '\r', '\n', '\\', '"'] ∨ c ≠ '\x00' ∧ isPrintable printable c = true

instance (c : Char) : Decidable (Kept printable c) := inferInstanceAs (Decidable (_ ∨ _))

/-- What is kept is read as itself. -/
theorem readChar_escapeDebug {c : Char} (h : Kept printable c) (rest : Chars) : readChar (escapeDebug printable c ++ rest) = some (some c, rest) := by
  rw [escapeDebug]
  by_cases htab : c = '\t'
  · rw [htab]
    exact readChar_short rfl rest
  · by_cases hcr : c = '\r'
    · rw [hcr]
      exact readChar_short rfl rest
    · by_cases hlf : c = '\n'
      · rw [hlf]
        exact readChar_short rfl rest
      · by_cases hback : c = '\\'
        · rw [hback]
          exact readChar_short rfl rest
        · by_cases hquote : c = '"'
          · rw [hquote]
            exact readChar_short rfl rest
          · obtain ⟨hnul, hc⟩ := h.resolve_left (by simp [htab, hcr, hlf, hback, hquote])
            rw [if_neg hnul, if_neg htab, if_neg hcr, if_neg hlf, if_neg hback, if_neg hquote, if_pos hc,
              List.singleton_append, readChar, if_neg hquote, if_neg hback, if_neg (by have := le_of_isPrintable hc; omega)]

theorem readChar_not_kept {c : Char} (h : ¬ Kept printable c) (rest : Chars) :
    readChar (escapeDebug printable c ++ rest) = none := by
  rw [Kept, not_or] at h
  obtain ⟨hshort, hrest⟩ := h
  simp only [List.mem_cons, List.not_mem_nil, or_false, not_or] at hshort
  obtain ⟨htab, hcr, hlf, hback, hquote⟩ := hshort
  rw [escapeDebug, if_neg htab, if_neg hcr, if_neg hlf, if_neg hback, if_neg hquote]
  by_cases hnul : c = '\x00'
  · rw [if_pos hnul]
    rfl
  · have hnot : ¬ isPrintable printable c = true := fun h => hrest ⟨hnul, h⟩
    have hbrace : ∀ b c d, codeUnit '\x7b' b c d = none := fun _ _ _ => rfl
    rw [if_neg hnul, if_neg hnot]
    change (readUnicode ('\x7b' :: _)).map _ = none
    rw [readUnicode.eq_def]
    split
    · rename_i a b c' d behind heq
      obtain ⟨rfl, -⟩ := List.cons.inj heq
      rw [hbrace]
      rfl
    · rfl

theorem readString_debug (text behind : Chars) :
    readString (text.flatMap (escapeDebug printable) ++ '"' :: behind) =
      if ∀ c ∈ text, Kept printable c then some (text, behind) else none := by
  induction text with
  | nil =>
      rw [List.flatMap_nil, List.nil_append, if_pos (List.forall_mem_nil _), readString]
      rfl
  | cons c text ih =>
      rw [List.flatMap_cons, List.append_assoc]
      by_cases hc : Kept printable c
      · rw [readString_of_readChar (readChar_escapeDebug hc _), ih]
        by_cases htext : ∀ c ∈ text, Kept printable c
        · rw [if_pos htext, if_pos (List.forall_mem_cons.mpr ⟨hc, htext⟩)]
          rfl
        · rw [if_neg htext, if_neg fun h => htext (List.forall_mem_cons.mp h).2]
          rfl
      · rw [readString_of_none (readChar_not_kept hc _), if_neg fun h => hc (List.forall_mem_cons.mp h).1]

/-- The `Debug` form of a string is read as the string, if JSON knows all its escapes, and else not at all. -/
theorem Reads.debug {fromStr : Chars → Option Chars} (h : Reads fromStr) (text : Chars) :
    fromStr (debug printable text) = if ∀ c ∈ text, Kept printable c then some text else none := by
  have hquote : (Chars.debug printable text).dropWhile isWs = Chars.debug printable text :=
    List.dropWhile_cons_of_neg (by decide)
  rw [h.eq_readLiteral, readLiteral, hquote, Chars.debug]
  simp only [if_true]
  rw [readString_debug text []]
  split <;> rfl

end Debug

end OpenaiRs.Quoted
