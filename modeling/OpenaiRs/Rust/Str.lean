import Mathlib.Data.List.Basic

/-!
# Byte strings, UTF-8 validation and the string operations of the standard library

A `str` is represented by its UTF-8 bytes. Every operation below is used with
ASCII patterns only, so the byte view and the character view agree.

## Implementation notes

`fromUtf8` follows the documented contract of `str::from_utf8`: `validUpTo` is
the start of the first character that does not decode, and `errorLen` is absent
exactly when the input ends inside a character that could still be completed.
Machine words are natural numbers; `checkedAdd` and `parseU64` carry the word
bound where an operation of the standard library reports overflow.
-/

namespace OpenaiRs.Rust

section Members

variable {α : Type*} {p : α → Prop} [DecidablePred p]

/-- A condition on the members of a list is decided on the list, also where all of the type could be tried. -/
instance (priority := 2000) decidableForallMem (items : List α) : Decidable (∀ a ∈ items, p a) := List.decidableBAll p items

instance (priority := 2000) decidableExistsMem (items : List α) : Decidable (∃ a ∈ items, p a) := List.decidableBEx p items

instance (priority := 2000) decidableForallMemOption (found : Option α) : Decidable (∀ a ∈ found, p a) :=
  match found with
  | none => .isTrue fun _ h => nomatch h
  | some a => decidable_of_iff (p a) (by simp)

end Members

/-- The bytes of a `[u8]` slice or of a `str`. -/
abbrev Bytes := List UInt8

/-- The UTF-8 bytes of a string literal. -/
def utf8 (s : String) : Bytes := s.toUTF8.data.toList

def lf : UInt8 := 0x0A
def cr : UInt8 := 0x0D
def colon : UInt8 := 0x3A
def space : UInt8 := 0x20
def nul : UInt8 := 0x00

/-- The contents of a `Utf8Error`. -/
structure Utf8Error where
  validUpTo : Nat
  errorLen : Option Nat
  deriving DecidableEq, Repr

/-- A continuation byte, `(byte as i8) < -64` in the validator. -/
def isContinuation (b : UInt8) : Bool := 0x80 ≤ b && b ≤ 0xBF

/-- The length announced by a first byte at or above `0x80`, zero for an invalid one. -/
def utf8CharWidth (b : UInt8) : Nat :=
  if 0xC2 ≤ b && b ≤ 0xDF then 2
  else if 0xE0 ≤ b && b ≤ 0xEF then 3
  else if 0xF0 ≤ b && b ≤ 0xF4 then 4
  else 0

/-- The second byte of a three-byte character excludes overlong forms and surrogates. -/
def secondOfThree (first second : UInt8) : Bool :=
  if first = 0xE0 then 0xA0 ≤ second && second ≤ 0xBF
  else if first = 0xED then 0x80 ≤ second && second ≤ 0x9F
  else isContinuation second

/-- The second byte of a four-byte character excludes overlong forms and values past `U+10FFFF`. -/
def secondOfFour (first second : UInt8) : Bool :=
  if first = 0xF0 then 0x90 ≤ second && second ≤ 0xBF
  else if first = 0xF4 then 0x80 ≤ second && second ≤ 0x8F
  else isContinuation second

/-- Validate from a character boundary at `offset`; the first error met is returned. -/
def validateFrom (offset : Nat) : Bytes → Option Utf8Error
  | [] => none
  | b0 :: rest =>
      if b0 < 0x80 then validateFrom (offset + 1) rest
      else
        match utf8CharWidth b0, rest with
        | 2, [] => some ⟨offset, none⟩
        | 2, b1 :: rest =>
            if isContinuation b1 then validateFrom (offset + 2) rest
            else some ⟨offset, some 1⟩
        | 3, [] => some ⟨offset, none⟩
        | 3, b1 :: rest =>
            if secondOfThree b0 b1 then
              match rest with
              | [] => some ⟨offset, none⟩
              | b2 :: rest =>
                  if isContinuation b2 then validateFrom (offset + 3) rest
                  else some ⟨offset, some 2⟩
            else some ⟨offset, some 1⟩
        | 4, [] => some ⟨offset, none⟩
        | 4, b1 :: rest =>
            if secondOfFour b0 b1 then
              match rest with
              | [] => some ⟨offset, none⟩
              | b2 :: rest =>
                  if isContinuation b2 then
                    match rest with
                    | [] => some ⟨offset, none⟩
                    | b3 :: rest =>
                        if isContinuation b3 then validateFrom (offset + 4) rest
                        else some ⟨offset, some 3⟩
                  else some ⟨offset, some 2⟩
            else some ⟨offset, some 1⟩
        | _, _ => some ⟨offset, some 1⟩

/-- `str::from_utf8`: the same bytes, now known to be text. -/
def fromUtf8 (bytes : Bytes) : Except Utf8Error Bytes :=
  match validateFrom 0 bytes with
  | none => .ok bytes
  | some e => .error e

theorem fromUtf8_nil : fromUtf8 [] = .ok [] := rfl

/-- Validation returns its argument unchanged. -/
theorem eq_of_fromUtf8_ok {bytes line : Bytes} (h : fromUtf8 bytes = .ok line) :
    line = bytes := by
  unfold fromUtf8 at h
  split at h
  · exact (Except.ok.inj h).symm
  · cases h

/-- `str::split_once` for a one-byte separator: the parts around its first occurrence. -/
def splitOnce (separator : UInt8) : Bytes → Option (Bytes × Bytes)
  | [] => none
  | b :: rest =>
      if b = separator then some ([], rest)
      else (splitOnce separator rest).map fun parts => (b :: parts.1, parts.2)

/-- `str::strip_prefix` for a one-byte prefix. -/
def stripPrefix (expected : UInt8) : Bytes → Option Bytes
  | [] => none
  | b :: rest => if b = expected then some rest else none

/-- `usize::MAX + 1` on the supported 64-bit targets. -/
def usizeSize : Nat := UInt64.size

/-- `usize::checked_add`. -/
def checkedAdd (a b : Nat) : Option Nat :=
  if a + b < usizeSize then some (a + b) else none

/-- `usize::saturating_add`. -/
def saturatingAdd (a b : Nat) : Nat := min (a + b) (usizeSize - 1)

/-- Saturation does not matter below the largest word. -/
theorem saturatingAdd_gt_iff {a b maxBytes : Nat} (hmax : maxBytes < usizeSize - 1) :
    maxBytes < saturatingAdd a b ↔ maxBytes < a + b := by
  rw [saturatingAdd]
  omega

/-- A sum within a limit is exact. -/
theorem saturatingAdd_of_le {a b limit : Nat} (hlimit : limit < usizeSize - 1)
    (h : saturatingAdd a b ≤ limit) : saturatingAdd a b = a + b := by
  rw [saturatingAdd] at h ⊢
  omega

/-- Two checked additions fail exactly when the sum does not fit. -/
theorem checkedAdd_bind (a b c : Nat) :
    (checkedAdd a b).bind (fun len => checkedAdd len c) =
      if a + b + c < usizeSize then some (a + b + c) else none := by
  unfold checkedAdd
  by_cases hab : a + b < usizeSize
  · rw [if_pos hab, Option.bind_some]
  · have habc : ¬ a + b + c < usizeSize := by omega
    rw [if_neg hab, if_neg habc, Option.bind_none]

def isAsciiDigit (b : UInt8) : Bool := 0x30 ≤ b && b ≤ 0x39

/-- The value of a decimal digit string, most significant digit first. -/
def decimalValue (digits : Bytes) : Nat :=
  digits.foldl (fun value b => value * 10 + (b.toNat - 0x30)) 0

/-- `str::parse::<u64>`: one optional plus sign, at least one digit, no overflow. -/
def parseU64 (text : Bytes) : Option Nat :=
  let digits := (stripPrefix 0x2B text).getD text
  if digits.isEmpty || !digits.all isAsciiDigit then none
  else if decimalValue digits < UInt64.size then some (decimalValue digits) else none

/-- On digit strings parsing only checks the word bound. -/
theorem parseU64_digits {digits : Bytes} (hne : digits ≠ []) (h : digits.all isAsciiDigit = true) :
    parseU64 digits =
      if decimalValue digits < UInt64.size then some (decimalValue digits) else none := by
  have hsign : (stripPrefix 0x2B digits).getD digits = digits := by
    cases digits with
    | nil => rfl
    | cons b rest =>
        have hdigit : isAsciiDigit b = true := by
          simp only [List.all_cons, Bool.and_eq_true] at h
          exact h.1
        have hb : b ≠ 0x2B := by
          rintro rfl
          simp [isAsciiDigit] at hdigit
        simp [stripPrefix, hb]
  have hempty : digits.isEmpty = false := by simpa using hne
  simp only [parseU64, hsign, h, hempty, Bool.not_true, Bool.or_self, Bool.false_eq_true,
    if_false]

/-- A `std::time::Duration`, counted in nanoseconds. -/
structure Duration where
  nanos : Nat
  deriving DecidableEq, Repr

/-- `Duration::from_millis`. -/
def Duration.fromMillis (milliseconds : Nat) : Duration := ⟨milliseconds * 1000000⟩

/-- The loop of `slice::chunks`; `fuel` bounds the number of pieces. -/
def chunksLoop {α : Type*} (size : Nat) : Nat → List α → List (List α)
  | 0, _ => []
  | _ + 1, [] => []
  | fuel + 1, x :: xs =>
      (x :: xs).take size :: chunksLoop size fuel ((x :: xs).drop size)

/-- `slice::chunks`: consecutive pieces of `size` elements, the last one possibly shorter. -/
def chunks {α : Type*} (size : Nat) (items : List α) : List (List α) :=
  chunksLoop size items.length items

theorem chunksLoop_flatten {α : Type*} {size : Nat} (hsize : 0 < size) (fuel : Nat)
    (items : List α) (hfuel : items.length ≤ fuel) :
    (chunksLoop size fuel items).flatten = items := by
  induction fuel generalizing items with
  | zero =>
      have hnil : items = [] := List.length_eq_zero_iff.mp (Nat.le_zero.mp hfuel)
      simp [chunksLoop, hnil]
  | succ fuel ih =>
      cases items with
      | nil => simp [chunksLoop]
      | cons x xs =>
          have hdrop : ((x :: xs).drop size).length ≤ fuel := by
            simp only [List.length_drop, List.length_cons] at hfuel ⊢
            omega
          simp only [chunksLoop, List.flatten_cons, ih _ hdrop, List.take_append_drop]

/-- Cutting into pieces loses nothing and reorders nothing. -/
theorem chunks_flatten {α : Type*} {size : Nat} (hsize : 0 < size) (items : List α) :
    (chunks size items).flatten = items :=
  chunksLoop_flatten hsize items.length items (Nat.le_refl _)

theorem chunksLoop_ne_nil {α : Type*} {size : Nat} (hsize : 0 < size) (fuel : Nat)
    (items : List α) : ∀ piece ∈ chunksLoop size fuel items, piece ≠ [] := by
  induction fuel generalizing items with
  | zero => simp [chunksLoop]
  | succ fuel ih =>
      cases items with
      | nil => simp [chunksLoop]
      | cons x xs =>
          intro piece hpiece
          obtain rfl | hrest := List.mem_cons.mp hpiece
          · obtain ⟨size, rfl⟩ : ∃ k, size = k + 1 := ⟨size - 1, by omega⟩
            simp
          · exact ih _ piece hrest

/-- No piece is empty. -/
theorem chunks_ne_nil {α : Type*} {size : Nat} (hsize : 0 < size) (items : List α) :
    ∀ piece ∈ chunks size items, piece ≠ [] :=
  chunksLoop_ne_nil hsize items.length items

end OpenaiRs.Rust
