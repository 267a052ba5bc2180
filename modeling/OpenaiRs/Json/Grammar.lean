import OpenaiRs.Rust.Str

/-!
# JSON texts

The grammar of RFC 8259 over bytes, and a scanner that only knows strings, escapes and the
fractions of numbers. Every text of the grammar is scanned to its end; from there follow the
lexical facts about texts that do not depend on how values nest: no backslash outside of a
string, no number with two points, and no text that is read from within a string.

## Implementation notes

A byte from `0x80` on belongs to a character beyond ASCII and is an unescaped byte of a
string. Whether such bytes are well-formed UTF-8 is not part of the grammar here.
-/

namespace OpenaiRs.Json

open Rust

section Grammar

def quote : UInt8 := 0x22
def backslash : UInt8 := 0x5C
def point : UInt8 := 0x2E
def comma : UInt8 := 0x2C
def beginObject : UInt8 := 0x7B
def endObject : UInt8 := 0x7D
def beginArray : UInt8 := 0x5B
def endArray : UInt8 := 0x5D

/-- `ws`: space, horizontal tab, line feed or carriage return. -/
def isWs (b : UInt8) : Bool := b = 0x20 || b = 0x09 || b = 0x0A || b = 0x0D

def Ws (bytes : Bytes) : Prop := ∀ b ∈ bytes, isWs b = true

/-- At least one digit. -/
def Digits (bytes : Bytes) : Prop := bytes ≠ [] ∧ ∀ b ∈ bytes, isAsciiDigit b = true

/-- `int`: zero, or digits that do not begin with zero. -/
def Integer (bytes : Bytes) : Prop := Digits bytes ∧ (bytes.head? = some 0x30 → bytes = [0x30])

/-- `frac`: a decimal point and digits. -/
inductive Fraction : Bytes → Prop
  | none : Fraction []
  | some (digits : Bytes) : Digits digits → Fraction (point :: digits)

def isExponentMark (b : UInt8) : Bool := b = 0x65 || b = 0x45

def isSign (b : UInt8) : Bool := b = 0x2B || b = 0x2D

/-- `exp`: `e` or `E`, an optional sign and digits. -/
inductive Exponent : Bytes → Prop
  | none : Exponent []
  | unsigned (mark : UInt8) (digits : Bytes) : isExponentMark mark = true → Digits digits →
      Exponent (mark :: digits)
  | signed (mark sign : UInt8) (digits : Bytes) : isExponentMark mark = true → isSign sign = true →
      Digits digits → Exponent (mark :: sign :: digits)

inductive Number : Bytes → Prop
  | positive (int frac exp : Bytes) : Integer int → Fraction frac → Exponent exp →
      Number (int ++ (frac ++ exp))
  | negative (int frac exp : Bytes) : Integer int → Fraction frac → Exponent exp →
      Number (0x2D :: (int ++ (frac ++ exp)))

def isUnescaped (b : UInt8) : Bool := 0x20 ≤ b && b ≠ quote && b ≠ backslash

/-- The bytes that follow a backslash, `u` apart. -/
def isEscapable (b : UInt8) : Bool :=
  [quote, backslash, 0x2F, 0x62, 0x66, 0x6E, 0x72, 0x74].contains b

def isHexDigit (b : UInt8) : Bool :=
  isAsciiDigit b || (0x41 ≤ b && b ≤ 0x46) || (0x61 ≤ b && b ≤ 0x66)

/-- What stands between the quotation marks of a string. -/
inductive Chars : Bytes → Prop
  | nil : Chars []
  | unescaped (b : UInt8) (rest : Bytes) : isUnescaped b = true → Chars rest → Chars (b :: rest)
  | escape (b : UInt8) (rest : Bytes) : isEscapable b = true → Chars rest →
      Chars (backslash :: b :: rest)
  | unicode (hex rest : Bytes) : hex.length = 4 → (∀ b ∈ hex, isHexDigit b = true) → Chars rest →
      Chars (backslash :: 0x75 :: (hex ++ rest))

inductive Str : Bytes → Prop
  | mk (chars : Bytes) : Chars chars → Str (quote :: (chars ++ [quote]))

mutual

inductive Value : Bytes → Prop
  | null : Value [0x6E, 0x75, 0x6C, 0x6C]
  | true : Value [0x74, 0x72, 0x75, 0x65]
  | false : Value [0x66, 0x61, 0x6C, 0x73, 0x65]
  | number (bytes : Bytes) : Number bytes → Value bytes
  | string (bytes : Bytes) : Str bytes → Value bytes
  | array (bytes : Bytes) : Arr bytes → Value bytes
  | object (bytes : Bytes) : Object bytes → Value bytes

/-- A value with white space around it. -/
inductive Padded : Bytes → Prop
  | mk (before value after : Bytes) : Ws before → Value value → Ws after →
      Padded (before ++ (value ++ after))

inductive Arr : Bytes → Prop
  | empty (ws : Bytes) : Ws ws → Arr (beginArray :: (ws ++ [endArray]))
  | items (items : Bytes) : Items items → Arr (beginArray :: (items ++ [endArray]))

/-- Values between commas. -/
inductive Items : Bytes → Prop
  | one (value : Bytes) : Padded value → Items value
  | cons (value rest : Bytes) : Padded value → Items rest → Items (value ++ comma :: rest)

inductive Object : Bytes → Prop
  | empty (ws : Bytes) : Ws ws → Object (beginObject :: (ws ++ [endObject]))
  | members (members : Bytes) : Members members → Object (beginObject :: (members ++ [endObject]))

/-- Members between commas: a name, a colon and a value, with white space around them. -/
inductive Members : Bytes → Prop
  | one (before name after value : Bytes) : Ws before → Str name → Ws after → Padded value →
      Members (before ++ (name ++ (after ++ colon :: value)))
  | cons (before name after value rest : Bytes) : Ws before → Str name → Ws after → Padded value →
      Members rest → Members (before ++ (name ++ (after ++ colon :: (value ++ comma :: rest))))

end

/-- A JSON text that is an object. -/
inductive ObjectText : Bytes → Prop
  | mk (before object after : Bytes) : Ws before → Object object → Ws after →
      ObjectText (before ++ (object ++ after))

end Grammar

section Scanner

/-- Where a byte stands: outside of strings, behind the decimal point of a number, inside of a
string, or behind a backslash in a string. -/
inductive Mode where
  | outside
  | fraction
  | inside
  | escaped
  deriving DecidableEq

/-- One byte. Backslashes outside of strings and second decimal points are refused. -/
def Mode.step : Mode → UInt8 → Option Mode
  | outside, b =>
      if b = quote then some inside
      else if b = backslash then none
      else if b = point then some fraction
      else some outside
  | fraction, b =>
      if b = quote then some inside
      else if b = backslash ∨ b = point then none
      else if isAsciiDigit b then some fraction
      else some outside
  | inside, b =>
      if b = quote then some outside
      else if b = backslash then some escaped
      else some inside
  | escaped, _ => some inside

def scan (mode : Mode) (bytes : Bytes) : Option Mode := bytes.foldlM Mode.step mode

@[simp] theorem scan_nil (mode : Mode) : scan mode [] = some mode := rfl

theorem scan_cons (mode : Mode) (b : UInt8) (rest : Bytes) :
    scan mode (b :: rest) = (mode.step b).bind fun next => scan next rest := rfl

theorem scan_append (mode : Mode) (bytes rest : Bytes) :
    scan mode (bytes ++ rest) = (scan mode bytes).bind fun next => scan next rest :=
  List.foldlM_append

/-- A byte that means nothing outside of strings. -/
def Neutral (b : UInt8) : Prop := b ≠ quote ∧ b ≠ backslash ∧ b ≠ point

/-- A byte of this class is not one of finitely many others. -/
theorem neutral_of_class {p : UInt8 → Bool} (hquote : p quote = false)
    (hbackslash : p backslash = false) (hpoint : p point = false) {b : UInt8} (h : p b = true) :
    Neutral b := by
  refine ⟨?_, ?_, ?_⟩ <;> rintro rfl <;> simp_all

theorem neutral_ws {b : UInt8} (h : isWs b = true) : Neutral b :=
  neutral_of_class rfl rfl rfl h

theorem neutral_digit {b : UInt8} (h : isAsciiDigit b = true) : Neutral b :=
  neutral_of_class rfl rfl rfl h

theorem step_outside {b : UInt8} (h : Neutral b) : Mode.outside.step b = some .outside := by
  simp [Mode.step, h.1, h.2.1, h.2.2]

/-- A byte that ends a number. -/
theorem step_fraction {b : UInt8} (h : Neutral b) (hdigit : isAsciiDigit b = false) :
    Mode.fraction.step b = some .outside := by
  simp [Mode.step, h.1, h.2.1, h.2.2, hdigit]

theorem scan_outside {bytes : Bytes} (h : ∀ b ∈ bytes, Neutral b) :
    scan .outside bytes = some .outside := by
  induction bytes with
  | nil => rfl
  | cons b rest ih =>
      rw [scan_cons, step_outside (h b (.head _)), Option.bind_some,
        ih fun other hmem => h other (.tail _ hmem)]

theorem scan_ws_append {ws : Bytes} (h : Ws ws) (rest : Bytes) :
    scan .outside (ws ++ rest) = scan .outside rest := by
  rw [scan_append, scan_outside fun b hmem => neutral_ws (h b hmem), Option.bind_some]

theorem scan_cons_neutral {b : UInt8} (h : Neutral b) (rest : Bytes) :
    scan .outside (b :: rest) = scan .outside rest := by
  rw [scan_cons, step_outside h, Option.bind_some]

end Scanner

section Texts

/-- A piece of text that ends outside of strings; its last number may still go on. -/
def Ends (bytes : Bytes) : Prop :=
  scan .outside bytes = some .outside ∨ scan .outside bytes = some .fraction

/-- A byte that ends a number closes a piece. -/
theorem Ends.scan_close {bytes : Bytes} (h : Ends bytes) {b : UInt8} (hb : Neutral b)
    (hdigit : isAsciiDigit b = false) (rest : Bytes) :
    scan .outside (bytes ++ b :: rest) = scan .outside rest := by
  rw [scan_append]
  obtain h | h := h
  · rw [h, Option.bind_some, scan_cons_neutral hb]
  · rw [h, Option.bind_some, scan_cons, step_fraction hb hdigit, Option.bind_some]

theorem not_digit_ws {b : UInt8} (h : isWs b = true) : isAsciiDigit b = false := by
  simp only [isWs, Bool.or_eq_true, decide_eq_true_eq] at h
  rcases h with ((rfl | rfl) | rfl) | rfl <;> rfl

theorem Ends.append_ws {bytes ws : Bytes} (h : Ends bytes) (hws : Ws ws) : Ends (bytes ++ ws) := by
  cases ws with
  | nil => rwa [List.append_nil]
  | cons b rest =>
      have hb := hws b (.head _)
      left
      rw [h.scan_close (neutral_ws hb) (not_digit_ws hb)]
      exact scan_outside fun other hmem => neutral_ws (hws other (.tail _ hmem))

theorem scan_digits_fraction {digits : Bytes} (h : ∀ b ∈ digits, isAsciiDigit b = true) :
    scan .fraction digits = some .fraction := by
  induction digits with
  | nil => rfl
  | cons b rest ih =>
      have hdigit := h b (.head _)
      have hb := neutral_digit hdigit
      rw [scan_cons, Mode.step, if_neg hb.1, if_neg (not_or.mpr ⟨hb.2.1, hb.2.2⟩), if_pos hdigit,
        Option.bind_some, ih fun other hmem => h other (.tail _ hmem)]

theorem Fraction.ends {bytes : Bytes} (h : Fraction bytes) : Ends bytes := by
  cases h with
  | none => exact .inl rfl
  | some digits hdigits => exact .inr (scan_digits_fraction hdigits.2)

theorem Exponent.scan_append {bytes before : Bytes} (h : Exponent bytes) (hbefore : Ends before) :
    Ends (before ++ bytes) := by
  have hmark : ∀ mark, isExponentMark mark = true → isAsciiDigit mark = false := by
    intro mark h
    simp only [isExponentMark, Bool.or_eq_true, decide_eq_true_eq] at h
    rcases h with rfl | rfl <;> rfl
  cases h with
  | none => rwa [List.append_nil]
  | unsigned mark digits he hdigits =>
      left
      rw [hbefore.scan_close (neutral_of_class rfl rfl rfl he) (hmark mark he)]
      exact scan_outside fun b hmem => neutral_digit (hdigits.2 b hmem)
  | signed mark sign digits he hsign hdigits =>
      left
      rw [hbefore.scan_close (neutral_of_class rfl rfl rfl he) (hmark mark he),
        scan_cons_neutral (neutral_of_class rfl rfl rfl hsign)]
      exact scan_outside fun b hmem => neutral_digit (hdigits.2 b hmem)

theorem Ends.digits_append {digits rest : Bytes} (hdigits : Digits digits) (h : Ends rest) :
    Ends (digits ++ rest) := by
  rw [Ends, scan_append, scan_outside fun b hmem => neutral_digit (hdigits.2 b hmem)]
  exact h

theorem Number.ends {bytes : Bytes} (h : Number bytes) : Ends bytes := by
  cases h with
  | positive int frac exp hint hfrac hexp =>
      exact .digits_append hint.1 (hexp.scan_append hfrac.ends)
  | negative int frac exp hint hfrac hexp =>
      rw [Ends, scan_cons_neutral ⟨by decide, by decide, by decide⟩]
      exact Ends.digits_append hint.1 (hexp.scan_append hfrac.ends)

theorem scan_inside {bytes : Bytes} (h : ∀ b ∈ bytes, b ≠ quote ∧ b ≠ backslash) :
    scan .inside bytes = some .inside := by
  induction bytes with
  | nil => rfl
  | cons b rest ih =>
      have hb := h b (.head _)
      rw [scan_cons, Mode.step, if_neg hb.1, if_neg hb.2, Option.bind_some,
        ih fun other hmem => h other (.tail _ hmem)]

theorem Chars.scan_inside {bytes : Bytes} (h : Chars bytes) : scan .inside bytes = some .inside := by
  induction h with
  | nil => rfl
  | unescaped b rest hb _ ih =>
      have hquote : b ≠ quote := by rintro rfl; exact absurd hb (by decide)
      have hbackslash : b ≠ backslash := by rintro rfl; exact absurd hb (by decide)
      rw [scan_cons, Mode.step, if_neg hquote, if_neg hbackslash]
      exact ih
  | escape b rest _ _ ih => exact ih
  | unicode hex rest _ hhex _ ih =>
      have hplain : ∀ b ∈ hex, b ≠ quote ∧ b ≠ backslash := fun b hmem =>
        ⟨by rintro rfl; exact absurd (hhex _ hmem) (by decide),
          by rintro rfl; exact absurd (hhex _ hmem) (by decide)⟩
      change scan .inside (hex ++ rest) = _
      rw [scan_append, Json.scan_inside hplain]
      exact ih

theorem Str.scan_append {bytes : Bytes} (h : Str bytes) (rest : Bytes) :
    scan .outside (bytes ++ rest) = scan .outside rest := by
  obtain ⟨chars, hchars⟩ := h
  have hstring : scan .outside (quote :: (chars ++ [quote])) = some .outside := by
    change scan .inside (chars ++ [quote]) = _
    rw [Json.scan_append, hchars.scan_inside]
    rfl
  rw [Json.scan_append, hstring, Option.bind_some]

theorem Str.ends {bytes : Bytes} (h : Str bytes) : Ends bytes := by
  left
  simpa using h.scan_append []

theorem neutral_comma : Neutral comma := ⟨by decide, by decide, by decide⟩
theorem neutral_colon : Neutral colon := ⟨by decide, by decide, by decide⟩
theorem neutral_beginObject : Neutral beginObject := ⟨by decide, by decide, by decide⟩
theorem neutral_endObject : Neutral endObject := ⟨by decide, by decide, by decide⟩
theorem neutral_beginArray : Neutral beginArray := ⟨by decide, by decide, by decide⟩
theorem neutral_endArray : Neutral endArray := ⟨by decide, by decide, by decide⟩

mutual

theorem Value.ends {bytes : Bytes} : Value bytes → Ends bytes
  | .null => .inl rfl
  | .true => .inl rfl
  | .false => .inl rfl
  | .number _ h => h.ends
  | .string _ h => h.ends
  | .array _ h => .inl h.scan_outside
  | .object _ h => .inl h.scan_outside

theorem Padded.ends {bytes : Bytes} : Padded bytes → Ends bytes
  | .mk before value after hbefore hvalue hafter => by
      rw [Ends, scan_ws_append hbefore]
      exact hvalue.ends.append_ws hafter

theorem Arr.scan_outside {bytes : Bytes} : Arr bytes → scan .outside bytes = some .outside
  | .empty ws hws => by
      rw [scan_cons_neutral neutral_beginArray, scan_ws_append hws,
        scan_cons_neutral neutral_endArray, scan_nil]
  | .items items hitems => by
      rw [scan_cons_neutral neutral_beginArray, hitems.ends.scan_close neutral_endArray rfl, scan_nil]

theorem Items.ends {bytes : Bytes} : Items bytes → Ends bytes
  | .one value hvalue => hvalue.ends
  | .cons value rest hvalue hrest => by
      rw [Ends, hvalue.ends.scan_close neutral_comma rfl]
      exact hrest.ends

theorem Object.scan_outside {bytes : Bytes} : Object bytes → scan .outside bytes = some .outside
  | .empty ws hws => by
      rw [scan_cons_neutral neutral_beginObject, scan_ws_append hws,
        scan_cons_neutral neutral_endObject, scan_nil]
  | .members members hmembers => by
      rw [scan_cons_neutral neutral_beginObject, hmembers.ends.scan_close neutral_endObject rfl,
        scan_nil]

theorem Members.ends {bytes : Bytes} : Members bytes → Ends bytes
  | .one before name after value hbefore hname hafter hvalue => by
      rw [Ends, scan_ws_append hbefore, hname.scan_append, scan_ws_append hafter,
        scan_cons_neutral neutral_colon]
      exact hvalue.ends
  | .cons before name after value rest hbefore hname hafter hvalue hrest => by
      rw [Ends, scan_ws_append hbefore, hname.scan_append, scan_ws_append hafter,
        scan_cons_neutral neutral_colon, hvalue.ends.scan_close neutral_comma rfl]
      exact hrest.ends

end

theorem ObjectText.scan_outside {bytes : Bytes} (h : ObjectText bytes) :
    scan .outside bytes = some .outside := by
  obtain ⟨before, object, after, hbefore, hobject, hafter⟩ := h
  rw [scan_ws_append hbefore, scan_append, hobject.scan_outside, Option.bind_some]
  exact Json.scan_outside fun b hmem => neutral_ws (hafter b hmem)

end Texts

end OpenaiRs.Json
