import OpenaiRs.Rust.Str

/-!
# Lossy decoding

`String::from_utf8_lossy`: the characters of a byte string, with U+FFFD for each maximal part that is not
UTF-8. What such a part is follows from the validator: the bytes of a character up to the first that
cannot continue it.
-/

namespace OpenaiRs.Rust

/-- `char::REPLACEMENT_CHARACTER`. -/
def replacementCharacter : Char := Char.ofNat 0xFFFD

/-- The six bits that a continuation byte carries. -/
def continuationBits (b : UInt8) : ℕ := b.toNat % 64

def charOfTwo (b0 b1 : UInt8) : Char := Char.ofNat (b0.toNat % 32 * 64 + continuationBits b1)

def charOfThree (b0 b1 b2 : UInt8) : Char :=
  Char.ofNat ((b0.toNat % 16 * 64 + continuationBits b1) * 64 + continuationBits b2)

def charOfFour (b0 b1 b2 b3 : UInt8) : Char :=
  Char.ofNat (((b0.toNat % 8 * 64 + continuationBits b1) * 64 + continuationBits b2) * 64 +
    continuationBits b3)

/-- `String::from_utf8_lossy`. -/
def fromUtf8Lossy : Bytes → List Char
  | [] => []
  | b0 :: rest =>
      if b0 < 0x80 then Char.ofNat b0.toNat :: fromUtf8Lossy rest
      else
        match utf8CharWidth b0, rest with
        | 2, b1 :: rest =>
            if isContinuation b1 then charOfTwo b0 b1 :: fromUtf8Lossy rest
            else replacementCharacter :: fromUtf8Lossy (b1 :: rest)
        | 3, b1 :: rest =>
            if secondOfThree b0 b1 then
              match rest with
              | [] => [replacementCharacter]
              | b2 :: rest =>
                  if isContinuation b2 then charOfThree b0 b1 b2 :: fromUtf8Lossy rest
                  else replacementCharacter :: fromUtf8Lossy (b2 :: rest)
            else replacementCharacter :: fromUtf8Lossy (b1 :: rest)
        | 4, b1 :: rest =>
            if secondOfFour b0 b1 then
              match rest with
              | [] => [replacementCharacter]
              | b2 :: rest =>
                  if isContinuation b2 then
                    match rest with
                    | [] => [replacementCharacter]
                    | b3 :: rest =>
                        if isContinuation b3 then charOfFour b0 b1 b2 b3 :: fromUtf8Lossy rest
                        else replacementCharacter :: fromUtf8Lossy (b3 :: rest)
                  else replacementCharacter :: fromUtf8Lossy (b2 :: rest)
            else replacementCharacter :: fromUtf8Lossy (b1 :: rest)
        | _, rest => replacementCharacter :: fromUtf8Lossy rest
termination_by bytes => bytes.length
decreasing_by all_goals grind

theorem toNat_ascii {b : UInt8} (h : b < 0x80) : (Char.ofNat b.toNat).toNat = b.toNat := by
  have hvalid : b.toNat.isValidChar := by
    left
    have hlt : b.toNat < 128 := UInt8.lt_iff_toNat_lt.mp h
    omega
  rw [Char.ofNat, dif_pos hvalid]
  rfl

theorem utf8Size_ascii {b : UInt8} (h : b < 0x80) : (Char.ofNat b.toNat).utf8Size = 1 := by
  rw [Char.utf8Size_eq_one_iff, UInt32.le_iff_toNat_le]
  have hlt : b.toNat < 128 := UInt8.lt_iff_toNat_lt.mp h
  have hchar : (Char.ofNat b.toNat).val.toNat = b.toNat := toNat_ascii h
  rw [hchar]
  exact Nat.le_of_lt_succ hlt

/-- Texts of ASCII bytes differ where the bytes do. -/
theorem ascii_injective {bytes bytes' : Bytes} (h : ∀ b ∈ bytes, b < 0x80) (h' : ∀ b ∈ bytes', b < 0x80)
    (heq : (bytes.map fun b => Char.ofNat b.toNat) = bytes'.map fun b => Char.ofNat b.toNat) : bytes = bytes' := by
  induction bytes generalizing bytes' with
  | nil => exact (List.map_eq_nil_iff.mp heq.symm).symm
  | cons b rest ih =>
      cases bytes' with
      | nil => cases heq
      | cons b' rest' =>
          obtain ⟨hb, hrest⟩ := List.cons.inj heq
          have hchar : Char.ofNat b.toNat = Char.ofNat b'.toNat := hb
          have hsame : b = b' := by
            apply UInt8.toNat.inj
            rw [← toNat_ascii (h b List.mem_cons_self), hchar, toNat_ascii (h' b' List.mem_cons_self)]
          rw [hsame, ih (fun b hb => h b (List.mem_cons_of_mem _ hb)) (fun b hb => h' b (List.mem_cons_of_mem _ hb)) hrest]

/-- ASCII text is decoded byte by byte. -/
theorem fromUtf8Lossy_ascii {bytes : Bytes} (h : ∀ b ∈ bytes, b < 0x80) :
    fromUtf8Lossy bytes = bytes.map fun b => Char.ofNat b.toNat := by
  induction bytes with
  | nil => rw [fromUtf8Lossy, List.map_nil]
  | cons b rest ih =>
      have hrest := ih fun b hb => h b (List.mem_cons_of_mem _ hb)
      rw [fromUtf8Lossy.eq_def]
      dsimp only
      rw [if_pos (h b List.mem_cons_self), hrest, List.map_cons]

/-- An ASCII byte does not continue a character. -/
theorem isContinuation_of_ascii {b : UInt8} (h : b < 0x80) : isContinuation b = false := by
  rw [isContinuation, Bool.and_eq_false_iff, decide_eq_false_iff_not]
  exact Or.inl (UInt8.not_le.mpr h)

theorem second_of_ascii {b : UInt8} (h : b < 0x80) (b0 : UInt8) :
    secondOfThree b0 b = false ∧ secondOfFour b0 b = false := by
  have hcont := isContinuation_of_ascii h
  have hlow : ∀ low : UInt8, 0x80 ≤ low → ¬ low ≤ b := fun low hle hb =>
    UInt8.lt_irrefl b (UInt8.lt_of_lt_of_le h (UInt8.le_trans hle hb))
  rw [secondOfThree, secondOfFour]
  split_ifs <;> simp [hcont, hlow]

theorem fromUtf8Lossy_cons_ascii {b : UInt8} (h : b < 0x80) (rest : Bytes) :
    fromUtf8Lossy (b :: rest) = Char.ofNat b.toNat :: fromUtf8Lossy rest := by
  rw [fromUtf8Lossy.eq_def]
  dsimp only
  rw [if_pos h]

/-- An ASCII byte ends the character before it. -/
theorem fromUtf8Lossy_append_ascii {b : UInt8} (h : b < 0x80) (head rest : Bytes) :
    fromUtf8Lossy (head ++ b :: rest) = fromUtf8Lossy head ++ Char.ofNat b.toNat :: fromUtf8Lossy rest := by
  have hcont := isContinuation_of_ascii h
  have hsecond := second_of_ascii h
  have hascii := fromUtf8Lossy_cons_ascii h rest
  fun_induction fromUtf8Lossy head
  case case1 => exact hascii
  case case15 b0 hhigh tail htwo hthree hfour ih =>
    -- No character was begun, or the first byte is the last one.
    rw [List.cons_append, fromUtf8Lossy.eq_def]
    dsimp only
    rw [if_neg hhigh]
    cases tail with
    | nil =>
        simp only [List.nil_append] at ih ⊢
        split <;> simp_all
    | cons b1 more =>
        split
        · exact absurd rfl (htwo b1 more ‹_›)
        all_goals simp_all
  all_goals
    rw [List.cons_append, fromUtf8Lossy.eq_def]
    dsimp only
    simp only [*, List.cons_append, List.nil_append, ↓reduceIte, Bool.false_eq_true]
  all_goals exact congrArg (List.cons replacementCharacter) ‹_›
end OpenaiRs.Rust
