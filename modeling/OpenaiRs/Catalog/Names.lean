import Mathlib.Data.List.DropRight
import OpenaiRs.Rust.Str

/-!
# Function names of a tool catalog

`is_valid_function_name` and `mapped_name` of `openai-rs-rmcp/src/catalog.rs`. SHA-256 is the
parameter `sha256`.
-/

namespace OpenaiRs.Catalog

open Rust

section Names

def maxFunctionToolNameChars : Nat := 128
def maxFunctionNameBytes : Nat := maxFunctionToolNameChars
def hashBytes : Nat := 8
def hashHexBytes : Nat := hashBytes * 2
def hashSeparatorBytes : Nat := 2
def maxMappedPrefixBytes : Nat := maxFunctionNameBytes - hashSeparatorBytes - hashHexBytes

def underscore : UInt8 := 0x5F
def hyphen : UInt8 := 0x2D

def isAsciiAlphanumeric (b : UInt8) : Bool :=
  isAsciiDigit b || (0x41 ≤ b && b ≤ 0x5A) || (0x61 ≤ b && b ≤ 0x7A)

def isNameByte (b : UInt8) : Bool := isAsciiAlphanumeric b || b = underscore || b = hyphen

def isValidFunctionName (name : Bytes) : Bool :=
  !name.isEmpty && name.length ≤ maxFunctionNameBytes && name.all isNameByte

/-- A byte that no name contains becomes an underscore. -/
def mappedByte (byte : UInt8) : UInt8 := if isNameByte byte then byte else underscore

/-- The loop of `mapped_name` over the bytes of the original name. -/
def mappedPrefix (mappedSoFar : Bytes) (previousWasSeparator : Bool) : Bytes → Bytes
  | [] => mappedSoFar
  | byte :: rest =>
      if mappedByte byte = underscore ∧ previousWasSeparator then
        mappedPrefix mappedSoFar previousWasSeparator rest
      else if mappedSoFar.length = maxMappedPrefixBytes then mappedSoFar
      else mappedPrefix (mappedSoFar ++ [mappedByte byte]) (mappedByte byte = underscore) rest

/-- `str::trim_matches`, for one-byte characters. -/
def trimMatches (p : UInt8 → Bool) (text : Bytes) : Bytes := (text.dropWhile p).rdropWhile p

/-- `u64::to_be_bytes`. -/
def toBeBytes (n : UInt64) : Bytes :=
  [(n >>> 56).toUInt8, (n >>> 48).toUInt8, (n >>> 40).toUInt8, (n >>> 32).toUInt8, (n >>> 24).toUInt8,
    (n >>> 16).toUInt8, (n >>> 8).toUInt8, n.toUInt8]

def hexDigit (n : Nat) : UInt8 := if n < 10 then 0x30 + n.toUInt8 else 0x57 + n.toUInt8

/-- A byte in the format `02x`. -/
def lowerHex (b : UInt8) : Bytes := [hexDigit (b.toNat / 16), hexDigit (b.toNat % 16)]

variable (sha256 : Bytes → Vector UInt8 32)

def mappedName (original : Bytes) (nonce : UInt64) : Bytes :=
  let trimmed := trimMatches (fun b => b = underscore || b = hyphen) (mappedPrefix [] false original)
  let front := if trimmed.isEmpty then utf8 "mcp_tool" else trimmed
  let digest := sha256 (original ++ toBeBytes nonce)
  front ++ utf8 "__" ++ (digest.toList.take hashBytes).flatMap lowerHex

end Names

section Validity

/-- What the Responses API takes as the name of a function. -/
structure IsFunctionName (name : Bytes) : Prop where
  nonempty : 1 ≤ name.length
  length_le : name.length ≤ 128
  bytes : ∀ b ∈ name, isAsciiAlphanumeric b = true ∨ b = underscore ∨ b = hyphen

variable {name : Bytes} {b c : UInt8} {sha256 : Bytes → Vector UInt8 32}

theorem isNameByte_iff : isNameByte b = true ↔ isAsciiAlphanumeric b = true ∨ b = underscore ∨ b = hyphen := by
  simp [isNameByte, or_assoc]

theorem isValidFunctionName_iff : isValidFunctionName name = true ↔ IsFunctionName name := by
  rw [isValidFunctionName, Bool.and_eq_true, Bool.and_eq_true, List.all_eq_true]
  constructor
  · rintro ⟨⟨hne, hle⟩, hbytes⟩
    exact {
      nonempty := by
        cases name with
        | nil => cases hne
        | cons b rest => exact Nat.succ_le_succ (Nat.zero_le _)
      length_le := of_decide_eq_true hle
      bytes := fun b hmem => isNameByte_iff.mp (hbytes b hmem) }
  · intro hname
    refine ⟨⟨?_, decide_eq_true hname.length_le⟩, fun b hmem => isNameByte_iff.mpr (hname.bytes b hmem)⟩
    cases name with
    | nil => exact absurd hname.nonempty (Nat.not_succ_le_zero 0)
    | cons b rest => rfl

theorem isNameByte_mappedByte (byte : UInt8) : isNameByte (mappedByte byte) = true := by
  rw [mappedByte]
  split
  · assumption
  · rfl

/-- The bytes of the prefix are those of a name, and they fit. -/
theorem mappedPrefix_spec (mappedSoFar : Bytes) (previousWasSeparator : Bool) (original : Bytes)
    (hlength : mappedSoFar.length ≤ maxMappedPrefixBytes) (hbytes : ∀ b ∈ mappedSoFar, isNameByte b = true) :
    (mappedPrefix mappedSoFar previousWasSeparator original).length ≤ maxMappedPrefixBytes ∧
      ∀ b ∈ mappedPrefix mappedSoFar previousWasSeparator original, isNameByte b = true := by
  induction original generalizing mappedSoFar previousWasSeparator with
  | nil => exact ⟨hlength, hbytes⟩
  | cons byte rest ih =>
      rw [mappedPrefix]
      split
      · exact ih mappedSoFar previousWasSeparator hlength hbytes
      · split
        · exact ⟨hlength, hbytes⟩
        · rename_i hfull
          apply ih
          · rw [List.length_append, List.length_singleton]
            omega
          · intro b hmem
            obtain hold | hnew := List.mem_append.mp hmem
            · exact hbytes b hold
            · rw [List.mem_singleton.mp hnew]
              exact isNameByte_mappedByte byte

theorem trimMatches_sublist (p : UInt8 → Bool) (text : Bytes) : (trimMatches p text).Sublist text :=
  (List.rdropWhile_prefix p _).sublist.trans (List.dropWhile_sublist p)

theorem isNameByte_hexDigit : ∀ n < 16, isNameByte (hexDigit n) = true := by decide

theorem isNameByte_lowerHex (hmem : b ∈ lowerHex c) : isNameByte b = true := by
  have hc : c.toNat < 256 := c.toNat_lt
  obtain rfl | hrest := List.mem_cons.mp hmem
  · exact isNameByte_hexDigit _ (by omega)
  · rw [List.mem_singleton.mp hrest]
    exact isNameByte_hexDigit _ (by omega)

/-- The suffix of a mapped name, whatever the hash. -/
theorem suffix_spec (digest : Vector UInt8 32) :
    ((digest.toList.take hashBytes).flatMap lowerHex).length = hashHexBytes ∧
      ∀ b ∈ (digest.toList.take hashBytes).flatMap lowerHex, isNameByte b = true := by
  constructor
  · rw [List.length_flatMap]
    simp [lowerHex, hashBytes, hashHexBytes]
  · intro b hmem
    obtain ⟨c, -, hb⟩ := List.mem_flatMap.mp hmem
    exact isNameByte_lowerHex hb

/-- A mapped name is a name, whatever the hash. -/
theorem isFunctionName_mappedName (original : Bytes) (nonce : UInt64) :
    IsFunctionName (mappedName sha256 original nonce) := by
  let trimmed := trimMatches (fun b => b = underscore || b = hyphen) (mappedPrefix [] false original)
  let front := if trimmed.isEmpty then utf8 "mcp_tool" else trimmed
  obtain ⟨hlength, hbytes⟩ := mappedPrefix_spec [] false original (Nat.zero_le _) (by simp)
  obtain ⟨hsuffix, hsuffixBytes⟩ := suffix_spec (sha256 (original ++ toBeBytes nonce))
  have hsublist : trimmed.Sublist (mappedPrefix [] false original) := trimMatches_sublist _ _
  have hfront : front.length ≤ maxMappedPrefixBytes ∧ ∀ b ∈ front, isNameByte b = true := by
    simp only [front]
    split
    · exact ⟨by decide, List.all_eq_true.mp (by decide)⟩
    · exact ⟨Nat.le_trans hsublist.length_le hlength, fun b hmem => hbytes b (hsublist.subset hmem)⟩
  have hname : mappedName sha256 original nonce =
      front ++ utf8 "__" ++ ((sha256 (original ++ toBeBytes nonce)).toList.take hashBytes).flatMap lowerHex := rfl
  have hseparator : (utf8 "__").length = hashSeparatorBytes ∧ ∀ b ∈ utf8 "__", isNameByte b = true :=
    ⟨by decide, List.all_eq_true.mp (by decide)⟩
  have htotal : (mappedName sha256 original nonce).length = front.length + hashSeparatorBytes + hashHexBytes := by
    rw [hname, List.length_append, List.length_append, hsuffix, hseparator.1]
  constructor
  · rw [htotal, hashSeparatorBytes]
    omega
  · have hmax : maxMappedPrefixBytes + hashSeparatorBytes + hashHexBytes = 128 := rfl
    omega
  · intro b hmem
    rw [hname, List.mem_append, List.mem_append] at hmem
    apply isNameByte_iff.mp
    obtain (hmem | hmem) | hmem := hmem
    · exact hfront.2 b hmem
    · exact hseparator.2 b hmem
    · exact hsuffixBytes b hmem

end Validity

end OpenaiRs.Catalog
