import OpenaiRs.Rust.Str

/-!
# Form encoding

The serializer of `application/x-www-form-urlencoded`, over the UTF-8 bytes of names and values.
-/

namespace OpenaiRs.Rust

def ampersand : UInt8 := 0x26
def equalsSign : UInt8 := 0x3D
def plusSign : UInt8 := 0x2B
def percent : UInt8 := 0x25

/-- `*-._`, digits and letters. -/
def isUnchanged (b : UInt8) : Bool :=
  b = 0x2A || b = 0x2D || b = 0x2E || b = 0x5F || isAsciiDigit b || (0x41 ≤ b && b ≤ 0x5A) ||
    (0x61 ≤ b && b ≤ 0x7A)

def hexDigit (n : ℕ) : UInt8 := if n < 10 then UInt8.ofNat (0x30 + n) else UInt8.ofNat (0x37 + n)

def serializeByte (b : UInt8) : Bytes :=
  if isUnchanged b then [b]
  else if b = space then [plusSign]
  else [percent, hexDigit (b.toNat / 16), hexDigit (b.toNat % 16)]

def byteSerialize (text : Bytes) : Bytes := text.flatMap serializeByte

/-- A pair behind the pairs of a query. -/
def appendPair (target : Bytes) (pair : String × String) : Bytes :=
  (if target.isEmpty then [] else target ++ [ampersand]) ++
    (byteSerialize (utf8 pair.1) ++ equalsSign :: byteSerialize (utf8 pair.2))

end OpenaiRs.Rust
