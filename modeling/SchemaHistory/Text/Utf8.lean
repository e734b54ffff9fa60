/-!
# Texts as bytes

Files hold UTF-8. Writing gives one to four bytes for a character. Reading is either
strict, and then a single ill-formed byte refuses the whole, or lenient, and then each
maximal ill-formed part is read as one replacement character: the longest run of bytes
that could still begin a character, or one byte that begins none.
-/

namespace SchemaHistory.Text

/-- The contents of a file, or of a part of one. -/
abbrev Bytes := List UInt8

/-- The bytes of a text, character by character. -/
def encode (cs : List Char) : Bytes := cs.flatMap String.utf8EncodeChar

/-- The bytes of a string. -/
def utf8 (s : String) : Bytes := encode s.toList

/-- What one reading step found at the head of the bytes, and how many bytes it took. -/
inductive Decoded
  | char (c : Char) (width : Nat)
  /-- A maximal ill-formed part. -/
  | ill (width : Nat)

/-- A continuation byte whose value lies from `low` to `high`. -/
def within (low high : Nat) (b : UInt8) : Bool := low ≤ b.toNat && b.toNat ≤ high

/-- The six payload bits of a continuation byte. -/
def tailBits (b : UInt8) : Nat := b.toNat % 64

/-- The values the second byte may have behind a lead byte of three bytes. They leave out
overlong spellings and surrogates. -/
def secondOfThree (lead : Nat) : Nat × Nat :=
  if lead = 0xE0 then (0xA0, 0xBF) else if lead = 0xED then (0x80, 0x9F) else (0x80, 0xBF)

/-- The values the second byte may have behind a lead byte of four bytes. They leave out
overlong spellings and numbers past the last code point. -/
def secondOfFour (lead : Nat) : Nat × Nat :=
  if lead = 0xF0 then (0x90, 0xBF) else if lead = 0xF4 then (0x80, 0x8F) else (0x80, 0xBF)

/-- Reads the character at the head of `lead :: rest`. -/
def decodeHead (lead : UInt8) (rest : Bytes) : Decoded :=
  let n := lead.toNat
  if n < 0x80 then .char (Char.ofNat n) 1
  else if n < 0xC2 then .ill 1
  else if n < 0xE0 then
    match rest with
    | b :: _ =>
      if within 0x80 0xBF b then .char (Char.ofNat (n % 32 * 64 + tailBits b)) 2 else .ill 1
    | [] => .ill 1
  else if n < 0xF0 then
    let (low, high) := secondOfThree n
    match rest with
    | b :: c :: _ =>
      if !within low high b then .ill 1
      else if !within 0x80 0xBF c then .ill 2
      else .char (Char.ofNat ((n % 16 * 64 + tailBits b) * 64 + tailBits c)) 3
    | [b] => if within low high b then .ill 2 else .ill 1
    | [] => .ill 1
  else if n < 0xF5 then
    let (low, high) := secondOfFour n
    match rest with
    | b :: c :: d :: _ =>
      if !within low high b then .ill 1
      else if !within 0x80 0xBF c then .ill 2
      else if !within 0x80 0xBF d then .ill 3
      else .char
        (Char.ofNat (((n % 8 * 64 + tailBits b) * 64 + tailBits c) * 64 + tailBits d)) 4
    | [b, c] =>
      if !within low high b then .ill 1 else if !within 0x80 0xBF c then .ill 2 else .ill 3
    | [b] => if within low high b then .ill 2 else .ill 1
    | [] => .ill 1
  else .ill 1

/-- The character that stands for an ill-formed part. -/
def replacement : Char := Char.ofNat 0xFFFD

/-- Lenient reading. `skip` counts the bytes of the current part that are still to pass. -/
def decodeLossyFrom (skip : Nat) : Bytes → List Char
  | [] => []
  | b :: rest =>
    match skip with
    | k + 1 => decodeLossyFrom k rest
    | 0 =>
      match decodeHead b rest with
      | .char c width => c :: decodeLossyFrom (width - 1) rest
      | .ill width => replacement :: decodeLossyFrom (width - 1) rest

/-- The text of some bytes, with a replacement character for each maximal ill-formed part. -/
def decodeLossy (bs : Bytes) : List Char := decodeLossyFrom 0 bs

/-- Strict reading, with the same counter as `decodeLossyFrom`. -/
def decodeFrom? (skip : Nat) : Bytes → Option (List Char)
  | [] => some []
  | b :: rest =>
    match skip with
    | k + 1 => decodeFrom? k rest
    | 0 =>
      match decodeHead b rest with
      | .char c width => (decodeFrom? (width - 1) rest).map (c :: ·)
      | .ill _ => none

/-- The text of some bytes, unless one of them is ill-formed. -/
def decode? (bs : Bytes) : Option (List Char) := decodeFrom? 0 bs

/-- The number of bytes a text takes. -/
def byteCount : List Char → Nat
  | [] => 0
  | c :: cs => c.utf8Size + byteCount cs

end SchemaHistory.Text
