/-!
# Fingerprints

The 64-bit XXH3 hash with seed zero and the default secret. A fingerprint stands for
a text's bytes when a written file is compared with what was meant to be written.
-/

namespace StopMotion.Hash

namespace Xxh3

/-- The default secret. -/
def secret : ByteArray := ⟨#[
  0xb8, 0xfe, 0x6c, 0x39, 0x23, 0xa4, 0x4b, 0xbe, 0x7c, 0x01, 0x81, 0x2c, 0xf7, 0x21, 0xad, 0x1c,
  0xde, 0xd4, 0x6d, 0xe9, 0x83, 0x90, 0x97, 0xdb, 0x72, 0x40, 0xa4, 0xa4, 0xb7, 0xb3, 0x67, 0x1f,
  0xcb, 0x79, 0xe6, 0x4e, 0xcc, 0xc0, 0xe5, 0x78, 0x82, 0x5a, 0xd0, 0x7d, 0xcc, 0xff, 0x72, 0x21,
  0xb8, 0x08, 0x46, 0x74, 0xf7, 0x43, 0x24, 0x8e, 0xe0, 0x35, 0x90, 0xe6, 0x81, 0x3a, 0x26, 0x4c,
  0x3c, 0x28, 0x52, 0xbb, 0x91, 0xc3, 0x00, 0xcb, 0x88, 0xd0, 0x65, 0x8b, 0x1b, 0x53, 0x2e, 0xa3,
  0x71, 0x64, 0x48, 0x97, 0xa2, 0x0d, 0xf9, 0x4e, 0x38, 0x19, 0xef, 0x46, 0xa9, 0xde, 0xac, 0xd8,
  0xa8, 0xfa, 0x76, 0x3f, 0xe3, 0x9c, 0x34, 0x3f, 0xf9, 0xdc, 0xbb, 0xc7, 0xc7, 0x0b, 0x4f, 0x1d,
  0x8a, 0x51, 0xe0, 0x4b, 0xcd, 0xb4, 0x59, 0x31, 0xc8, 0x9f, 0x7e, 0xc9, 0xd9, 0x78, 0x73, 0x64,
  0xea, 0xc5, 0xac, 0x83, 0x34, 0xd3, 0xeb, 0xc3, 0xc5, 0x81, 0xa0, 0xff, 0xfa, 0x13, 0x63, 0xeb,
  0x17, 0x0d, 0xdd, 0x51, 0xb7, 0xf0, 0xda, 0x49, 0xd3, 0x16, 0x55, 0x26, 0x29, 0xd4, 0x68, 0x9e,
  0x2b, 0x16, 0xbe, 0x58, 0x7d, 0x47, 0xa1, 0xfc, 0x8f, 0xf8, 0xb8, 0xd1, 0x7a, 0xd0, 0x31, 0xce,
  0x45, 0xcb, 0x3a, 0x8f, 0x95, 0x16, 0x04, 0x28, 0xaf, 0xd7, 0xfb, 0xca, 0xbb, 0x4b, 0x40, 0x7e]⟩

private def prime1 : UInt64 := 0x9E3779B185EBCA87
private def prime2 : UInt64 := 0xC2B2AE3D27D4EB4F
private def prime3 : UInt64 := 0x165667B19E3779F9
private def prime4 : UInt64 := 0x85EBCA77C2B2AE63
private def prime5 : UInt64 := 0x27D4EB2F165667C5
private def shortPrime1 : UInt64 := 0x9E3779B1
private def shortPrime2 : UInt64 := 0x85EBCA77
private def shortPrime3 : UInt64 := 0xC2B2AE3D

/-- The byte at an index; zero past the end. -/
def byte (bytes : ByteArray) (index : Nat) : UInt64 :=
  match bytes.data[index]? with
  | some value => value.toUInt64
  | none => 0

/-- Four bytes in little-endian order. -/
def word32 (bytes : ByteArray) (index : Nat) : UInt64 :=
  byte bytes index ||| (byte bytes (index + 1) <<< 8) |||
    (byte bytes (index + 2) <<< 16) ||| (byte bytes (index + 3) <<< 24)

/-- Eight bytes in little-endian order. -/
def word64 (bytes : ByteArray) (index : Nat) : UInt64 :=
  word32 bytes index ||| (word32 bytes (index + 4) <<< 32)

/-- The two halves of the 128-bit product, combined by exclusive or. -/
def fold (left right : UInt64) : UInt64 :=
  let product := left.toNat * right.toNat
  UInt64.ofNat (product % Nat.pow 2 64) ^^^ UInt64.ofNat (product / Nat.pow 2 64)

/-- Rotation to the left. -/
def rotate (value : UInt64) (count : UInt64) : UInt64 :=
  (value <<< count) ||| (value >>> (64 - count))

/-- The bytes of a word in the opposite order. -/
def reverseBytes (value : UInt64) : UInt64 :=
  (List.range 8).foldl
    (fun result index => (result <<< 8) ||| ((value >>> (8 * index.toUInt64)) &&& 0xff)) 0

/-- The final mixing of the short inputs. -/
def finishShort (hash : UInt64) : UInt64 :=
  let hash := (hash ^^^ (hash >>> 33)) * prime2
  let hash := (hash ^^^ (hash >>> 29)) * prime3
  hash ^^^ (hash >>> 32)

/-- The final mixing of the other inputs. -/
def finish (hash : UInt64) : UInt64 :=
  let hash := (hash ^^^ (hash >>> 37)) * 0x165667919E3779F9
  hash ^^^ (hash >>> 32)

/-- The final mixing of four to eight bytes. -/
def finishWord (hash : UInt64) (size : UInt64) : UInt64 :=
  let hash := (hash ^^^ rotate hash 49 ^^^ rotate hash 24) * 0x9FB21C651E98DF25
  let hash := (hash ^^^ ((hash >>> 35) + size)) * 0x9FB21C651E98DF25
  hash ^^^ (hash >>> 28)

/-- Sixteen bytes of the input against sixteen bytes of the secret. -/
def mix (bytes : ByteArray) (index key : Nat) : UInt64 :=
  fold (word64 bytes index ^^^ word64 secret key)
    (word64 bytes (index + 8) ^^^ word64 secret (key + 8))

/-- Inputs of at most sixteen bytes. -/
def upTo16 (bytes : ByteArray) : UInt64 :=
  let size := bytes.size
  if size = 0 then
    finishShort (word64 secret 56 ^^^ word64 secret 64)
  else if size ≤ 3 then
    let combined := (byte bytes 0 <<< 16) ||| (byte bytes (size / 2) <<< 24) |||
      byte bytes (size - 1) ||| (size.toUInt64 <<< 8)
    finishShort (combined ^^^ (word32 secret 0 ^^^ word32 secret 4))
  else if size ≤ 8 then
    let combined := word32 bytes (size - 4) + (word32 bytes 0 <<< 32)
    finishWord (combined ^^^ (word64 secret 8 ^^^ word64 secret 16)) size.toUInt64
  else
    let low := word64 bytes 0 ^^^ (word64 secret 24 ^^^ word64 secret 32)
    let high := word64 bytes (size - 8) ^^^ (word64 secret 40 ^^^ word64 secret 48)
    finish (size.toUInt64 + reverseBytes low + high + fold low high)

/-- Inputs of 17 to 128 bytes: pairs of blocks from both ends. -/
def upTo128 (bytes : ByteArray) : UInt64 :=
  let size := bytes.size
  let pairs := (size - 1) / 32 + 1
  finish ((List.range pairs).foldl
    (fun total pair =>
      total + mix bytes (16 * pair) (32 * pair) +
        mix bytes (size - 16 * (pair + 1)) (32 * pair + 16))
    (size.toUInt64 * prime1))

/-- Inputs of 129 to 240 bytes. -/
def upTo240 (bytes : ByteArray) : UInt64 :=
  let size := bytes.size
  let start := finish ((List.range 8).foldl
    (fun total block => total + mix bytes (16 * block) (16 * block))
    (size.toUInt64 * prime1))
  let rest := (List.range (size / 16 - 8)).foldl
    (fun total block => total + mix bytes (16 * (block + 8)) (16 * block + 3)) start
  finish (rest + mix bytes (size - 16) 119)

/-- The eight accumulators of a long input. -/
abbrev Lanes := List UInt64

/-- One stripe of 64 bytes added to the accumulators. -/
def stripe (bytes : ByteArray) (lanes : Lanes) (index key : Nat) : Lanes :=
  let values := (List.range 8).map fun lane => word64 bytes (index + 8 * lane)
  lanes.mapIdx fun (lane : Nat) (total : UInt64) =>
    let keyed : UInt64 := values[lane]?.getD 0 ^^^ word64 secret (key + 8 * lane)
    let other := if lane % 2 = 0 then lane + 1 else lane - 1
    total + values[other]?.getD 0 + (keyed &&& (0xffffffff : UInt64)) * (keyed >>> (32 : UInt64))

/-- The accumulators scrambled after a whole block of sixteen stripes. -/
def scramble (lanes : Lanes) : Lanes :=
  lanes.mapIdx fun (lane : Nat) (total : UInt64) =>
    (total ^^^ (total >>> (47 : UInt64)) ^^^ word64 secret (128 + 8 * lane)) * shortPrime1

/-- The stripes of one block. -/
def block (bytes : ByteArray) (lanes : Lanes) (index count : Nat) : Lanes :=
  (List.range count).foldl
    (fun lanes number => stripe bytes lanes (index + 64 * number) (8 * number)) lanes

/-- Inputs of more than 240 bytes. -/
def long (bytes : ByteArray) : UInt64 :=
  let size := bytes.size
  let blocks := (size - 1) / 1024
  let start : Lanes :=
    [shortPrime3, prime1, prime2, prime3, prime4, shortPrime2, prime5, shortPrime1]
  let lanes := (List.range blocks).foldl
    (fun lanes number => scramble (block bytes lanes (1024 * number) 16)) start
  let lanes := block bytes lanes (1024 * blocks) ((size - 1 - 1024 * blocks) / 64)
  let lanes := stripe bytes lanes (size - 64) 121
  finish ((List.range 4).foldl
    (fun total pair =>
      total + fold (lanes[2 * pair]?.getD 0 ^^^ word64 secret (11 + 16 * pair))
        (lanes[2 * pair + 1]?.getD 0 ^^^ word64 secret (19 + 16 * pair)))
    (size.toUInt64 * prime1))

/-- The hash of a byte sequence. -/
def hash (bytes : ByteArray) : UInt64 :=
  if bytes.size ≤ 16 then upTo16 bytes
  else if bytes.size ≤ 128 then upTo128 bytes
  else if bytes.size ≤ 240 then upTo240 bytes
  else long bytes

end Xxh3

/-- The fingerprint of a text: the hash of its UTF-8 bytes. -/
def fingerprint (text : String) : UInt64 :=
  Xxh3.hash text.toUTF8

/-- A word as sixteen lower-case hexadecimal digits. -/
def hex16 (word : UInt64) : String :=
  let digits := Nat.toDigits 16 word.toNat
  String.ofList (List.replicate (16 - digits.length) '0' ++ digits)

end StopMotion.Hash
