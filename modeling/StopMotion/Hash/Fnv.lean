/-!
# Salts and phases

A 64-bit FNV-1a hash of a sequence of strings. Each string is followed by the byte
`0xff`, which occurs in no UTF-8 text, so the boundaries between the strings count.
From it come the small salts of seeded random calls and the phases of motions.
-/

namespace StopMotion.Hash

/-- One FNV-1a step. -/
def fnvStep (hash : UInt64) (byte : UInt8) : UInt64 :=
  (hash ^^^ byte.toUInt64) * 0x00000100000001B3

/-- The hash of a text continued from `hash`, with its closing `0xff`. -/
def fnvText (hash : UInt64) (text : String) : UInt64 :=
  fnvStep (text.toUTF8.toList.foldl fnvStep hash) 0xff

/-- The hash of a sequence of texts. -/
def fnv (parts : List String) : UInt64 :=
  parts.foldl fnvText 0xcbf29ce484222325

/-- A salt between 1 and 9973. -/
def salt (parts : List String) : Nat :=
  (fnv parts).toNat % 9973 + 1

/-- Every salt is positive. -/
theorem salt_pos (parts : List String) : 0 < salt parts :=
  Nat.succ_pos _

/-- Every salt is at most 9973. -/
theorem salt_le (parts : List String) : salt parts ≤ 9973 :=
  Nat.succ_le_of_lt (Nat.mod_lt _ (by decide))

/-- The top 53 bits of a hash as a fraction of the interval from `low` to `high`. -/
def spread (hash : UInt64) (low high : Float) : Float :=
  let unit := Float.ofNat (hash.toNat / Nat.pow 2 11) / Float.ofNat (Nat.pow 2 53)
  low + unit * (high - low)

end StopMotion.Hash
