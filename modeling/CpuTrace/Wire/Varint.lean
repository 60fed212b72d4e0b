/-!
# Variable-length integers

A varint holds seven bits of a number per byte, lowest first; every byte but the last has its high
bit set. Reading splits off the bytes up to the first without that bit (`split`), refuses more than
ten of them, and cuts the value to 64 bits (`read`). Writing uses as few bytes as possible
(`encode`).
-/

namespace CpuTrace.Wire

/-- Bytes, first to last. -/
abbrev Bytes := List UInt8

/-- Why bytes are not a message. -/
inductive Fault where
  /-- they end inside a field, or a field ends beyond its message -/
  | truncated
  /-- a varint of more than ten bytes -/
  | overlongVarint
  /-- a field with the number zero -/
  | fieldZero
  /-- a tag with a wire type that does not exist -/
  | unknownWireType
  /-- the end of a group that was not opened -/
  | strayGroupEnd
  /-- a text that is not well-formed UTF-8 -/
  | notUtf8
deriving DecidableEq, Repr

namespace Varint

/-- The bytes of the varint at the start, and the bytes after it. -/
def split : Bytes → Option (Bytes × Bytes)
  | [] => none
  | b :: bs =>
    if b < 128 then some ([b], bs)
    else
      match split bs with
      | some (enc, rest) => some (b :: enc, rest)
      | none => none

/-- The number that bytes stand for: seven bits each, lowest first. -/
def value : Bytes → Nat
  | [] => 0
  | b :: bs => b.toNat % 128 + 128 * value bs

/-- The most bytes a varint may have. -/
def maxLength : Nat := 10

/-- The number of values of 64 bits. -/
def wordCount : Nat := Nat.pow 2 64

/-- The varint at the start, with its bytes as they stand, and the bytes after it. -/
def readRaw (bs : Bytes) : Except Fault (Bytes × Bytes) :=
  match split bs with
  | none => .error .truncated
  | some (enc, rest) => if enc.length ≤ maxLength then .ok (enc, rest) else .error .overlongVarint

/-- The number at the start, cut to 64 bits, and the bytes after it. -/
def read (bs : Bytes) : Except Fault (Nat × Bytes) :=
  match readRaw bs with
  | .ok (enc, rest) => .ok (value enc % wordCount, rest)
  | .error e => .error e

/-- The shortest varint of a number. -/
def encode (n : Nat) : Bytes :=
  if n < 128 then [UInt8.ofNat n] else UInt8.ofNat (n % 128 + 128) :: encode (n / 128)
termination_by n
decreasing_by omega

/-- Nothing is lost in splitting off a varint. -/
theorem append_of_split {bs enc rest : Bytes} (h : split bs = some (enc, rest)) :
    bs = enc ++ rest := by
  induction bs generalizing enc rest with
  | nil => simp [split] at h
  | cons b bs ih =>
    rw [split] at h
    split at h
    · cases h; rfl
    · split at h
      · next enc' rest' hs => cases h; rw [ih hs]; rfl
      · cases h

/-- A varint has at least one byte. -/
theorem ne_nil_of_split {bs enc rest : Bytes} (h : split bs = some (enc, rest)) : enc ≠ [] := by
  cases bs with
  | nil => simp [split] at h
  | cons b bs =>
    rw [split] at h
    split at h
    · cases h; exact List.cons_ne_nil _ _
    · split at h
      · cases h; exact List.cons_ne_nil _ _
      · cases h

/-- What follows a varint is shorter than what it was read from. -/
theorem length_lt_of_readRaw {bs enc rest : Bytes} (h : readRaw bs = .ok (enc, rest)) :
    rest.length < bs.length := by
  rw [readRaw] at h
  split at h
  · cases h
  · next enc' rest' hs =>
    split at h
    · cases h
      have hne := List.length_pos_iff.mpr (ne_nil_of_split hs)
      rw [append_of_split hs, List.length_append]
      omega
    · cases h

/-- What follows a number is shorter than what it was read from. -/
theorem length_lt_of_read {bs rest : Bytes} {n : Nat} (h : read bs = .ok (n, rest)) :
    rest.length < bs.length := by
  rw [read] at h
  split at h
  · next hr => cases h; exact length_lt_of_readRaw hr
  · cases h

end Varint

end CpuTrace.Wire
