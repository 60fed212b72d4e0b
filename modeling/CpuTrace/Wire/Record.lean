import CpuTrace.Wire.Varint

/-!
# Records

A message is a sequence of records. Each starts with a tag, a varint that joins a field number and
a wire type; the wire type says where the record ends. A record can be told from what follows it
without knowing what its field means, so a message can carry fields that its reader does not know:
they are kept byte by byte.

A group is a record that runs up to the matching end tag, with records in between. Which number the
end tag has does not matter.
-/

namespace CpuTrace.Wire

/-- How the value of a record is delimited. -/
inductive WireType where
  /-- one varint -/
  | varint
  /-- eight bytes -/
  | fixed64
  /-- a length and that many bytes -/
  | bytes
  /-- records up to the end of the group -/
  | groupStart
  /-- the end of a group -/
  | groupEnd
  /-- four bytes -/
  | fixed32
deriving DecidableEq, Repr

namespace WireType

/-- The number of a wire type. -/
def number : WireType → Nat
  | varint => 0
  | fixed64 => 1
  | bytes => 2
  | groupStart => 3
  | groupEnd => 4
  | fixed32 => 5

/-- The wire type of a number. -/
def ofNumber? : Nat → Option WireType
  | 0 => some varint
  | 1 => some fixed64
  | 2 => some bytes
  | 3 => some groupStart
  | 4 => some groupEnd
  | 5 => some fixed32
  | _ => none

end WireType

/-- What starts a record. -/
structure Tag where
  /-- the tag's bytes as they stand -/
  raw : Bytes
  /-- the field number -/
  number : Nat
  /-- how the value is delimited -/
  wire : WireType

/-- The tag of a field, in as few bytes as possible. -/
def encodeTag (number : Nat) (wire : WireType) : Bytes :=
  Varint.encode (8 * number + wire.number)

/-- Whether a tag is written in as few bytes as possible. -/
def Tag.isMinimal (t : Tag) : Bool := t.raw == encodeTag t.number t.wire

/-- The tag of a varint: the wire type in the low three bits, the field number above them. -/
def Tag.ofRaw? (raw : Bytes) : Option Tag :=
  let n := Varint.value raw % Varint.wordCount
  (WireType.ofNumber? (n % 8)).map fun wire => ⟨raw, n / 8, wire⟩

/-- The tag at the start, and the bytes after it. -/
def readTag (bs : Bytes) : Except Fault (Tag × Bytes) :=
  match Varint.readRaw bs with
  | .error e => .error e
  | .ok (raw, rest) =>
    match Tag.ofRaw? raw with
    | some tag => .ok (tag, rest)
    | none => .error .unknownWireType

/-- The first `n` bytes, and the bytes after them. -/
def takeBytes (n : Nat) (bs : Bytes) : Except Fault (Bytes × Bytes) :=
  if n ≤ bs.length then .ok (bs.take n, bs.drop n) else .error .truncated

/-- A length and that many bytes, and the bytes after them. -/
def readBytes (bs : Bytes) : Except Fault (Bytes × Bytes) :=
  match Varint.read bs with
  | .ok (n, rest) => takeBytes n rest
  | .error e => .error e

/-! ## Lengths -/

theorem length_lt_of_readTag {bs rest : Bytes} {t : Tag} (h : readTag bs = .ok (t, rest)) :
    rest.length < bs.length := by
  rw [readTag] at h
  split at h
  · cases h
  · next hr =>
    split at h
    · cases h; exact Varint.length_lt_of_readRaw hr
    · cases h

theorem length_of_takeBytes {n : Nat} {bs body rest : Bytes}
    (h : takeBytes n bs = .ok (body, rest)) : body.length + rest.length = bs.length := by
  rw [takeBytes] at h
  split at h
  · cases h
    rw [List.length_take, List.length_drop]
    omega
  · cases h

theorem length_lt_of_readBytes {bs body rest : Bytes} (h : readBytes bs = .ok (body, rest)) :
    body.length + rest.length < bs.length := by
  rw [readBytes] at h
  split at h
  · next hr =>
    rw [length_of_takeBytes h]
    exact Varint.length_lt_of_read hr
  · cases h

/-! ## Groups -/

/-- The bytes after a value that is not a group. -/
def skipSimple (wire : WireType) (bs : Bytes) : Except Fault Bytes :=
  match wire with
  | .varint => (Varint.read bs).map Prod.snd
  | .fixed64 => (takeBytes 8 bs).map Prod.snd
  | .bytes => (readBytes bs).map Prod.snd
  | .fixed32 => (takeBytes 4 bs).map Prod.snd
  | .groupStart => .ok bs
  | .groupEnd => .ok bs

theorem length_le_of_skipSimple {wire : WireType} {bs rest : Bytes}
    (h : skipSimple wire bs = .ok rest) : rest.length ≤ bs.length := by
  cases wire <;> simp only [skipSimple] at h
  · cases hr : Varint.read bs with
    | error e => rw [hr] at h; cases h
    | ok p => rw [hr] at h; cases h; exact Nat.le_of_lt (Varint.length_lt_of_read hr)
  · cases hr : takeBytes 8 bs with
    | error e => rw [hr] at h; cases h
    | ok p => rw [hr] at h; cases h; have := length_of_takeBytes hr; omega
  · cases hr : readBytes bs with
    | error e => rw [hr] at h; cases h
    | ok p => rw [hr] at h; cases h; have := length_lt_of_readBytes hr; omega
  · cases h; exact Nat.le_refl _
  · cases h; exact Nat.le_refl _
  · cases hr : takeBytes 4 bs with
    | error e => rw [hr] at h; cases h
    | ok p => rw [hr] at h; cases h; have := length_of_takeBytes hr; omega

/-- The bytes after the end of a group, where `depth` more groups have been opened inside it. -/
def skipGroup (depth : Nat) (bs : Bytes) : Except Fault Bytes :=
  match _h : readTag bs with
  | .error e => .error e
  | .ok (tag, rest) =>
    match tag.wire with
    | .groupStart => skipGroup (depth + 1) rest
    | .groupEnd =>
      match depth with
      | 0 => .ok rest
      | depth + 1 => skipGroup depth rest
    | wire =>
      match _h' : skipSimple wire rest with
      | .error e => .error e
      | .ok rest' => skipGroup depth rest'
termination_by bs.length
decreasing_by
  · exact length_lt_of_readTag _h
  · exact length_lt_of_readTag _h
  · exact Nat.lt_of_le_of_lt (length_le_of_skipSimple _h') (length_lt_of_readTag _h)

/-- What follows a group is shorter than what it was read from. -/
theorem length_lt_of_skipGroup {depth : Nat} {bs rest : Bytes}
    (h : skipGroup depth bs = .ok rest) : rest.length < bs.length := by
  fun_induction skipGroup depth bs with
  | case1 => cases h
  | case2 depth bs tag rest' ht hw ih => exact Nat.lt_trans (ih h) (length_lt_of_readTag ht)
  | case3 bs tag rest' ht hw => cases h; exact length_lt_of_readTag ht
  | case4 bs tag rest' ht hw depth ih => exact Nat.lt_trans (ih h) (length_lt_of_readTag ht)
  | case5 => cases h
  | case6 depth bs tag rest' ht hs hw rest'' hr ih =>
    have h1 := ih h
    have h2 := length_le_of_skipSimple hr
    have h3 := length_lt_of_readTag ht
    omega

/-! ## Records -/

/-- The value of a record, as far as a field of the schema can take it. -/
inductive Payload where
  /-- a number -/
  | number (n : Nat)
  /-- bytes: a text, a message or packed numbers -/
  | bytes (bs : Bytes)
  /-- anything else -/
  | foreign
deriving DecidableEq, Repr

/-- One field of a message as it stands. -/
structure Record where
  /-- field number and wire type -/
  tag : Tag
  /-- the value -/
  payload : Payload
  /-- all bytes of the record -/
  raw : Bytes

/-- The value after a tag, and the bytes after it. -/
def readPayload (wire : WireType) (bs : Bytes) : Except Fault (Payload × Bytes) :=
  match wire with
  | .varint =>
    match Varint.read bs with
    | .ok (n, rest) => .ok (.number n, rest)
    | .error e => .error e
  | .bytes =>
    match readBytes bs with
    | .ok (body, rest) => .ok (.bytes body, rest)
    | .error e => .error e
  | .fixed64 | .fixed32 =>
    match skipSimple wire bs with
    | .ok rest => .ok (.foreign, rest)
    | .error e => .error e
  | .groupStart =>
    match skipGroup 0 bs with
    | .ok rest => .ok (.foreign, rest)
    | .error e => .error e
  | .groupEnd => .error .strayGroupEnd

/-- The record at the start, and the bytes after it. -/
def readRecord (bs : Bytes) : Except Fault (Record × Bytes) :=
  match readTag bs with
  | .error e => .error e
  | .ok (tag, rest) =>
    if tag.number = 0 then .error .fieldZero
    else
      match readPayload tag.wire rest with
      | .error e => .error e
      | .ok (payload, rest') => .ok (⟨tag, payload, bs.take (bs.length - rest'.length)⟩, rest')

theorem length_le_of_readPayload {wire : WireType} {bs rest : Bytes} {p : Payload}
    (h : readPayload wire bs = .ok (p, rest)) :
    rest.length ≤ bs.length ∧ ∀ body, p = .bytes body → body.length ≤ bs.length := by
  rw [readPayload.eq_def] at h
  split at h
  · split at h
    · next hr =>
      cases h
      exact ⟨Nat.le_of_lt (Varint.length_lt_of_read hr), fun _ hb => by cases hb⟩
    · cases h
  · split at h
    · next hr =>
      cases h
      have := length_lt_of_readBytes hr
      exact ⟨by omega, fun _ hb => by cases hb; omega⟩
    · cases h
  · split at h
    · next hr => cases h; exact ⟨length_le_of_skipSimple hr, fun _ hb => by cases hb⟩
    · cases h
  · split at h
    · next hr => cases h; exact ⟨length_le_of_skipSimple hr, fun _ hb => by cases hb⟩
    · cases h
  · split at h
    · next hr =>
      cases h
      exact ⟨Nat.le_of_lt (length_lt_of_skipGroup hr), fun _ hb => by cases hb⟩
    · cases h
  · cases h

/-- What follows a record is shorter than what it was read from, and so are the bytes in it. -/
theorem length_lt_of_readRecord {bs rest : Bytes} {r : Record}
    (h : readRecord bs = .ok (r, rest)) :
    rest.length < bs.length ∧ ∀ body, r.payload = .bytes body → body.length < bs.length := by
  rw [readRecord] at h
  split at h
  · cases h
  · next ht =>
    have hlt := length_lt_of_readTag ht
    split at h
    · cases h
    · split at h
      · cases h
      · next hp =>
        cases h
        have hle := length_le_of_readPayload hp
        exact ⟨Nat.lt_of_le_of_lt hle.1 hlt, fun body hb => Nat.lt_of_le_of_lt (hle.2 body hb) hlt⟩

end CpuTrace.Wire
