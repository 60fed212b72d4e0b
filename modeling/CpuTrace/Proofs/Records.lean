import CpuTrace.Wire.Record
import CpuTrace.Wire.Writer
import Mathlib

/-!
# Where a record ends

A record carries its own end: what is read depends on the bytes of the record and on nothing that
follows them. A reader with this property **ends by itself** (`EndsItself`): from any bytes it splits
off a first part, and gives the same for that part whatever comes after it. Varints, tags, lengths
with their bytes and groups end by themselves, and so do records (`readRecord_append`). This is what
lets messages be cut into records and put together again.

The second half reads what is written: a number in as few bytes as possible is read as that number
(`Varint.read_encode`), and so are a tag (`readTag_encodeTag`) and the two forms of a record that a
writer uses (`readRecord_number`, `readRecord_bytes`).
-/

namespace CpuTrace.Wire

/-! ## Readers that end by themselves -/

/-- A reader takes a first part of the bytes, and gives the same for it whatever follows. -/
def EndsItself {α : Type} (read : Bytes → Except Fault (α × Bytes)) : Prop :=
  ∀ ⦃bs a rest⦄, read bs = .ok (a, rest) →
    ∃ used, bs = used ++ rest ∧ ∀ more, read (used ++ more) = .ok (a, more)

/-- A step over a value, as a reader that gives nothing. -/
def passing (skip : Bytes → Except Fault Bytes) (bs : Bytes) : Except Fault (Unit × Bytes) :=
  (skip bs).map fun rest => ((), rest)

theorem passing_eq_ok_iff {skip : Bytes → Except Fault Bytes} {bs rest : Bytes} :
    passing skip bs = .ok ((), rest) ↔ skip bs = .ok rest := by
  rw [passing]
  rcases skip bs with e | rest'
  · exact ⟨nofun, nofun⟩
  · simp [Except.map]

/-- What is made of a value read before ends where that value does. -/
theorem EndsItself.of_iff {α β : Type} {read : Bytes → Except Fault (α × Bytes)}
    {read' : Bytes → Except Fault (β × Bytes)} {R : α → β → Prop} (h : EndsItself read)
    (hiff : ∀ bs b rest, read' bs = .ok (b, rest) ↔ ∃ a, read bs = .ok (a, rest) ∧ R a b) :
    EndsItself read' := by
  intro bs b rest hb
  obtain ⟨a, ha, hR⟩ := (hiff bs b rest).mp hb
  obtain ⟨used, rfl, hused⟩ := h ha
  exact ⟨used, rfl, fun more => (hiff _ _ _).mpr ⟨a, hused more, hR⟩⟩

namespace Varint

theorem split_append {bs enc rest : Bytes} (h : split bs = some (enc, rest)) (more : Bytes) :
    split (enc ++ more) = some (enc, more) := by
  induction bs generalizing enc rest with
  | nil => cases h
  | cons b bs ih =>
    rw [split] at h
    split at h
    · next hb =>
      cases h
      rw [List.singleton_append, split, if_pos hb]
    · next hb =>
      split at h
      · next enc' rest' hs =>
        cases h
        simp only [List.cons_append, split, if_neg hb, ih hs]
      · cases h

/-- A number is read if it ends within the length that it may have. -/
theorem readRaw_eq_ok_iff {bs enc rest : Bytes} :
    readRaw bs = .ok (enc, rest) ↔ split bs = some (enc, rest) ∧ enc.length ≤ maxLength := by
  rw [readRaw]
  split
  · next hs => simp [hs]
  · next enc' rest' hs =>
    split
    · next hle =>
      simp only [Except.ok.injEq, Prod.mk.injEq, hs, Option.some.injEq]
      exact ⟨fun h => ⟨h, h.1 ▸ hle⟩, And.left⟩
    · next hle =>
      simp only [hs, Option.some.injEq, Prod.mk.injEq, reduceCtorEq, false_iff, not_and]
      rintro ⟨rfl, rfl⟩
      exact hle

/-- A number ends by itself: its last byte says so. -/
theorem endsItself_readRaw : EndsItself readRaw := by
  intro bs enc rest h
  obtain ⟨hs, hle⟩ := readRaw_eq_ok_iff.mp h
  exact ⟨enc, append_of_split hs,
    fun more => readRaw_eq_ok_iff.mpr ⟨split_append hs more, hle⟩⟩

/-- A number is read from the bytes of its varint. -/
theorem read_eq_ok_iff {bs rest : Bytes} {n : Nat} :
    read bs = .ok (n, rest) ↔ ∃ enc, readRaw bs = .ok (enc, rest) ∧ n = value enc % wordCount := by
  rw [read]
  rcases readRaw bs with e | ⟨enc, rest'⟩
  · simp
  · simp only [Except.ok.injEq, Prod.mk.injEq]
    constructor
    · rintro ⟨rfl, rfl⟩
      exact ⟨enc, ⟨rfl, rfl⟩, rfl⟩
    · rintro ⟨enc, ⟨rfl, rfl⟩, rfl⟩
      exact ⟨rfl, rfl⟩

theorem endsItself_read : EndsItself read :=
  endsItself_readRaw.of_iff fun _ _ _ => read_eq_ok_iff

end Varint

/-- A tag is a number that is split into a field and a wire type. -/
theorem readTag_eq_ok_iff {bs rest : Bytes} {t : Tag} :
    readTag bs = .ok (t, rest) ↔
      ∃ raw, Varint.readRaw bs = .ok (raw, rest) ∧ Tag.ofRaw? raw = some t := by
  rw [readTag]
  rcases Varint.readRaw bs with e | ⟨raw, rest'⟩
  · simp
  · constructor
    · intro h
      dsimp only at h
      split at h
      · next htag =>
        cases h
        exact ⟨raw, rfl, htag⟩
      · cases h
    · rintro ⟨raw', h, ht⟩
      cases h
      simp only [ht]

theorem endsItself_readTag : EndsItself readTag :=
  Varint.endsItself_readRaw.of_iff fun _ _ _ => readTag_eq_ok_iff

theorem takeBytes_append {n : Nat} {body : Bytes} (h : body.length = n) (more : Bytes) :
    takeBytes n (body ++ more) = .ok (body, more) := by
  rw [takeBytes, if_pos (by rw [List.length_append]; omega), List.take_left' h,
    List.drop_left' h]

/-- A part of given length ends by itself. -/
theorem endsItself_takeBytes (n : Nat) : EndsItself (takeBytes n) := by
  intro bs body rest h
  rw [takeBytes] at h
  split at h
  · next hle =>
    cases h
    refine ⟨bs.take n, (List.take_append_drop n bs).symm, takeBytes_append ?_⟩
    rw [List.length_take]
    omega
  · cases h

/-- Bytes are a length and as many bytes. -/
theorem readBytes_eq_ok_iff {bs body rest : Bytes} :
    readBytes bs = .ok (body, rest) ↔
      ∃ n bs', Varint.read bs = .ok (n, bs') ∧ takeBytes n bs' = .ok (body, rest) := by
  rw [readBytes]
  rcases Varint.read bs with e | ⟨n, bs'⟩
  · simp
  · constructor
    · exact fun h => ⟨n, bs', rfl, h⟩
    · rintro ⟨n', bs'', h, htake⟩
      cases h
      exact htake

/-- A length and its bytes end by themselves. -/
theorem endsItself_readBytes : EndsItself readBytes := by
  intro bs body rest h
  obtain ⟨n, bs', hn, hbody⟩ := readBytes_eq_ok_iff.mp h
  obtain ⟨first, rfl, hfirst⟩ := Varint.endsItself_read hn
  obtain ⟨second, rfl, hsecond⟩ := endsItself_takeBytes n hbody
  refine ⟨first ++ second, (List.append_assoc ..).symm, fun more => ?_⟩
  rw [List.append_assoc]
  exact readBytes_eq_ok_iff.mpr ⟨n, second ++ more, hfirst _, hsecond more⟩

/-- A reader that ends by itself can also be used to step over what it reads. -/
theorem EndsItself.passing {α : Type} {read : Bytes → Except Fault (α × Bytes)}
    (h : EndsItself read) : EndsItself (passing fun bs => (read bs).map Prod.snd) := by
  refine h.of_iff (R := fun _ _ => True) fun bs _ rest => ?_
  rw [passing_eq_ok_iff]
  rcases read bs with e | ⟨a, rest'⟩
  · simp [Except.map]
  · simp [Except.map]

/-- Stepping over a value that is no group ends by itself. -/
theorem endsItself_skipSimple (wire : WireType) : EndsItself (passing (skipSimple wire)) := by
  have hnothing : EndsItself (passing .ok) := by
    rintro bs ⟨⟩ rest h
    cases h
    exact ⟨[], rfl, fun _ => rfl⟩
  cases wire with
  | varint => exact Varint.endsItself_read.passing
  | fixed64 => exact (endsItself_takeBytes 8).passing
  | bytes => exact endsItself_readBytes.passing
  | fixed32 => exact (endsItself_takeBytes 4).passing
  | groupStart => exact hnothing
  | groupEnd => exact hnothing

/-! ## Groups and records -/

section Groups

variable {bs bs' : Bytes} {tag : Tag} {depth : Nat}

/-- Inside a group, another one that starts is one level deeper. -/
theorem skipGroup_start (ht : readTag bs = .ok (tag, bs')) (hw : tag.wire = .groupStart) :
    skipGroup depth bs = skipGroup (depth + 1) bs' := by
  rw [skipGroup]
  split
  · next h => rw [ht] at h; cases h
  · next h => rw [ht] at h; cases h; simp only [hw]

/-- The outermost end closes the group. -/
theorem skipGroup_end (ht : readTag bs = .ok (tag, bs')) (hw : tag.wire = .groupEnd) :
    skipGroup 0 bs = .ok bs' := by
  rw [skipGroup]
  split
  · next h => rw [ht] at h; cases h
  · next h => rw [ht] at h; cases h; simp only [hw]

/-- An inner end goes back one level. -/
theorem skipGroup_inner_end (ht : readTag bs = .ok (tag, bs')) (hw : tag.wire = .groupEnd) :
    skipGroup (depth + 1) bs = skipGroup depth bs' := by
  rw [skipGroup]
  split
  · next h => rw [ht] at h; cases h
  · next h => rw [ht] at h; cases h; simp only [hw]

/-- Any other field is passed over. -/
theorem skipGroup_value {bs'' : Bytes} (ht : readTag bs = .ok (tag, bs'))
    (hstart : tag.wire ≠ .groupStart) (hend : tag.wire ≠ .groupEnd)
    (hs : skipSimple tag.wire bs' = .ok bs'') : skipGroup depth bs = skipGroup depth bs'' := by
  rw [skipGroup]
  split
  · next h => rw [ht] at h; cases h
  · next h =>
    rw [ht] at h
    cases h
    split
    · exact (hstart ‹_›).elim
    · exact (hend ‹_›).elim
    · split
      · next h => rw [hs] at h; cases h
      · next h => rw [hs] at h; cases h; rfl

end Groups

/-- **Groups end by themselves**, however deep they are. -/
theorem endsItself_skipGroup (depth : Nat) : EndsItself (passing (skipGroup depth)) := by
  rintro bs ⟨⟩ rest h
  replace h := passing_eq_ok_iff.mp h
  suffices hused : ∃ used, bs = used ++ rest ∧ ∀ more, skipGroup depth (used ++ more) = .ok more by
    obtain ⟨used, hbs, hmore⟩ := hused
    exact ⟨used, hbs, fun more => passing_eq_ok_iff.mpr (hmore more)⟩
  fun_induction skipGroup depth bs with
  | case1 => cases h
  | case2 depth bs tag bs' ht hw ih =>
    obtain ⟨first, rfl, hfirst⟩ := endsItself_readTag ht
    obtain ⟨second, rfl, hsecond⟩ := ih h
    refine ⟨first ++ second, (List.append_assoc ..).symm, fun more => ?_⟩
    rw [List.append_assoc, skipGroup_start (hfirst _) hw]
    exact hsecond more
  | case3 bs tag bs' ht hw =>
    cases h
    obtain ⟨used, rfl, hused⟩ := endsItself_readTag ht
    exact ⟨used, rfl, fun more => skipGroup_end (hused more) hw⟩
  | case4 bs tag bs' ht hw depth ih =>
    obtain ⟨first, rfl, hfirst⟩ := endsItself_readTag ht
    obtain ⟨second, rfl, hsecond⟩ := ih h
    refine ⟨first ++ second, (List.append_assoc ..).symm, fun more => ?_⟩
    rw [List.append_assoc, skipGroup_inner_end (hfirst _) hw]
    exact hsecond more
  | case5 => cases h
  | case6 depth bs tag bs' ht bs'' hstart hend hs ih =>
    obtain ⟨first, rfl, hfirst⟩ := endsItself_readTag ht
    obtain ⟨second, rfl, hsecond⟩ := endsItself_skipSimple _ (passing_eq_ok_iff.mpr hs)
    obtain ⟨third, rfl, hthird⟩ := ih h
    refine ⟨first ++ (second ++ third), by simp only [List.append_assoc], fun more => ?_⟩
    rw [List.append_assoc, List.append_assoc, skipGroup_value (hfirst _) hstart hend
      (passing_eq_ok_iff.mp (hsecond _))]
    exact hthird more

/-- A value that is only stepped over ends where the step does. -/
theorem endsItself_of_foreign {wire : WireType} {skip : Bytes → Except Fault Bytes}
    (hskip : EndsItself (passing skip))
    (h : ∀ bs, readPayload wire bs = (skip bs).map fun rest => (.foreign, rest)) :
    EndsItself (readPayload wire) := by
  refine hskip.of_iff (R := fun _ p => p = .foreign) fun bs p rest => ?_
  rw [h, passing]
  rcases skip bs with e | rest'
  · simp [Except.map]
  · simp [Except.map, and_comm, eq_comm]

/-- **Every payload ends by itself**, of whatever wire type. -/
theorem endsItself_readPayload (wire : WireType) : EndsItself (readPayload wire) := by
  cases wire with
  | varint =>
    refine Varint.endsItself_read.of_iff (R := fun n p => p = .number n) fun bs p rest => ?_
    simp only [readPayload]
    rcases Varint.read bs with e | ⟨n, rest'⟩
    · simp
    · simp [and_comm, eq_comm]
  | bytes =>
    refine endsItself_readBytes.of_iff (R := fun body p => p = .bytes body) fun bs p rest => ?_
    simp only [readPayload]
    rcases readBytes bs with e | ⟨body, rest'⟩
    · simp
    · simp [and_comm, eq_comm]
  | fixed64 =>
    refine endsItself_of_foreign (endsItself_skipSimple .fixed64) fun bs => ?_
    rw [readPayload]
    rcases skipSimple .fixed64 bs with e | rest <;> rfl
  | fixed32 =>
    refine endsItself_of_foreign (endsItself_skipSimple .fixed32) fun bs => ?_
    rw [readPayload]
    rcases skipSimple .fixed32 bs with e | rest <;> rfl
  | groupStart =>
    refine endsItself_of_foreign (endsItself_skipGroup 0) fun bs => ?_
    rw [readPayload]
    rcases skipGroup 0 bs with e | rest <;> rfl
  | groupEnd =>
    intro bs p rest h
    cases h

/-- What a record is read from: a tag with a number, and a value. -/
theorem readRecord_eq_ok_iff {bs rest : Bytes} {r : Record} :
    readRecord bs = .ok (r, rest) ↔ ∃ bs', readTag bs = .ok (r.tag, bs') ∧ r.tag.number ≠ 0 ∧
      readPayload r.tag.wire bs' = .ok (r.payload, rest) ∧
      r.raw = bs.take (bs.length - rest.length) := by
  rw [readRecord]
  rcases readTag bs with e | ⟨tag, bs'⟩
  · simp
  · by_cases hzero : tag.number = 0
    · simp only [hzero, if_true, reduceCtorEq, false_iff]
      rintro ⟨bs'', h, hne, -⟩
      cases h
      exact hne hzero
    · simp only [if_neg hzero]
      rcases hpayload : readPayload tag.wire bs' with e | ⟨payload, rest'⟩
      · simp only [reduceCtorEq, false_iff]
        rintro ⟨bs'', h, -, hp, -⟩
        cases h
        rw [hpayload] at hp
        cases hp
      · constructor
        · intro h
          cases h
          exact ⟨bs', rfl, hzero, hpayload, rfl⟩
        · rintro ⟨bs'', h, -, hp, hraw⟩
          cases h
          rw [hpayload] at hp
          cases hp
          simp only [← hraw]

/-- **A record ends by itself**: it is read from its own bytes, whatever follows them. -/
theorem readRecord_append {bs rest : Bytes} {r : Record} (h : readRecord bs = .ok (r, rest)) :
    bs = r.raw ++ rest ∧ ∀ more, readRecord (r.raw ++ more) = .ok (r, more) := by
  obtain ⟨bs', htag, hne, hpayload, hraw⟩ := readRecord_eq_ok_iff.mp h
  obtain ⟨first, rfl, hfirst⟩ := endsItself_readTag htag
  obtain ⟨second, rfl, hsecond⟩ := endsItself_readPayload _ hpayload
  have htake : ∀ more : Bytes, (first ++ (second ++ more)).take
      ((first ++ (second ++ more)).length - more.length) = first ++ second := by
    intro more
    rw [← List.append_assoc]
    exact List.take_left' (by simp only [List.length_append]; omega)
  obtain ⟨tag, payload, raw⟩ := r
  rw [htake] at hraw
  dsimp only at hraw
  subst hraw
  refine ⟨(List.append_assoc ..).symm, fun more => ?_⟩
  rw [List.append_assoc]
  exact readRecord_eq_ok_iff.mpr ⟨second ++ more, hfirst _, hne, hsecond more, (htake more).symm⟩

/-- A record at the start stays there when bytes are added at the end. -/
theorem readRecord_append_right {bs rest : Bytes} {r : Record} (h : readRecord bs = .ok (r, rest))
    (more : Bytes) : readRecord (bs ++ more) = .ok (r, rest ++ more) := by
  obtain ⟨hbs, hmore⟩ := readRecord_append h
  rw [hbs, List.append_assoc]
  exact hmore _

/-! ## Numbers in as few bytes as possible -/

namespace Varint

/-- A number has seven bits for each of its bytes. -/
theorem value_lt (enc : Bytes) : value enc < 128 ^ enc.length := by
  induction enc with
  | nil => simp [value]
  | cons b bs ih =>
    rw [value, List.length_cons, Nat.pow_succ]
    omega

/-- Seven bits and the mark that more follow fit into a byte. -/
theorem mod_add_lt_size (n : Nat) : n % 128 + 128 < UInt8.size :=
  Nat.add_lt_add_right (Nat.mod_lt n (by decide)) 128

/-- **A number that is written has its value.** -/
theorem value_encode (n : Nat) : value (encode n) = n := by
  fun_induction encode n with
  | case1 n h =>
    rw [value, value, UInt8.toNat_ofNat_of_lt' (h.trans (by decide))]
    omega
  | case2 n h ih =>
    rw [value, ih, UInt8.toNat_ofNat_of_lt' (mod_add_lt_size n)]
    omega

/-- A written number ends by itself. -/
theorem split_encode (n : Nat) (more : Bytes) : split (encode n ++ more) = some (encode n, more) := by
  fun_induction encode n with
  | case1 n h =>
    have hlt : UInt8.ofNat n < 128 := by
      rw [UInt8.lt_iff_toNat_lt, UInt8.toNat_ofNat_of_lt' (h.trans (by decide))]
      exact h
    rw [List.singleton_append, split, if_pos hlt]
  | case2 n h ih =>
    have hge : ¬ UInt8.ofNat (n % 128 + 128) < 128 := by
      rw [UInt8.lt_iff_toNat_lt, UInt8.toNat_ofNat_of_lt' (mod_add_lt_size n)]
      exact Nat.not_lt.mpr (Nat.le_add_left ..)
    simp only [List.cons_append, split, if_neg hge, ih]

theorem encode_ne_nil (n : Nat) : encode n ≠ [] := by
  rw [encode]
  split <;> exact List.cons_ne_nil _ _

/-- No number is written in more bytes than it needs. -/
theorem length_encode_le {n l : Nat} (hl : 0 < l) (h : n < 128 ^ l) : (encode n).length ≤ l := by
  induction l generalizing n with
  | zero => exact absurd hl (Nat.lt_irrefl 0)
  | succ l ih =>
    rw [encode]
    split
    · exact Nat.le_add_left ..
    · next hn =>
      have hl : 0 < l := by
        rcases Nat.eq_zero_or_pos l with rfl | hl
        · exact absurd h hn
        · exact hl
      refine Nat.succ_le_succ (ih hl ?_)
      rw [Nat.pow_succ] at h
      omega

/-- A number is written in no more bytes than any varint of it or of a larger one has. -/
theorem length_encode_le_of_le_value {n : Nat} {enc : Bytes} (hne : enc ≠ []) (h : n ≤ value enc) :
    (encode n).length ≤ enc.length :=
  length_encode_le (List.length_pos_iff.mpr hne) (Nat.lt_of_le_of_lt h (value_lt enc))

/-- A number that is not too large is read back from what is written. -/
theorem readRaw_encode {n : Nat} (h : n < 128 ^ maxLength) (more : Bytes) :
    readRaw (encode n ++ more) = .ok (encode n, more) :=
  readRaw_eq_ok_iff.mpr ⟨split_encode n more, length_encode_le (by decide) h⟩

/-- **A written number is read back**, if it fits in 64 bits. -/
theorem read_encode {n : Nat} (h : n < wordCount) (more : Bytes) :
    read (encode n ++ more) = .ok (n, more) := by
  refine read_eq_ok_iff.mpr ⟨encode n, readRaw_encode (Nat.lt_trans h (by decide)) more, ?_⟩
  rw [value_encode, Nat.mod_eq_of_lt h]

end Varint

/-! ## The bytes of a record -/

theorem Varint.append_of_readRaw {bs enc rest : Bytes} (h : Varint.readRaw bs = .ok (enc, rest)) :
    bs = enc ++ rest ∧ enc ≠ [] := by
  obtain ⟨hs, -⟩ := Varint.readRaw_eq_ok_iff.mp h
  exact ⟨Varint.append_of_split hs, Varint.ne_nil_of_split hs⟩

/-- A payload that is a number comes from one on the wire. -/
theorem readPayload_number {wire : WireType} {bs rest : Bytes} {n : Nat}
    (h : readPayload wire bs = .ok (.number n, rest)) :
    wire = .varint ∧ Varint.read bs = .ok (n, rest) := by
  rw [readPayload.eq_def] at h
  split at h
  · split at h <;> cases h
    exact ⟨rfl, ‹_›⟩
  · split at h <;> cases h
  · split at h <;> cases h
  · split at h <;> cases h
  · split at h <;> cases h
  · cases h

/-- A payload of bytes comes from a length and as many bytes. -/
theorem readPayload_bytes {wire : WireType} {bs rest body : Bytes}
    (h : readPayload wire bs = .ok (.bytes body, rest)) :
    wire = .bytes ∧ readBytes bs = .ok (body, rest) := by
  rw [readPayload.eq_def] at h
  split at h
  · split at h <;> cases h
  · split at h <;> cases h
    exact ⟨rfl, ‹_›⟩
  · split at h <;> cases h
  · split at h <;> cases h
  · split at h <;> cases h
  · cases h

section Raw

variable {bs rest : Bytes} {r : Record}

/-- A record is made of the bytes of its tag and those of its value. -/
theorem exists_value_of_readRecord (h : readRecord bs = .ok (r, rest)) :
    ∃ value, r.raw = r.tag.raw ++ value ∧
      readPayload r.tag.wire (value ++ rest) = .ok (r.payload, rest) := by
  obtain ⟨bs', htag, -, hpayload, -⟩ := readRecord_eq_ok_iff.mp h
  obtain ⟨raw, hraw, ht⟩ := readTag_eq_ok_iff.mp htag
  have hrawtag : r.tag.raw = raw := by
    obtain ⟨wire, -, htag⟩ := Option.map_eq_some_iff.mp ht
    rw [← htag]
  obtain ⟨value, rfl, -⟩ := endsItself_readPayload _ hpayload
  refine ⟨value, ?_, hpayload⟩
  have hbs := (readRecord_append h).1
  rw [(Varint.append_of_readRaw hraw).1, ← hrawtag, ← List.append_assoc] at hbs
  exact (List.append_cancel_right hbs).symm

/-- The bytes of a record with a number: the tag, and a varint of no smaller number. -/
theorem raw_of_number {n : Nat} (h : readRecord bs = .ok (r, rest)) (hp : r.payload = .number n) :
    r.tag.wire = .varint ∧
      ∃ enc, enc ≠ [] ∧ r.raw = r.tag.raw ++ enc ∧ n ≤ Varint.value enc := by
  obtain ⟨value, hraw, hpayload⟩ := exists_value_of_readRecord h
  rw [hp] at hpayload
  obtain ⟨hwire, hread⟩ := readPayload_number hpayload
  obtain ⟨enc, henc, rfl⟩ := Varint.read_eq_ok_iff.mp hread
  obtain ⟨happend, hne⟩ := Varint.append_of_readRaw henc
  rw [List.append_cancel_right happend] at hraw
  exact ⟨hwire, enc, hne, hraw, Nat.mod_le ..⟩

/-- The bytes of a record with bytes: the tag, a varint of no smaller number than their length, and the
bytes themselves. -/
theorem raw_of_bytes {body : Bytes} (h : readRecord bs = .ok (r, rest))
    (hp : r.payload = .bytes body) : r.tag.wire = .bytes ∧
      ∃ enc, enc ≠ [] ∧ r.raw = r.tag.raw ++ enc ++ body ∧ body.length ≤ Varint.value enc := by
  obtain ⟨value, hraw, hpayload⟩ := exists_value_of_readRecord h
  rw [hp] at hpayload
  obtain ⟨hwire, hread⟩ := readPayload_bytes hpayload
  obtain ⟨n, bs', hn, htake⟩ := readBytes_eq_ok_iff.mp hread
  obtain ⟨enc, henc, rfl⟩ := Varint.read_eq_ok_iff.mp hn
  obtain ⟨happend, hne⟩ := Varint.append_of_readRaw henc
  rw [takeBytes] at htake
  split at htake
  · next hle =>
    cases htake
    refine ⟨hwire, enc, hne, ?_, Nat.le_trans (List.length_take_le ..) (Nat.mod_le ..)⟩
    have hvalue : value = enc ++ bs'.take (Varint.value enc % Varint.wordCount) := by
      refine List.append_cancel_right (happend.trans ?_)
      rw [List.append_assoc, List.take_append_drop]
    rw [hraw, hvalue, List.append_assoc]
  · cases htake

end Raw

/-! ## Written records -/

theorem WireType.ofNumber?_number (w : WireType) : ofNumber? w.number = some w := by
  cases w <;> rfl

theorem WireType.number_lt (w : WireType) : w.number < 8 := by
  cases w <;> decide

/-- The numbers that fit beside a wire type. -/
def fieldCount : Nat := Varint.wordCount / 8

/-- **A tag is read back** from what is written. -/
theorem readTag_encodeTag {number : Nat} (h : number < fieldCount) (wire : WireType) (more : Bytes) :
    readTag (encodeTag number wire ++ more) = .ok (⟨encodeTag number wire, number, wire⟩, more) := by
  have hwire := wire.number_lt
  have hfits : 8 * number + wire.number < Varint.wordCount := by
    have : fieldCount * 8 = Varint.wordCount := rfl
    omega
  refine readTag_eq_ok_iff.mpr ⟨encodeTag number wire, ?_, ?_⟩
  · exact Varint.readRaw_encode (Nat.lt_trans hfits (by decide)) more
  · have hmod : (8 * number + wire.number) % 8 = wire.number := by omega
    have hdiv : (8 * number + wire.number) / 8 = number := by omega
    simp only [Tag.ofRaw?, encodeTag, Varint.value_encode, Nat.mod_eq_of_lt hfits, hmod, hdiv,
      WireType.ofNumber?_number, Option.map_some]

/-- A written tag with a value after it. -/
theorem readRecord_encodeTag {number : Nat} (hpos : number ≠ 0) (hfits : number < fieldCount)
    {wire : WireType} {value : Bytes} {p : Payload} {more : Bytes}
    (h : readPayload wire (value ++ more) = .ok (p, more)) :
    readRecord (encodeTag number wire ++ value ++ more) =
      .ok (⟨⟨encodeTag number wire, number, wire⟩, p, encodeTag number wire ++ value⟩, more) := by
  refine readRecord_eq_ok_iff.mpr ⟨value ++ more, ?_, hpos, h, ?_⟩
  · rw [List.append_assoc]
    exact readTag_encodeTag hfits wire _
  · exact (List.take_left' (by simp only [List.length_append]; omega)).symm

/-- **A written number** is a record of its field. -/
theorem readRecord_number {number n : Nat} (hpos : number ≠ 0) (hfits : number < fieldCount)
    (hn : n < Varint.wordCount) (more : Bytes) :
    readRecord (encodeTag number .varint ++ Varint.encode n ++ more) =
      .ok (⟨⟨encodeTag number .varint, number, .varint⟩, .number n,
        encodeTag number .varint ++ Varint.encode n⟩, more) := by
  refine readRecord_encodeTag hpos hfits ?_
  simp only [readPayload, Varint.read_encode hn more]

/-- Bytes are read back, too, if their length fits into a word. -/
theorem readBytes_encodeBytes {body : Bytes} (h : body.length < Varint.wordCount) (more : Bytes) :
    readBytes (encodeBytes body ++ more) = .ok (body, more) := by
  refine readBytes_eq_ok_iff.mpr ⟨body.length, body ++ more, ?_, takeBytes_append rfl more⟩
  rw [encodeBytes, List.append_assoc]
  exact Varint.read_encode h _

/-- **Written bytes** are a record of their field, if their length fits in 64 bits. -/
theorem readRecord_bytes {number : Nat} (hpos : number ≠ 0) (hfits : number < fieldCount)
    {body : Bytes} (hbody : body.length < Varint.wordCount) (more : Bytes) :
    readRecord (encodeTag number .bytes ++ encodeBytes body ++ more) =
      .ok (⟨⟨encodeTag number .bytes, number, .bytes⟩, .bytes body,
        encodeTag number .bytes ++ encodeBytes body⟩, more) := by
  refine readRecord_encodeTag hpos hfits ?_
  simp only [readPayload, readBytes_encodeBytes hbody more]

end CpuTrace.Wire
