import CpuTrace.Proofs.WrittenMessages
import Mathlib

/-!
# Reading and writing again

Bytes can say one thing in many ways: numbers with needless bytes, packed numbers, a message in
several parts. Writing uses one way only. So bytes change when they are read and written again, but
what they say does not (`parse_encode_parse`), and they change only once.

Lengths are written before what they count, and a length is cut to 64 bits when it is read. So this
needs that no length outgrows 64 bits. Writing makes bytes longer only where packed numbers get a tag
each, and at most twice as long (`length_encode_readInto`), since these tags have one byte. So it is
enough that fewer than 2⁶³ bytes are read, which is all that a machine can address.
-/

namespace CpuTrace.Wire

/-! ## Lengths of numbers -/

namespace Varint

theorem lt_pow_length_encode (n : Nat) : n < 128 ^ (encode n).length := by
  have h := value_lt (encode n)
  rwa [value_encode] at h

theorem length_encode_pos (n : Nat) : 0 < (encode n).length :=
  List.length_pos_iff.mpr (encode_ne_nil n)

theorem length_encode_mono {m n : Nat} (h : m ≤ n) : (encode m).length ≤ (encode n).length :=
  length_encode_le (length_encode_pos n) (Nat.lt_of_le_of_lt h (lt_pow_length_encode n))

/-- A sum needs no more bytes than its parts have together. -/
theorem length_encode_add (m n : Nat) :
    (encode (m + n)).length ≤ (encode m).length + (encode n).length := by
  refine length_encode_le (Nat.add_pos_left (length_encode_pos m) _) ?_
  have hm := lt_pow_length_encode m
  have hn := lt_pow_length_encode n
  have htwo : ∀ l, 0 < l → 2 ≤ 128 ^ l := fun l hl =>
    Nat.le_trans (by decide : 2 ≤ 128 ^ 1) (Nat.pow_le_pow_right (by decide) hl)
  have hm2 := htwo _ (length_encode_pos m)
  have hn2 := htwo _ (length_encode_pos n)
  calc m + n < 128 ^ (encode m).length + 128 ^ (encode n).length := Nat.add_lt_add hm hn
    _ ≤ 128 ^ (encode m).length * 128 ^ (encode n).length := Nat.add_le_mul hm2 hn2
    _ = 128 ^ ((encode m).length + (encode n).length) := (Nat.pow_add ..).symm

end Varint

/-! ## Lengths of messages -/

/-- The tag of a repeated number has one byte. -/
theorem length_encodeTag_of_repeated {k : MessageKind} {f : Field} (hf : f ∈ k.fields)
    (hlabel : f.label = .repeated) : (encodeTag f.number .varint).length = 1 := by
  have hall : ∀ f ∈ k.fields, f.label = .repeated → f.number < 16 := by
    cases k <;> decide
  have hnumber := hall f hf hlabel
  rw [encodeTag, Varint.encode, if_pos (by simp only [WireType.number]; omega)]
  rfl

namespace Message

section Lengths

variable {k : MessageKind} {m : Message} {f : Field} {v : Value} {vs : List Value}

/-- Only the place of a field counts when its values change. -/
theorem length_encode_place {front back : List (List Value)} {unknown : List Bytes}
    (h : f.HasPlace k front back) : ∃ others, ∀ vs,
      ((mk (front ++ vs :: back) unknown).encode k).length =
        others + (encodeValues f vs).length := by
  obtain ⟨before, after, hfields, hfront, -⟩ := h
  refine ⟨(encodeFields before front).length + (encodeFields after back).length +
    unknown.flatten.length, fun vs => ?_⟩
  rw [encode_eq, hfields, values, Message.unknown, encodeFields_append hfront, encodeFields_cons]
  simp only [List.length_append]
  omega

/-- What a message grows by when a field is given a value. -/
theorem length_encode_put (hlength : m.values.length = k.fields.length)
    (hvs : (f, vs) ∈ m.entries k) :
    ((m.put k f.number v).encode k).length + (encodeValues f vs).length =
      (m.encode k).length + (encodeValues f (putValue f v vs)).length := by
  obtain ⟨front, ws, back, hplace, hm⟩ := exists_place hlength (mem_fields_of_mem_entries hvs)
  obtain ⟨others, hothers⟩ : ∃ others, ∀ vs, ((mk (front ++ vs :: back) m.unknown).encode k).length =
      others + (encodeValues f vs).length := length_encode_place hplace
  have hws : (f, ws) ∈ m.entries k := by
    rw [hm]
    exact mem_entries_place hplace
  obtain rfl : ws = vs := (get_of_mem hlength hws).symm.trans (get_of_mem hlength hvs)
  have hold := hothers ws
  have hnew := hothers (putValue f v ws)
  rw [← put_place hplace, ← hm] at hnew
  rw [← hm] at hold
  simp only at hnew hold
  omega

/-- A value is written after those of its field, or instead of them. -/
theorem length_encodeValues_putValue_le (f : Field) (v : Value) (vs : List Value) :
    (encodeValues f (putValue f v vs)).length ≤
      (encodeValues f vs).length + (encodeValue f v).length := by
  rw [putValue]
  split
  · rw [encodeValues_append, encodeValues_cons, encodeValues_nil, List.append_nil,
      List.length_append]
  · rw [encodeValues_cons, encodeValues_nil, List.append_nil]
    exact Nat.le_add_left ..

/-- So a message grows at most by the bytes of a value. -/
theorem length_encode_put_le (hlength : m.values.length = k.fields.length) (hf : f ∈ k.fields) :
    ((m.put k f.number v).encode k).length ≤ (m.encode k).length + (encodeValue f v).length := by
  obtain ⟨vs, hvs⟩ := exists_mem_entries hlength hf
  have hput := length_encode_put (v := v) hlength hvs
  have hle := length_encodeValues_putValue_le f v vs
  omega

/-- It grows at most by those of many. -/
theorem length_encode_putAll_le (hlength : m.values.length = k.fields.length) (hf : f ∈ k.fields) :
    ((m.putAll k f.number vs).encode k).length ≤ (m.encode k).length + (encodeValues f vs).length := by
  induction vs generalizing m with
  | nil => exact Nat.le_refl _
  | cons v vs ih =>
    have hput := length_encode_put_le (v := v) hlength hf
    have hrest : ((m.putAll k f.number (v :: vs)).encode k).length ≤
        ((m.put k f.number v).encode k).length + (encodeValues f vs).length :=
      ih (length_put hlength f.number)
    rw [encodeValues_cons, List.length_append]
    omega

theorem encode_empty (k : MessageKind) : (empty k).encode k = [] := by
  rw [encode_eq, empty, values, unknown, List.flatten_nil, List.append_nil]
  generalize k.fields = fs
  induction fs with
  | nil => rfl
  | cons f fs ih => rw [List.map_cons, encodeFields_cons, encodeValues_nil, List.nil_append, ih]

end Lengths

/-! ## Lengths of records -/

section Records

variable {k sub : MessageKind} {m s : Message} {f : Field} {bs rest body : Bytes} {r : Record}

/-- The tag of a record that belongs to a field. -/
theorem tag_raw_of_fieldOf? (hf : k.fieldOf? r = some f) :
    r.tag.raw = encodeTag f.number r.tag.wire := by
  obtain ⟨hminimal, -, hnumber, -⟩ := MessageKind.fieldOf?_eq_some_iff.mp hf
  rw [hnumber]
  exact beq_iff_eq.mp hminimal

/-- A number is cut off, never made larger. -/
theorem cut_le (t : FieldType) (n : Nat) : t.cut n ≤ n := by
  cases t <;> exact Nat.mod_le ..

/-- Packed numbers grow at most twofold, if their tag has one byte. -/
theorem length_unpack_le (htag : (encodeTag f.number .varint).length = 1) {ns : List Nat}
    (h : unpack body = .ok ns) :
    (encodeValues f (ns.map fun n => .uint (f.type.cut n))).length ≤ 2 * body.length := by
  fun_induction unpack body generalizing ns with
  | case1 =>
    cases h
    exact Nat.zero_le _
  | case2 => cases h
  | case3 => cases h
  | case4 b bs n rest hread ns' hrest ih =>
    cases h
    obtain ⟨enc, henc, rfl⟩ := Varint.read_eq_ok_iff.mp hread
    obtain ⟨happend, hne⟩ := Varint.append_of_readRaw henc
    have hnumber := Varint.length_encode_le_of_le_value hne
      (Nat.le_trans (cut_le f.type (Varint.value enc % Varint.wordCount)) (Nat.mod_le ..))
    have hpos := List.length_pos_iff.mpr hne
    have hrest' := ih hrest
    rw [happend, List.map_cons, encodeValues_cons, encodeValue.eq_def]
    simp only [List.length_append, htag]
    omega

/-- **Numbers and texts** take at most twice the bytes of the record that they come from. -/
theorem length_scalars_le (h : readRecord bs = .ok (r, rest)) (hf : k.fieldOf? r = some f)
    (htype : ∀ sub, f.type ≠ .message sub) {vs : List Value} (hvs : f.scalars r.payload = .ok vs) :
    (encodeValues f vs).length ≤ 2 * r.raw.length := by
  have htag := tag_raw_of_fieldOf? hf
  obtain ⟨-, hfield, -, htakes⟩ := MessageKind.fieldOf?_eq_some_iff.mp hf
  rcases hp : r.payload with n | body | _
  · obtain ⟨hwire, enc, hne, hraw, hn⟩ := raw_of_number h hp
    rw [hp] at hvs
    cases hvs
    have hnumber := Varint.length_encode_le_of_le_value hne (Nat.le_trans (cut_le f.type n) hn)
    rw [hraw, htag, hwire, encodeValues_cons, encodeValues_nil, encodeValue.eq_def]
    simp only [List.length_append, List.length_nil]
    omega
  · obtain ⟨hwire, enc, hne, hraw, hn⟩ := raw_of_bytes h hp
    rw [hp, Field.scalars] at hvs
    split at hvs
    · split at hvs
      · next text hs =>
        cases hvs
        have hbody : text.toByteArray.toList = body := by
          rw [toByteArray_of_fromUTF8? hs, toList_toByteArray]
        have hlength := Varint.length_encode_le_of_le_value hne hn
        rw [hraw, htag, hwire, encodeValues_cons, encodeValues_nil, encodeValue.eq_def]
        simp only [hbody, encodeBytes, List.length_append, List.length_nil]
        omega
      · cases hvs
    · next htext =>
      have hlabel : f.label = .repeated := by
        rw [hp] at htakes
        cases ht : f.type with
        | text => exact (htext ht).elim
        | message sub => exact (htype sub ht).elim
        | uint32 => simpa [Field.takes, ht] using htakes
        | uint64 => simpa [Field.takes, ht] using htakes
      rcases hns : unpack body with e | ns
      · rw [hns] at hvs
        cases hvs
      · rw [hns] at hvs
        cases hvs
        have hbody := length_unpack_le (length_encodeTag_of_repeated hfield hlabel) hns
        rw [hraw]
        simp only [List.length_append]
        omega
  · rw [hp] at hvs
    cases hvs
    exact Nat.zero_le _

/-- **A message** grows by at most twice the bytes of the record that is read into it, if what is in
the record does. -/
theorem length_encode_put_message (hm : IsOf k m) (h : readRecord bs = .ok (r, rest))
    (hf : k.fieldOf? r = some f) (htype : f.type = .message sub) (hp : r.payload = .bytes body)
    (hs : (s.encode sub).length ≤ ((m.current k sub f).encode sub).length + 2 * body.length) :
    ((m.put k f.number (.message s)).encode k).length ≤ (m.encode k).length + 2 * r.raw.length := by
  have htag := tag_raw_of_fieldOf? hf
  have hfield := (MessageKind.fieldOf?_eq_some_iff.mp hf).2.1
  obtain ⟨hwire, enc, hne, hraw, hn⟩ := raw_of_bytes h hp
  rw [hwire] at htag
  have hlength := hm.length_values
  have hbody := Varint.length_encode_le_of_le_value hne hn
  have htwice : (Varint.encode (2 * body.length)).length ≤ 2 * enc.length := by
    have hadd := Varint.length_encode_add body.length body.length
    rw [← Nat.two_mul] at hadd
    omega
  have hvalue : ∀ t : Message, (encodeValue f (.message t)).length =
      r.tag.raw.length + (Varint.encode (t.encode sub).length).length + (t.encode sub).length := by
    intro t
    rw [encodeValue_message htype, htag, encodeBytes]
    simp only [List.length_append, Nat.add_assoc]
  have hs' := Varint.length_encode_mono hs
  have hraw' : r.raw.length = r.tag.raw.length + enc.length + body.length := by
    rw [hraw, List.length_append, List.length_append]
  -- a message that is read into an empty one is all new
  have hfresh (hcurrent : m.current k sub f = empty sub) :
      (encodeValue f (.message s)).length ≤ 2 * r.raw.length := by
    rw [hcurrent, encode_empty, List.length_nil, Nat.zero_add] at hs hs'
    rw [hvalue s]
    omega
  have hput := length_encode_put_le (v := .message s) hlength hfield
  obtain ⟨vs, hvs⟩ := exists_mem_entries hlength hfield
  obtain ⟨-, hcurrent⟩ | ⟨hlabel, ⟨-, hcurrent⟩ | ⟨t, rfl, hcurrent⟩⟩ := current_of_mem hm hvs htype
  · have := hfresh hcurrent
    omega
  · have := hfresh hcurrent
    omega
  · -- otherwise it takes the place of the message that it was read into
    have hreplaced := length_encode_put (v := .message s) hlength hvs
    rw [putValue, if_neg hlabel] at hreplaced
    simp only [encodeValues_cons, encodeValues_nil, List.append_nil, hvalue] at hreplaced
    have hadd := Varint.length_encode_add (t.encode sub).length (2 * body.length)
    rw [hcurrent] at hs hs'
    omega

end Records

/-- An unknown record takes the bytes that it had. -/
theorem length_encode_addUnknown (k : MessageKind) (m : Message) (raw : Bytes) :
    ((m.addUnknown raw).encode k).length = (m.encode k).length + raw.length := by
  rw [encode_eq, encode_eq, addUnknown, values, Message.unknown, List.flatten_append]
  simp only [List.length_append, List.flatten_cons, List.flatten_nil, List.length_nil]
  omega

/-- **Reading makes a message grow** by at most twice the bytes that are read. -/
theorem length_encode_readInto (k : MessageKind) (bs : Bytes) : ∀ {m m' : Message}, IsOf k m →
    readInto k m bs = .ok m' → (m'.encode k).length ≤ (m.encode k).length + 2 * bs.length := by
  induction k, bs using readInto_induction with
  | nil k =>
    intro m m' hm h
    rw [readInto_nil] at h
    cases h
    exact Nat.le_add_right ..
  | error k bs e hne hr =>
    intro m m' hm h
    rw [readInto_error hne hr] at h
    cases h
  | unknown k bs r rest hr hf ih =>
    intro m m' hm h
    rw [readInto_unknown hr hf] at h
    have hrest := ih (hm.addUnknown (isUnknown_of_readRecord hr hf)) h
    rw [length_encode_addUnknown] at hrest
    rw [(readRecord_append hr).1, List.length_append]
    omega
  | message k bs r rest f sub body hr hf htype hp ihbody ihrest =>
    intro m m' hm h
    rw [readInto_message hr hf htype hp] at h
    obtain ⟨s, hs, hrest⟩ := bind_eq_ok h
    have hfield := (MessageKind.fieldOf?_eq_some_iff.mp hf).2.1
    have hcurrent := hm.current hfield htype
    have hput := length_encode_put_message hm hr hf htype hp (ihbody hcurrent hs)
    have hlength := ihrest (hm.put_message hfield htype (isOf_readInto sub body hcurrent hs)) hrest
    rw [(readRecord_append hr).1, List.length_append]
    omega
  | scalar k bs r rest f hr hf htype ih =>
    intro m m' hm h
    rw [readInto_scalar hr hf htype] at h
    obtain ⟨vs, hvs, hrest⟩ := bind_eq_ok h
    obtain ⟨-, hfield, -, htakes⟩ := MessageKind.fieldOf?_eq_some_iff.mp hf
    have hput : ((m.putAll k f.number vs).encode k).length ≤
        (m.encode k).length + (encodeValues f vs).length :=
      length_encode_putAll_le hm.length_values hfield
    have hscalars := length_scalars_le hr hf htype hvs
    have hlength := ih (hm.putAll hfield (Field.suits_of_scalars htakes htype hvs) htype) hrest
    rw [(readRecord_append hr).1, List.length_append]
    omega

/-- A message that was read is written in at most twice the bytes. -/
theorem length_encode_parse {k : MessageKind} {bs : Bytes} {m : Message} (h : parse k bs = .ok m) :
    (m.encode k).length ≤ 2 * bs.length := by
  have hle := length_encode_readInto k bs (isOf_empty k) h
  rwa [encode_empty, List.length_nil, Nat.zero_add] at hle

/-! ## Reading and writing again -/

/-- Reads a message of a kind, and writes it again. -/
def reencode (k : MessageKind) (bs : Bytes) : Except Fault Bytes := (parse k bs).map (encode k)

/-- **What was read is read again** after it has been written: every field with its values in order,
every message inside it, and what no field takes. So bytes that were read and written stay the same
when they are read and written again. The bound leaves out nothing that a machine with addresses of 64
bits can hold, and without a bound this is false (`exists_parse_encode_ne`). -/
theorem parse_encode_parse (k : MessageKind) (bs : Bytes) (hbs : bs.length < 2 ^ 63) :
    (∀ m, parse k bs = .ok m → parse k (m.encode k) = .ok m) ∧
      (reencode k bs).bind (reencode k) = reencode k bs := by
  have hagain : ∀ m, parse k bs = .ok m → parse k (m.encode k) = .ok m := by
    intro m hm
    refine parse_encode (isOf_parse hm) ?_
    calc (m.encode k).length ≤ 2 * bs.length := length_encode_parse hm
      _ < 2 * 2 ^ 63 := Nat.mul_lt_mul_of_pos_left hbs (by decide)
      _ = Varint.wordCount := rfl
  refine ⟨hagain, ?_⟩
  rcases hm : parse k bs with e | m
  · rw [reencode, hm]
    rfl
  · have honce : reencode k bs = .ok (m.encode k) := by
      rw [reencode, hm]
      rfl
    rw [honce]
    show reencode k (m.encode k) = _
    rw [reencode, hagain m hm]
    rfl

/-- An entry with a number in needless bytes, a field whose tag has a needless byte, a group, and a
call stack in two parts, of which one has packed addresses and the other a text that no field takes. -/
def oddEntry : Bytes :=
  [8, 133, 128, 0, 136, 0, 7, 82, 6, 10, 4, 1, 172, 2, 3, 163, 6, 8, 1, 164, 6, 82, 6, 18, 2, 104, 105,
    8, 9, 42, 0]

theorem parse_encode_parse_oddEntry : oddEntry.length < 2 ^ 63 ∧ ∃ m,
    parse .logEntry oddEntry = .ok m ∧ parse .logEntry (m.encode .logEntry) = .ok m ∧
      reencode .logEntry oddEntry = .ok (m.encode .logEntry) ∧
      reencode .logEntry (m.encode .logEntry) = .ok (m.encode .logEntry) ∧
      m.encode .logEntry = [8, 5, 82, 13, 8, 1, 8, 172, 2, 8, 3, 8, 9, 18, 2, 104, 105, 136, 0, 7, 163, 6,
        8, 1, 164, 6, 42, 0] := by
  have hlength : oddEntry.length < 2 ^ 63 := by decide
  obtain ⟨m, hm⟩ := exists_of_isSome (x := parse .logEntry oddEntry) (by decide +kernel)
  obtain ⟨hagain, hstable⟩ := parse_encode_parse .logEntry oddEntry hlength
  have honce : reencode .logEntry oddEntry = .ok (m.encode .logEntry) := by
    rw [reencode, hm]
    rfl
  rw [honce] at hstable
  refine ⟨hlength, m, hm, hagain m hm, honce, hstable, ?_⟩
  have hbytes : (reencode .logEntry oddEntry).toOption = some [8, 5, 82, 13, 8, 1, 8, 172, 2, 8, 3, 8, 9,
      18, 2, 104, 105, 136, 0, 7, 163, 6, 8, 1, 164, 6, 42, 0] := by
    decide +kernel
  rw [honce] at hbytes
  exact Option.some.inj hbytes

/-! ## The bound

2⁶³ packed zeros are written in 2⁶⁴ bytes, and this length is read as zero.
-/

section Bound

/-- The first field of an entry. -/
def pcField : Field := ⟨.required, .uint64, "pc", 1⟩

/-- The field of an entry with its call stack. -/
def stackField : Field := ⟨.optional, .message .callStack, "call_stack", 10⟩

/-- The field of a call stack with its addresses. -/
def addressField : Field := ⟨.repeated, .uint64, "addr", 1⟩

/-- A call stack of zeros. -/
def zeroStack (n : Nat) : Message := mk [.replicate n (.uint 0)] []

/-- An entry with nothing but a call stack. -/
def entryWith (s : Message) : Message := (empty .logEntry).put .logEntry 10 (.message s)

theorem unpack_replicate (n : Nat) : unpack (.replicate n 0) = .ok (.replicate n 0) := by
  induction n with
  | zero => rw [List.replicate_zero, List.replicate_zero, unpack]
  | succ n ih =>
    have hread : Varint.read (0 :: .replicate n 0) = .ok (0, .replicate n 0) := rfl
    rw [List.replicate_succ, unpack]
    split
    · next h => cases hread.symm.trans h
    · next h =>
      cases hread.symm.trans h
      rw [ih]
      rfl

theorem putAll_addresses (ws vs : List Value) :
    (mk [ws] []).putAll .callStack 1 vs = mk [ws ++ vs] [] := by
  induction vs generalizing ws with
  | nil =>
    rw [List.append_nil]
    rfl
  | cons v vs ih =>
    have hput : (mk [ws] []).put .callStack 1 v = mk [ws ++ [v]] [] := rfl
    rw [putAll, List.foldl_cons, hput, ← putAll, ih, List.append_assoc, List.singleton_append]

/-- Packed zeros are read as a call stack. -/
theorem parse_zeros {n : Nat} (hn : n < Varint.wordCount) :
    parse .callStack (encodeTag 1 .bytes ++ encodeBytes (.replicate n 0)) = .ok (zeroStack n) := by
  have hlength : (List.replicate n (0 : UInt8)).length < Varint.wordCount := by
    rwa [List.length_replicate]
  have hfield : addressField ∈ MessageKind.callStack.fields := by decide
  have htype : ∀ sub, addressField.type ≠ .message sub := by
    intro sub h
    cases h
  have htext : addressField.type ≠ .text := by decide
  have hrecord := readRecord_bytes (by decide : 1 ≠ 0) (by decide) hlength []
  rw [List.append_nil] at hrecord
  rw [parse, readInto_scalar (f := addressField) hrecord
    (fieldOf?_written hfield rfl) htype, Field.scalars,
    if_neg htext, unpack_replicate]
  show readInto _ (putAll _ _ ((List.replicate n 0).map _) _) [] = _
  rw [List.map_replicate, readInto_nil]
  exact congrArg Except.ok (putAll_addresses [] _)

/-- A call stack is read as part of an entry. -/
theorem parse_entryWith {s : Message} {body : Bytes} (hs : parse .callStack body = .ok s)
    (hlength : body.length < Varint.wordCount) :
    parse .logEntry (encodeTag 10 .bytes ++ encodeBytes body) = .ok (entryWith s) := by
  have hfield : stackField ∈ MessageKind.logEntry.fields := by decide
  have hrecord := readRecord_bytes (by decide : 10 ≠ 0) (by decide) hlength []
  have hcurrent : (empty .logEntry).current .logEntry .callStack stackField = empty .callStack := rfl
  rw [List.append_nil] at hrecord
  rw [parse, readInto_message (f := stackField) hrecord
    (fieldOf?_written hfield rfl) rfl rfl, hcurrent, ← parse, hs]
  exact readInto_nil ..

theorem encode_entryWith (s : Message) :
    (entryWith s).encode .logEntry = encodeTag 10 .bytes ++ encodeBytes (s.encode .callStack) := by
  simp [entryWith, empty, put, putValue, MessageKind.fields, encode_eq, values, Message.unknown,
    encodeValue]

theorem encode_zeroStack (n : Nat) :
    (zeroStack n).encode .callStack = encodeValues pcField (.replicate n (.uint 0)) := by
  have hfield : encodeValue addressField (.uint 0) = encodeValue pcField (.uint 0) := rfl
  rw [zeroStack, encode_eq, values, Message.unknown, List.flatten_nil, List.append_nil]
  show encodeValues addressField _ ++ [] = _
  rw [List.append_nil]
  induction n with
  | zero => rfl
  | succ n ih => rw [List.replicate_succ, encodeValues_cons, encodeValues_cons, hfield, ih]

theorem length_encode_zeroStack (n : Nat) : ((zeroStack n).encode .callStack).length = 2 * n := by
  rw [encode_zeroStack]
  induction n with
  | zero => rfl
  | succ n ih =>
    have hlength : (encodeValue pcField (.uint 0)).length = 2 := by decide +kernel
    rw [List.replicate_succ, encodeValues_cons, List.length_append, ih, hlength]
    omega

/-- Zeros that are read into an entry change its first field only. -/
theorem readInto_zeros (n : Nat) {vss : List (List Value)} (hlength : vss.length = 21) :
    ∀ ws, ∃ ws', readInto .logEntry (mk (ws :: vss) []) (encodeValues pcField (.replicate n (.uint 0))) =
      .ok (mk (ws' :: vss) []) := by
  have hplace : pcField.HasPlace .logEntry [] vss := ⟨[], _, rfl, rfl, hlength⟩
  induction n with
  | zero => exact fun ws => ⟨ws, readInto_nil ..⟩
  | succ n ih =>
    intro ws
    obtain ⟨ws', h⟩ := ih (putValue pcField (.uint 0) ws)
    refine ⟨ws', ?_⟩
    have hput : (mk (ws :: vss) []).put .logEntry 1 (.uint 0) =
        mk (putValue pcField (.uint 0) ws :: vss) [] := put_place hplace
    have hvalue : ∀ rest, readInto .logEntry (mk (ws :: vss) []) (encodeValue pcField (.uint 0) ++ rest) =
        readInto .logEntry ((mk (ws :: vss) []).put .logEntry 1 (.uint 0)) rest :=
      readInto_encodeValue (mem_fields_of_hasPlace hplace) (Or.inr ⟨rfl, by decide⟩)
        (by decide +kernel) (fun _ _ htype => nomatch htype) (fun _ htype => nomatch htype)
    rw [List.replicate_succ, encodeValues_cons, hvalue, hput]
    exact h

/-- A call stack that has as many bytes as there are words is read as an empty one, and its bytes as
what follows it. -/
theorem readRecord_wordCount {body : Bytes} (hlength : body.length = Varint.wordCount) : ∃ raw,
    readRecord (encodeTag 10 .bytes ++ encodeBytes body) =
      .ok (⟨⟨encodeTag 10 .bytes, 10, .bytes⟩, .bytes [], raw⟩, body) := by
  have hencode : Varint.encode Varint.wordCount = [128, 128, 128, 128, 128, 128, 128, 128, 128, 2] := by
    decide +kernel
  have hread : readBytes (Varint.encode Varint.wordCount ++ body) = .ok ([], body) := by
    rw [hencode]
    have hnone : ([] : Bytes).length = 0 := rfl
    exact readBytes_eq_ok_iff.mpr ⟨0, body, rfl, takeBytes_append hnone body⟩
  refine ⟨encodeTag 10 .bytes ++ Varint.encode Varint.wordCount, ?_⟩
  rw [encodeBytes, hlength, ← List.append_assoc]
  refine readRecord_encodeTag (by decide) (by decide) ?_
  simp only [readPayload, hread]

/-- **Longer bytes** need not be read again as what they were read as before. -/
theorem exists_parse_encode_ne : ∃ bs m, parse .logEntry bs = .ok m ∧
    parse .logEntry (m.encode .logEntry) ≠ .ok m := by
  obtain ⟨n, hn⟩ : ∃ n, n = 2 ^ 63 := ⟨_, rfl⟩
  have hword : 2 * n = Varint.wordCount := by
    rw [hn]
    rfl
  have hlarge : 12 < n := by
    rw [hn]
    decide
  have hzeros := parse_zeros (n := n) (by omega)
  refine ⟨_, entryWith (zeroStack n), parse_entryWith hzeros ?_, ?_⟩
  · have htag : (encodeTag 1 .bytes).length = 1 := by decide +kernel
    have hnumber : (Varint.encode n).length ≤ 10 := Varint.length_encode_le (by decide) (by
      rw [hn]
      decide)
    rw [encodeBytes, List.length_append, List.length_append, List.length_replicate, htag]
    omega
  · have hfield : stackField ∈ MessageKind.logEntry.fields := by decide
    obtain ⟨raw, hrecord⟩ := readRecord_wordCount ((length_encode_zeroStack n).trans hword)
    rw [encode_entryWith, parse, readInto_message (f := stackField) hrecord
      (fieldOf?_written hfield rfl) rfl rfl, readInto_nil, encode_zeroStack]
    intro h
    -- the addresses are gone, since all zeros were read into the first field
    have hvss : (entryWith (empty .callStack)).values.tail.length = 21 := rfl
    obtain ⟨ws, hws⟩ := readInto_zeros n hvss []
    have hentry := Except.ok.inj (hws.symm.trans h)
    have hstack : [Value.message (empty .callStack)] = [Value.message (zeroStack n)] :=
      congrArg (get .logEntry 10) hentry
    have hnone : n = 0 := by
      simpa [empty, zeroStack, MessageKind.fields] using hstack
    omega

end Bound

end Message

end CpuTrace.Wire
