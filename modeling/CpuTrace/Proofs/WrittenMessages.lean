import CpuTrace.Proofs.MessageReading
import CpuTrace.Wire.Writer
import Mathlib

/-!
# Written messages

Reading gives back a message that was written, if it is of its kind (`Message.IsOf`) and its bytes are
few enough for their number to fit in 64 bits (`parse_encode`). The second condition is real: a longer
message inside another would be written with a length that is cut when it is read.

A field has one place in a message (`Field.HasPlace`). The values of a field are read back one
by one into that place (`readInto_encodeValues`), field after field (`readInto_encodeFields`), and the
unknown fields follow (`readInto_unknowns`).
-/

namespace CpuTrace.Wire

/-! ## Texts as bytes -/

theorem toList_loop (bs : ByteArray) (i : Nat) (r : List UInt8) :
    ByteArray.toList.loop bs i r = r.reverse ++ bs.data.toList.drop i := by
  fun_induction ByteArray.toList.loop bs i r with
  | case1 i r hlt ih =>
    have hi : i < bs.data.toList.length := hlt
    have hget : bs.get! i = bs.data.toList[i] := getElem!_pos bs.data i hlt
    rw [ih, List.drop_eq_getElem_cons hi, hget]
    simp
  | case2 i r hge =>
    have hi : bs.data.toList.length ≤ i := Nat.le_of_not_lt hge
    rw [List.drop_eq_nil_of_le hi, List.append_nil]

theorem toList_eq_data (bs : ByteArray) : bs.toList = bs.data.toList := by
  rw [ByteArray.toList, toList_loop]
  rfl

theorem toList_toByteArray (bs : Bytes) : bs.toByteArray.toList = bs := by
  rw [toList_eq_data, List.data_toByteArray]

/-- Bytes as an array and as a list are the same. -/
theorem toByteArray_toList (bs : ByteArray) : bs.toList.toByteArray = bs := by
  refine ByteArray.ext ?_
  rw [List.data_toByteArray, toList_eq_data]

/-- The bytes of a text are read as that text. -/
theorem fromUTF8?_toByteArray (s : String) : String.fromUTF8? s.toByteArray = some s :=
  dif_pos s.isValidUTF8

/-- A text that was read has the bytes it was read from. -/
theorem toByteArray_of_fromUTF8? {bs : ByteArray} {s : String}
    (h : String.fromUTF8? bs = some s) : s.toByteArray = bs := by
  rw [String.fromUTF8?] at h
  split at h
  · cases h
    rfl
  · cases h

/-! ## One place in a message -/

/-- The place of a field in a message: the values of the fields before it are in front, those of the
fields after it at the back. -/
def Field.HasPlace (f : Field) (k : MessageKind) (front back : List (List Value)) : Prop :=
  ∃ before after, k.fields = before ++ f :: after ∧ front.length = before.length ∧
    back.length = after.length

namespace Message

theorem zipWith_eq_right {g : Field → List Value → List Value} :
    ∀ {fs : List Field} {vss : List (List Value)}, vss.length = fs.length →
      (∀ f ∈ fs, ∀ vs, g f vs = vs) → List.zipWith g fs vss = vss := by
  intro fs
  induction fs with
  | nil =>
    intro vss hlength _
    rw [List.eq_nil_of_length_eq_zero hlength]
    rfl
  | cons f fs ih =>
    intro vss hlength h
    obtain ⟨vs, vss, rfl⟩ := List.exists_cons_of_length_eq_add_one hlength
    obtain ⟨hf, hfs⟩ := List.forall_mem_cons.mp h
    rw [List.zipWith_cons_cons, hf, ih (Nat.succ.inj hlength) hfs]

section Place

variable {k : MessageKind} {f : Field} {v : Value} {front back : List (List Value)} {vs : List Value}
  {unknown : List Bytes}

/-- **A value goes to the place of its field**, and nothing else changes. -/
theorem put_place (h : f.HasPlace k front back) :
    (mk (front ++ vs :: back) unknown).put k f.number v =
      mk (front ++ putValue f v vs :: back) unknown := by
  obtain ⟨before, after, hfields, hfront, hback⟩ := h
  -- no other field has the number
  have hnodup := k.nodup_numbers
  rw [hfields, List.map_append, List.map_cons, List.nodup_append, List.nodup_cons] at hnodup
  obtain ⟨-, ⟨hafter, -⟩, hbefore⟩ := hnodup
  have hbefore : ∀ g ∈ before, g.number ≠ f.number :=
    fun g hg => hbefore _ (List.mem_map_of_mem hg) _ (List.mem_cons_self ..)
  have hafter : ∀ g ∈ after, g.number ≠ f.number :=
    fun g hg hnumber => hafter (hnumber ▸ List.mem_map_of_mem hg)
  simp only [put, values, Message.unknown]
  rw [hfields, List.zipWith_append hfront.symm, List.zipWith_cons_cons, if_pos rfl,
    zipWith_eq_right hfront fun g hg _ => if_neg (hbefore g hg),
    zipWith_eq_right hback fun g hg _ => if_neg (hafter g hg)]

/-- A field that has a place is one of the kind. -/
theorem mem_fields_of_hasPlace (h : f.HasPlace k front back) : f ∈ k.fields := by
  obtain ⟨before, after, hfields, -, -⟩ := h
  rw [hfields]
  exact List.mem_append_right _ (List.mem_cons_self ..)

theorem mem_entries_place (h : f.HasPlace k front back) :
    (f, vs) ∈ (mk (front ++ vs :: back) unknown).entries k := by
  obtain ⟨before, after, hfields, hfront, -⟩ := h
  rw [entries, hfields, values, List.zip_append hfront.symm, List.zip_cons_cons]
  exact List.mem_append_right _ (List.mem_cons_self ..)

theorem length_place (h : f.HasPlace k front back) :
    (mk (front ++ vs :: back) unknown).values.length = k.fields.length := by
  obtain ⟨before, after, hfields, hfront, hback⟩ := h
  rw [values, hfields]
  simp only [List.length_append, List.length_cons, hfront, hback]

/-- Every message has a place for a field of its kind. -/
theorem exists_place {m : Message} (hlength : m.values.length = k.fields.length)
    (hf : f ∈ k.fields) :
    ∃ front vs back, f.HasPlace k front back ∧ m = mk (front ++ vs :: back) m.unknown := by
  obtain ⟨before, after, hfields⟩ := List.append_of_mem hf
  obtain ⟨values, unknown⟩ := m
  rw [Message.values, hfields] at hlength
  have hlt : before.length < values.length := by
    rw [hlength]
    simp
  refine ⟨values.take before.length, values[before.length], values.drop (before.length + 1),
    ⟨before, after, hfields, ?_, ?_⟩, ?_⟩
  · rw [List.length_take]
    omega
  · rw [List.length_drop, hlength]
    simp only [List.length_append, List.length_cons]
    omega
  · rw [List.getElem_cons_drop, List.take_append_drop]
    rfl

end Place

end Message

/-! ## The bytes of a message -/

section Bytes

variable {k : MessageKind} {f : Field}

@[simp] theorem encodeValues_nil (f : Field) : encodeValues f [] = [] := rfl

@[simp] theorem encodeValues_cons (f : Field) (v : Value) (vs : List Value) :
    encodeValues f (v :: vs) = encodeValue f v ++ encodeValues f vs := rfl

@[simp] theorem encodeValues_append (f : Field) (vs ws : List Value) :
    encodeValues f (vs ++ ws) = encodeValues f vs ++ encodeValues f ws := by
  induction vs with
  | nil => rfl
  | cons v vs ih => rw [List.cons_append, encodeValues_cons, ih, encodeValues_cons, List.append_assoc]

@[simp] theorem encodeFields_nil (fs : List Field) : encodeFields fs [] = [] := rfl

@[simp] theorem encodeFields_cons (f : Field) (fs : List Field) (vs : List Value)
    (vss : List (List Value)) :
    encodeFields (f :: fs) (vs :: vss) = encodeValues f vs ++ encodeFields fs vss := rfl

/-- Fields are written one after the other. -/
theorem encodeFields_append {fs gs : List Field} {vss wss : List (List Value)}
    (h : vss.length = fs.length) :
    encodeFields (fs ++ gs) (vss ++ wss) = encodeFields fs vss ++ encodeFields gs wss := by
  induction fs generalizing vss with
  | nil =>
    rw [List.eq_nil_of_length_eq_zero h]
    rfl
  | cons f fs ih =>
    obtain ⟨vs, vss, rfl⟩ := List.exists_cons_of_length_eq_add_one h
    simp only [List.cons_append, encodeFields_cons, ih (Nat.succ.inj h), List.append_assoc]

/-- A message is written field by field, with the unknown records after them. -/
theorem Message.encode_eq (k : MessageKind) (m : Message) :
    m.encode k = encodeFields k.fields m.values ++ m.unknown.flatten := by
  cases m
  rfl

/-- The values of a field are part of the bytes of a message. -/
theorem length_encodeValues_le {fs : List Field} {vss : List (List Value)} {vs : List Value}
    (h : (f, vs) ∈ fs.zip vss) : (encodeValues f vs).length ≤ (encodeFields fs vss).length := by
  induction fs generalizing vss with
  | nil => cases h
  | cons g fs ih =>
    cases vss with
    | nil => cases h
    | cons ws vss =>
      rw [encodeFields_cons, List.length_append]
      rcases List.mem_cons.mp h with h | h
      · cases h
        exact Nat.le_add_right ..
      · exact Nat.le_trans (ih h) (Nat.le_add_left ..)

theorem length_encodeValue_le {v : Value} {vs : List Value} (h : v ∈ vs) :
    (encodeValue f v).length ≤ (encodeValues f vs).length := by
  obtain ⟨before, after, rfl⟩ := List.append_of_mem h
  rw [encodeValues_append, encodeValues_cons]
  simp only [List.length_append]
  omega

/-- A message inside a message is written as bytes. -/
theorem encodeValue_message {sub : MessageKind} (htype : f.type = .message sub) (s : Message) :
    encodeValue f (.message s) = encodeTag f.number .bytes ++ encodeBytes (s.encode sub) := by
  rw [encodeValue.eq_def]
  simp only [htype]

theorem length_le_encodeBytes (tag body : Bytes) : body.length ≤ (tag ++ encodeBytes body).length := by
  simp only [encodeBytes, List.length_append]
  omega

end Bytes

/-! ## Reading back -/

namespace Message

section ReadingBack

variable {k sub : MessageKind} {m : Message} {f : Field} {v : Value}

/-- A written record belongs to the field that it was written for. -/
theorem fieldOf?_written (hf : f ∈ k.fields) {wire : WireType} {p : Payload} {raw : Bytes}
    (htakes : f.takes p = true) :
    k.fieldOf? ⟨⟨encodeTag f.number wire, f.number, wire⟩, p, raw⟩ = some f :=
  MessageKind.fieldOf?_eq_some_iff.mpr ⟨beq_self_eq_true _, hf, rfl, htakes⟩

/-- A value can be read back: if it is a message, this one can be. -/
def ReadsBack (f : Field) (v : Value) : Prop :=
  ∀ sub s, f.type = .message sub → v = .message s → parse sub (s.encode sub) = .ok s

/-- A field is free for a message: nothing is there for it to be read into. -/
def IsFree (k : MessageKind) (f : Field) (m : Message) : Prop :=
  ∀ sub, f.type = .message sub → m.current k sub f = empty sub

/-- **A value is read back** into a field that is free. -/
theorem readInto_encodeValue (hf : f ∈ k.fields) (hv : v.Suits f)
    (hlength : (encodeValue f v).length < Varint.wordCount) (hback : ReadsBack f v)
    (hfree : m.IsFree k f) (rest : Bytes) :
    readInto k m (encodeValue f v ++ rest) = readInto k (m.put k f.number v) rest := by
  obtain ⟨hpos, hfits⟩ := MessageKind.number_bounds hf
  cases v with
  | uint n =>
    have hn : n < Varint.wordCount := by
      rcases hv with ⟨-, hn⟩ | ⟨-, hn⟩
      · exact Nat.lt_trans hn (by decide)
      · exact hn
    have hcut : f.type.cut n = n := by
      rcases hv with ⟨htype, hn⟩ | ⟨htype, hn⟩ <;> rw [htype] <;> exact Nat.mod_eq_of_lt hn
    have htakes : f.takes (.number n) = true := by
      rcases hv with ⟨htype, -⟩ | ⟨htype, -⟩ <;> simp [Field.takes, htype]
    have htype : ∀ sub, f.type ≠ .message sub := by
      rcases hv with ⟨htype, -⟩ | ⟨htype, -⟩ <;> simp [htype]
    rw [encodeValue.eq_def, readInto_scalar (readRecord_number hpos hfits hn rest)
      (fieldOf?_written hf htakes) htype, Field.scalars, hcut]
    rfl
  | text s =>
    have htype : f.type = .text := hv
    have htakes : f.takes (.bytes s.toByteArray.toList) = true := by simp [Field.takes, htype]
    rw [encodeValue.eq_def] at hlength ⊢
    have hbody := Nat.lt_of_le_of_lt (length_le_encodeBytes _ _) hlength
    rw [readInto_scalar (readRecord_bytes hpos hfits hbody rest) (fieldOf?_written hf htakes)
      (by simp [htype]), Field.scalars, if_pos htype, toByteArray_toList, fromUTF8?_toByteArray]
    rfl
  | message s =>
    obtain ⟨sub, htype⟩ := hv
    have htakes : f.takes (.bytes (s.encode sub)) = true := by simp [Field.takes, htype]
    rw [encodeValue_message htype] at hlength ⊢
    have hbody := Nat.lt_of_le_of_lt (length_le_encodeBytes _ _) hlength
    have hparse : readInto sub (empty sub) (s.encode sub) = .ok s := hback sub s htype rfl
    rw [readInto_message (readRecord_bytes hpos hfits hbody rest) (fieldOf?_written hf htakes) htype
      rfl, hfree sub htype, hparse]
    rfl

/-- A repeated field is always free, since no value of it is read into another. -/
theorem isFree_of_repeated (hlabel : f.label = .repeated) : m.IsFree k f :=
  fun _ _ => if_pos hlabel

/-- So is a field without a value. -/
theorem isFree_of_nil (hlength : m.values.length = k.fields.length)
    (h : (f, []) ∈ m.entries k) : m.IsFree k f := by
  intro sub _
  rw [current, get_of_mem hlength h]
  split <;> rfl

variable {front back : List (List Value)} {unknown : List Bytes}

/-- **The values of a field** are read back into its place, after those that are there. -/
theorem readInto_encodeValues (h : f.HasPlace k front back) (rest : Bytes) {vs : List Value}
    (hvs : ∀ v ∈ vs, v.Suits f) (hread : ∀ v ∈ vs, ReadsBack f v)
    (hlength : (encodeValues f vs).length < Varint.wordCount) :
    ∀ {ws : List Value}, (f.label ≠ .repeated → (ws ++ vs).length ≤ 1) →
      readInto k (mk (front ++ ws :: back) unknown) (encodeValues f vs ++ rest) =
        readInto k (mk (front ++ (ws ++ vs) :: back) unknown) rest := by
  induction vs with
  | nil =>
    intro ws _
    rw [encodeValues_nil, List.nil_append, List.append_nil]
  | cons v vs ih =>
    intro ws hsingle
    obtain ⟨hv, hvs⟩ := List.forall_mem_cons.mp hvs
    obtain ⟨hreadv, hread⟩ := List.forall_mem_cons.mp hread
    rw [encodeValues_cons, List.length_append] at hlength
    have hput : putValue f v ws = ws ++ [v] := by
      rw [putValue]
      split
      · rfl
      · next hlabel =>
        have := hsingle hlabel
        rw [List.length_append, List.length_cons] at this
        rw [List.eq_nil_of_length_eq_zero (by omega : ws.length = 0)]
        rfl
    have hfree : (mk (front ++ ws :: back) unknown).IsFree k f := by
      by_cases hlabel : f.label = .repeated
      · exact isFree_of_repeated hlabel
      · have := hsingle hlabel
        rw [List.length_append, List.length_cons] at this
        obtain rfl := List.eq_nil_of_length_eq_zero (by omega : ws.length = 0)
        exact isFree_of_nil (length_place h) (mem_entries_place h)
    have hassoc : ws ++ v :: vs = ws ++ [v] ++ vs := by simp
    rw [encodeValues_cons, List.append_assoc,
      readInto_encodeValue (mem_fields_of_hasPlace h) hv (by omega) hreadv hfree, put_place h, hput,
      hassoc]
    exact ih hvs hread (by omega) (hassoc ▸ hsingle)

/-- **Fields** are read back one after the other. -/
theorem readInto_encodeFields (rest : Bytes) {vss : List (List Value)} :
    ∀ {before after : List Field} {front : List (List Value)}, k.fields = before ++ after →
      front.length = before.length → vss.length = after.length →
      (∀ e ∈ after.zip vss, e.1.label ≠ .repeated → e.2.length ≤ 1) →
      (∀ e ∈ after.zip vss, ∀ v ∈ e.2, v.Suits e.1) →
      (∀ e ∈ after.zip vss, ∀ v ∈ e.2, ReadsBack e.1 v) →
      (encodeFields after vss).length < Varint.wordCount →
      readInto k (mk (front ++ after.map fun _ => []) unknown) (encodeFields after vss ++ rest) =
        readInto k (mk (front ++ vss) unknown) rest := by
  induction vss with
  | nil =>
    intro before after front _ _ hlength _ _ _ _
    rw [List.eq_nil_of_length_eq_zero hlength.symm]
    rfl
  | cons vs vss ih =>
    intro before after front hfields hfront hlength hsingle hsuits hread hbytes
    obtain ⟨f, after, rfl⟩ := List.exists_cons_of_length_eq_add_one hlength.symm
    rw [List.zip_cons_cons] at hsingle hsuits hread
    obtain ⟨hsingle', hsingle⟩ := List.forall_mem_cons.mp hsingle
    obtain ⟨hsuits', hsuits⟩ := List.forall_mem_cons.mp hsuits
    obtain ⟨hread', hread⟩ := List.forall_mem_cons.mp hread
    rw [encodeFields_cons, List.length_append] at hbytes
    have hvalues : readInto k (mk (front ++ [] :: after.map fun _ => []) unknown)
        (encodeValues f vs ++ (encodeFields after vss ++ rest)) =
          readInto k (mk (front ++ vs :: after.map fun _ => []) unknown)
            (encodeFields after vss ++ rest) :=
      readInto_encodeValues ⟨before, after, hfields, hfront, List.length_map _⟩ _ hsuits' hread'
        (Nat.lt_of_le_of_lt (Nat.le_add_right ..) hbytes) hsingle'
    have hfields' : k.fields = before ++ [f] ++ after := by
      rw [hfields, List.append_assoc]
      rfl
    have hrest : readInto k (mk (front ++ [vs] ++ after.map fun _ => []) unknown)
        (encodeFields after vss ++ rest) = readInto k (mk (front ++ [vs] ++ vss) unknown) rest :=
      ih hfields' (by rw [List.length_append, List.length_append, hfront]; rfl)
        (Nat.succ.inj hlength) hsingle hsuits hread
        (Nat.lt_of_le_of_lt (Nat.le_add_left ..) hbytes)
    rw [List.append_assoc, List.append_assoc] at hrest
    rw [List.map_cons, encodeFields_cons, List.append_assoc, hvalues]
    exact hrest

/-- **Unknown fields** are kept as they were. -/
theorem readInto_unknowns {raws : List Bytes} (h : ∀ raw ∈ raws, IsUnknown k raw) :
    ∀ {m : Message}, readInto k m raws.flatten = .ok (mk m.values (m.unknown ++ raws)) := by
  induction raws with
  | nil =>
    intro m
    rw [List.flatten_nil, readInto_nil, List.append_nil]
    cases m
    rfl
  | cons raw raws ih =>
    intro m
    obtain ⟨⟨r, hr, rfl, hf⟩, hraws⟩ := List.forall_mem_cons.mp h
    rw [List.flatten_cons, readInto_unknown (hr _) hf, ih hraws, addUnknown, values, Message.unknown,
      List.append_assoc]
    rfl

end ReadingBack

/-- **A written message is read back**, if it is of its kind and its length fits in 64 bits. -/
theorem parse_encode {k : MessageKind} {m : Message} (h : IsOf k m)
    (hlength : (m.encode k).length < Varint.wordCount) : parse k (m.encode k) = .ok m := by
  induction h with
  | @mk k m length single suits _ unknown ih =>
    rw [encode_eq, List.length_append] at hlength
    have hread : ∀ e ∈ m.entries k, ∀ v ∈ e.2, ReadsBack e.1 v := by
      rintro e he v hv sub s htype rfl
      refine ih e he sub s htype hv ?_
      -- the message inside is part of the bytes of its field
      have hinside := length_le_encodeBytes (encodeTag e.1.number .bytes) (s.encode sub)
      rw [← encodeValue_message htype] at hinside
      have hvalue := length_encodeValue_le (f := e.1) hv
      have hfield : (encodeValues e.1 e.2).length ≤ (encodeFields k.fields m.values).length :=
        length_encodeValues_le he
      omega
    have hfields : readInto k (empty k) (encodeFields k.fields m.values ++ m.unknown.flatten) =
        readInto k (mk m.values []) m.unknown.flatten :=
      readInto_encodeFields _ (List.nil_append _).symm List.length_nil length single suits hread
        (by omega)
    rw [parse, encode_eq, hfields, readInto_unknowns unknown]
    cases m
    rfl

end Message

end CpuTrace.Wire
