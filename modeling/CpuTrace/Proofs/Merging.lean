import CpuTrace.Proofs.MessageReading
import CpuTrace.Wire.Writer
import Mathlib

/-!
# Concatenation and merging

Bytes that are put one after the other are read as one message: what the first part gives, with the
second part merged into it. `Message.merge` says what merging is, field by field: the values of a
repeated field follow those before, a later number or text takes the place of an earlier one, and two
messages in one field are merged in turn. Unknown fields follow one another.

The main statement is `parse_append_eq_merge`. It rests on two facts. Records end by themselves, so
the records of the first part are the same with the second part after it (`readInto_append`). And
reading into a message is reading into an empty one and merging afterwards (`readInto_merge`), at
every depth, since a message inside is read into what its field holds.
-/

namespace CpuTrace.Wire

/-! ## Merging -/

mutual

/-- Merges a second message of a kind into a first. -/
def Message.merge (k : MessageKind) : Message → Message → Message
  | .mk values unknown, n => .mk (mergeFields k.fields values n.values) (unknown ++ n.unknown)
termination_by structural m => m

/-- Merges the values of some fields. -/
def mergeFields (fs : List Field) : List (List Value) → List (List Value) → List (List Value)
  | [], _ => []
  | vs :: vss, wss =>
    match fs, wss with
    | f :: fs, ws :: wss => mergeValues f vs ws :: mergeFields fs vss wss
    | _, _ => []
termination_by structural vss => vss

/-- Merges the values of a field: all of them if it is repeated, else the later if there is one. -/
def mergeValues (f : Field) : List Value → List Value → List Value
  | [], ws => ws
  | v :: vs, ws =>
    if f.label = .repeated then v :: vs ++ ws
    else
      match ws with
      | [] => v :: vs
      | w :: ws => mergeValue f v w :: ws
termination_by structural vs => vs

/-- Merges a value into an earlier one: only messages have something of both. -/
def mergeValue (f : Field) : Value → Value → Value
  | .message s, w =>
    match f.type, w with
    | .message sub, .message t => .message (Message.merge sub s t)
    | _, w => w
  | .uint _, w => w
  | .text _, w => w
termination_by structural v => v

end

section Values

variable {f : Field} {v w : Value} {vs ws : List Value}

@[simp] theorem mergeValues_nil_left (f : Field) (ws : List Value) : mergeValues f [] ws = ws :=
  rfl

@[simp] theorem mergeValues_nil_right (f : Field) (vs : List Value) : mergeValues f vs [] = vs := by
  cases vs with
  | nil => rfl
  | cons v vs => simp [mergeValues]

/-- Values of a repeated field are put one after the other. -/
theorem mergeValues_repeated (h : f.label = .repeated) : mergeValues f vs ws = vs ++ ws := by
  cases vs with
  | nil => rfl
  | cons v vs => exact if_pos h

/-- Of any other field the two values are merged into one. -/
theorem mergeValues_cons (h : f.label ≠ .repeated) :
    mergeValues f (v :: vs) (w :: ws) = mergeValue f v w :: ws :=
  if_neg h

/-- A value that is no message takes the place of the other. -/
theorem mergeValue_of_not_message (hw : ∀ t, w ≠ .message t) : mergeValue f v w = w := by
  cases v with
  | uint n => rfl
  | text s => rfl
  | message s =>
    rw [mergeValue.eq_def]
    dsimp only
    split
    · exact (hw _ rfl).elim
    · rfl

/-- Messages are merged field by field. -/
theorem mergeValue_message {sub : MessageKind} {s t : Message} (htype : f.type = .message sub) :
    mergeValue f (.message s) (.message t) = .message (s.merge sub t) := by
  rw [mergeValue.eq_def]
  simp only [htype]

end Values

theorem mergeFields_nil_right (fs : List Field) (vss : List (List Value))
    (h : vss.length = fs.length) : mergeFields fs vss (fs.map fun _ => []) = vss := by
  induction fs generalizing vss with
  | nil => rw [List.eq_nil_of_length_eq_zero h, mergeFields]
  | cons f fs ih =>
    obtain ⟨vs, vss, rfl⟩ := List.exists_cons_of_length_eq_add_one h
    rw [List.map_cons, mergeFields, mergeValues_nil_right, ih vss (Nat.succ.inj h)]

theorem mergeFields_nil_left (fs : List Field) (wss : List (List Value))
    (h : wss.length = fs.length) : mergeFields fs (fs.map fun _ => []) wss = wss := by
  induction fs generalizing wss with
  | nil => rw [List.eq_nil_of_length_eq_zero h, List.map_nil, mergeFields]
  | cons f fs ih =>
    obtain ⟨ws, wss, rfl⟩ := List.exists_cons_of_length_eq_add_one h
    rw [List.map_cons, mergeFields, mergeValues, ih wss (Nat.succ.inj h)]

/-- Values given to a field of the second message are given to the merged one, where merging keeps
what they become. -/
theorem mergeFields_zipWith {number : Nat} {v v' : Value} (fs : List Field)
    (vss wss : List (List Value)) (h : ∀ e ∈ fs.zip vss, e.1.number = number → ∀ ws,
      mergeValues e.1 e.2 (Message.putValue e.1 v ws) =
        Message.putValue e.1 v' (mergeValues e.1 e.2 ws)) :
    mergeFields fs vss (List.zipWith (fun f ws =>
        if f.number = number then Message.putValue f v ws else ws) fs wss) =
      List.zipWith (fun f ws => if f.number = number then Message.putValue f v' ws else ws) fs
        (mergeFields fs vss wss) := by
  induction fs generalizing vss wss with
  | nil => cases vss <;> rfl
  | cons f fs ih =>
    cases vss with
    | nil => simp [mergeFields]
    | cons vs vss =>
      cases wss with
      | nil => simp [mergeFields]
      | cons ws wss =>
        rw [List.zip_cons_cons, List.forall_mem_cons] at h
        simp only [List.zipWith_cons_cons, mergeFields, ih vss wss h.2]
        congr 1
        split
        · next hnumber => exact h.1 hnumber ws
        · rfl

namespace Message

section Laws

variable {k sub : MessageKind} {m n s : Message} {f : Field}

/-- **Merging goes field by field**, and keeps the unknown records of both. -/
theorem merge_eq (k : MessageKind) (m n : Message) :
    m.merge k n = .mk (mergeFields k.fields m.values n.values) (m.unknown ++ n.unknown) := by
  cases m
  rfl

/-- The empty message changes nothing. -/
theorem merge_empty_right (h : m.values.length = k.fields.length) : m.merge k (empty k) = m := by
  rw [merge_eq, empty, Message.values, Message.unknown, List.append_nil,
    mergeFields_nil_right _ _ h]
  cases m
  rfl

theorem merge_empty_left (h : n.values.length = k.fields.length) : (empty k).merge k n = n := by
  rw [merge_eq, empty, Message.values, Message.unknown, List.nil_append, mergeFields_nil_left _ _ h]
  cases n
  rfl

/-- An unknown record can be added before or after. -/
theorem merge_addUnknown (raw : Bytes) :
    m.merge k (n.addUnknown raw) = (m.merge k n).addUnknown raw := by
  simp only [merge_eq, addUnknown, values, unknown, List.append_assoc]

/-- A value that a field of the second message is given, as the merged message has it. -/
theorem merge_put {v v' : Value} (hf : f ∈ k.fields) (h : ∀ vs, (f, vs) ∈ m.entries k → ∀ ws,
    mergeValues f vs (putValue f v ws) = putValue f v' (mergeValues f vs ws)) :
    m.merge k (n.put k f.number v) = (m.merge k n).put k f.number v' := by
  simp only [merge_eq, put, values, unknown]
  rw [mergeFields_zipWith]
  rintro ⟨g, vs⟩ he hnumber ws
  obtain rfl := MessageKind.eq_of_number_eq (List.of_mem_zip he).1 hf hnumber
  exact h vs he ws

/-- **Numbers and texts** given to the second message are given to the merged one. -/
theorem merge_put_scalar {v : Value} (hf : f ∈ k.fields) (hv : ∀ t, v ≠ .message t) :
    m.merge k (n.put k f.number v) = (m.merge k n).put k f.number v := by
  refine merge_put hf fun vs _ ws => ?_
  by_cases hlabel : f.label = .repeated
  · simp only [putValue, if_pos hlabel, mergeValues_repeated hlabel, List.append_assoc]
  · simp only [putValue, if_neg hlabel]
    cases vs with
    | nil => rfl
    | cons u vs => rw [mergeValues_cons hlabel, mergeValue_of_not_message hv]

/-- So are any number of them. -/
theorem merge_putAll {vs : List Value} (hf : f ∈ k.fields) (hvs : ∀ v ∈ vs, ∀ t, v ≠ .message t) :
    m.merge k (n.putAll k f.number vs) = (m.merge k n).putAll k f.number vs := by
  induction vs generalizing n with
  | nil => rfl
  | cons v vs ih =>
    obtain ⟨hv, hvs⟩ := List.forall_mem_cons.mp hvs
    exact (ih hvs).trans (congrArg (putAll k f.number vs) (merge_put_scalar hf hv))

/-- **A message** given to the second message, merged into what the first has in that field, is given
to the merged one. -/
theorem merge_put_message (hm : IsOf k m) (hf : f ∈ k.fields) (htype : f.type = .message sub)
    (hs : IsOf sub s) : m.merge k (n.put k f.number (.message s)) =
      (m.merge k n).put k f.number (.message ((m.current k sub f).merge sub s)) := by
  refine merge_put hf fun vs hvs ws => ?_
  obtain ⟨hlabel, hcurrent⟩ | ⟨hlabel, ⟨rfl, hcurrent⟩ | ⟨s', rfl, hcurrent⟩⟩ :=
    current_of_mem hm hvs htype
  · rw [hcurrent, merge_empty_left hs.length_values]
    simp only [putValue, if_pos hlabel, mergeValues_repeated hlabel, List.append_assoc]
  · rw [hcurrent, merge_empty_left hs.length_values]
    simp only [putValue, if_neg hlabel, mergeValues_nil_left]
  · rw [hcurrent]
    simp only [putValue, if_neg hlabel, mergeValues_cons hlabel, mergeValue_message htype]

theorem mem_zip_mergeFields {fs : List Field} {vs ws : List Value} :
    ∀ {vss wss : List (List Value)} {i : Nat}, (fs.zip vss)[i]? = some (f, vs) → wss[i]? = some ws →
      (f, mergeValues f vs ws) ∈ fs.zip (mergeFields fs vss wss) := by
  induction fs with
  | nil => intro vss wss i h; simp at h
  | cons g fs ih =>
    intro vss wss i h hw
    rcases vss with _ | ⟨us, vss⟩
    · simp at h
    rcases wss with _ | ⟨us', wss⟩
    · simp at hw
    rw [mergeFields, List.zip_cons_cons]
    cases i with
    | zero =>
      simp only [List.zip_cons_cons, List.getElem?_cons_zero, Option.some.injEq,
        Prod.mk.injEq] at h hw
      obtain ⟨rfl, rfl⟩ := h
      rw [hw]
      exact List.mem_cons_self ..
    | succ i =>
      simp only [List.zip_cons_cons, List.getElem?_cons_succ] at h hw
      exact List.mem_cons_of_mem _ (ih h hw)

/-- A field of the merged message. -/
theorem exists_mem_entries_merge (hm : IsOf k m) (hn : IsOf k n) (hf : f ∈ k.fields) :
    ∃ vs ws, (f, vs) ∈ m.entries k ∧ (f, ws) ∈ n.entries k ∧
      (f, mergeValues f vs ws) ∈ (m.merge k n).entries k := by
  obtain ⟨i, hi, rfl⟩ := List.getElem_of_mem hf
  have hvs : i < m.values.length := by rw [hm.length_values]; exact hi
  have hws : i < n.values.length := by rw [hn.length_values]; exact hi
  have hentry : (m.entries k)[i]? = some (k.fields[i], m.values[i]) := by
    rw [entries, List.getElem?_zip_eq_some]
    exact ⟨List.getElem?_eq_getElem hi, List.getElem?_eq_getElem hvs⟩
  have hentry' : (n.entries k)[i]? = some (k.fields[i], n.values[i]) := by
    rw [entries, List.getElem?_zip_eq_some]
    exact ⟨List.getElem?_eq_getElem hi, List.getElem?_eq_getElem hws⟩
  refine ⟨m.values[i], n.values[i], List.mem_of_getElem? hentry, List.mem_of_getElem? hentry', ?_⟩
  rw [merge_eq]
  exact mem_zip_mergeFields hentry (List.getElem?_eq_getElem hws)

/-- No field is lost. -/
theorem length_mergeFields {fs : List Field} : ∀ {vss wss : List (List Value)},
    vss.length = fs.length → wss.length = fs.length → (mergeFields fs vss wss).length = fs.length := by
  induction fs with
  | nil =>
    intro vss wss h _
    rw [List.eq_nil_of_length_eq_zero h, mergeFields]
    rfl
  | cons f fs ih =>
    intro vss wss h h'
    obtain ⟨vs, vss, rfl⟩ := List.exists_cons_of_length_eq_add_one h
    obtain ⟨ws, wss, rfl⟩ := List.exists_cons_of_length_eq_add_one h'
    rw [mergeFields, List.length_cons, ih (Nat.succ.inj h) (Nat.succ.inj h'), List.length_cons]

/-- **What a field holds** after merging is what it held on both sides, merged. -/
theorem current_merge (hm : IsOf k m) (hn : IsOf k n) (hf : f ∈ k.fields)
    (htype : f.type = .message sub) :
    (m.merge k n).current k sub f = (m.current k sub f).merge sub (n.current k sub f) := by
  have hempty : (empty sub).merge sub (empty sub) = empty sub :=
    merge_empty_left (isOf_empty sub).length_values
  have hlength : (m.merge k n).values.length = k.fields.length := by
    rw [merge_eq]
    exact length_mergeFields hm.length_values hn.length_values
  have hleft := (hm.current hf htype).length_values
  have hright := (hn.current hf htype).length_values
  obtain ⟨vs, ws, hvs, hws, hmerged⟩ := exists_mem_entries_merge hm hn hf
  have hget := get_of_mem hlength hmerged
  obtain ⟨hlabel, hc⟩ | ⟨hlabel, ⟨rfl, hc⟩ | ⟨s, rfl, hc⟩⟩ := current_of_mem hm hvs htype
  · obtain ⟨-, hc'⟩ | ⟨hlabel', -⟩ := current_of_mem hn hws htype
    · rw [hc, hc', hempty, current, if_pos hlabel]
    · exact (hlabel' hlabel).elim
  · rw [hc, merge_empty_left hright, current, current, if_neg hlabel, if_neg hlabel, hget,
      mergeValues_nil_left, get_of_mem hn.length_values hws]
  · rw [hc] at hleft
    obtain ⟨hlabel', -⟩ | ⟨-, ⟨rfl, hc'⟩ | ⟨t, rfl, hc'⟩⟩ := current_of_mem hn hws htype
    · exact (hlabel hlabel').elim
    · rw [hc, hc', merge_empty_right hleft, current, if_neg hlabel, hget, mergeValues_nil_right]
    · rw [hc, hc', current, if_neg hlabel, hget, mergeValues_cons hlabel, mergeValue_message htype]

end Laws

/-! ## Reading -/

/-- What a field takes from a record is no message, unless it holds messages. -/
theorem not_message_of_scalars {f : Field} {p : Payload} {vs : List Value}
    (htakes : f.takes p = true) (htype : ∀ sub, f.type ≠ .message sub)
    (h : f.scalars p = .ok vs) : ∀ v ∈ vs, ∀ t, v ≠ .message t := by
  rintro v hv t rfl
  obtain ⟨sub, hsub⟩ := Field.suits_of_scalars htakes htype h _ hv
  exact htype sub hsub

/-- **Reading into a merged message** is reading into the second one, and merging then. A fault is
the same in both. -/
theorem readInto_merge (k : MessageKind) (bs : Bytes) : ∀ {m n : Message}, IsOf k m → IsOf k n →
    readInto k (m.merge k n) bs = (readInto k n bs).map (m.merge k) := by
  induction k, bs using readInto_induction with
  | nil k =>
    intro m n _ _
    rw [readInto_nil, readInto_nil]
    rfl
  | error k bs e hne hr =>
    intro m n _ _
    rw [readInto_error hne hr, readInto_error hne hr]
    rfl
  | unknown k bs r rest hr hf ih =>
    intro m n hm hn
    rw [readInto_unknown hr hf, readInto_unknown hr hf, ← merge_addUnknown]
    exact ih hm (hn.addUnknown (isUnknown_of_readRecord hr hf))
  | message k bs r rest f sub body hr hf htype hp ihbody ihrest =>
    intro m n hm hn
    have hfield := (MessageKind.fieldOf?_eq_some_iff.mp hf).2.1
    have hleft := hm.current hfield htype
    have hright := hn.current hfield htype
    rw [readInto_message hr hf htype hp, readInto_message hr hf htype hp,
      current_merge hm hn hfield htype, ihbody hleft hright]
    rcases hs : readInto sub (n.current k sub f) body with e | s
    · rfl
    · have hsub := isOf_readInto sub body hright hs
      have hrest := ihrest hm (hn.put_message hfield htype hsub)
      rw [merge_put_message hm hfield htype hsub] at hrest
      exact hrest
  | scalar k bs r rest f hr hf htype ih =>
    intro m n hm hn
    obtain ⟨-, hfield, -, htakes⟩ := MessageKind.fieldOf?_eq_some_iff.mp hf
    rw [readInto_scalar hr hf htype, readInto_scalar hr hf htype]
    rcases hvs : f.scalars r.payload with e | vs
    · rfl
    · have hput := hn.putAll hfield (Field.suits_of_scalars htakes htype hvs) htype
      have hrest := ih hm hput
      rw [merge_putAll hfield (not_message_of_scalars htakes htype hvs)] at hrest
      exact hrest

/-- **Bytes after bytes** are read into what the first have given. -/
theorem readInto_append (k : MessageKind) (a b : Bytes) : ∀ {m m' : Message},
    readInto k m a = .ok m' → readInto k m (a ++ b) = readInto k m' b := by
  induction k, a using readInto_induction with
  | nil k =>
    intro m m' h
    rw [readInto_nil] at h
    cases h
    rfl
  | error k bs e hne hr =>
    intro m m' h
    rw [readInto_error hne hr] at h
    cases h
  | unknown k bs r rest hr hf ih =>
    intro m m' h
    rw [readInto_unknown hr hf] at h
    rw [readInto_unknown (readRecord_append_right hr b) hf]
    exact ih h
  | message k bs r rest f sub body hr hf htype hp _ ih =>
    intro m m' h
    rw [readInto_message hr hf htype hp] at h
    obtain ⟨s, hs, hrest⟩ := bind_eq_ok h
    rw [readInto_message (readRecord_append_right hr b) hf htype hp, hs]
    exact ih hrest
  | scalar k bs r rest f hr hf htype ih =>
    intro m m' h
    rw [readInto_scalar hr hf htype] at h
    obtain ⟨vs, hvs, hrest⟩ := bind_eq_ok h
    rw [readInto_scalar (readRecord_append_right hr b) hf htype, hvs]
    exact ih hrest

/-- **Reading turns concatenation into merging.** If bytes are read as a message of a kind, any others
after them are read as what they are read as alone, merged into that message, and if they are not a
message, the whole ends with their fault. -/
theorem parse_append_eq_merge (k : MessageKind) (a b : Bytes) (m : Message)
    (ha : parse k a = .ok m) :
    (∀ n, parse k b = .ok n → parse k (a ++ b) = .ok (m.merge k n)) ∧
      ∀ e, parse k b = .error e → parse k (a ++ b) = .error e := by
  have hm := isOf_parse ha
  have hwhole : parse k (a ++ b) = (parse k b).map (m.merge k) := by
    have h := readInto_merge k b hm (isOf_empty k)
    rw [merge_empty_right hm.length_values] at h
    rw [parse, readInto_append k a b ha, h, parse]
  constructor
  · intro n hn
    rw [hwhole, hn]
    rfl
  · intro e he
    rw [hwhole, he]
    rfl

/-- An entry with a number, a call stack with packed addresses and an unknown group. -/
def stackEntry : Bytes := [8, 5, 82, 4, 10, 2, 1, 2, 163, 6, 8, 1, 164, 6]

/-- An entry with another number, and a call stack that has one more address and an unknown field. -/
def laterEntry : Bytes := [82, 7, 8, 3, 45, 1, 2, 3, 4, 8, 9]

theorem parse_stackEntry_append : ∃ m n,
    (parse .logEntry stackEntry = .ok m ∧ parse .logEntry laterEntry = .ok n ∧
      parse .logEntry [82, 3, 8] = .error .truncated) ∧
    parse .logEntry (stackEntry ++ laterEntry) = .ok (m.merge .logEntry n) ∧
    (m.merge .logEntry n).encode .logEntry =
      [8, 9, 82, 11, 8, 1, 8, 2, 8, 3, 45, 1, 2, 3, 4, 163, 6, 8, 1, 164, 6] ∧
    parse .logEntry (stackEntry ++ [82, 3, 8]) = .error .truncated := by
  obtain ⟨m, hm⟩ := exists_of_isSome (x := parse .logEntry stackEntry) (by decide +kernel)
  obtain ⟨n, hn⟩ := exists_of_isSome (x := parse .logEntry laterEntry) (by decide +kernel)
  have hcut : parse .logEntry [82, 3, 8] = .error .truncated :=
    readInto_error (List.cons_ne_nil _ _) rfl
  have hwhole := (parse_append_eq_merge .logEntry stackEntry laterEntry m hm).1 n hn
  refine ⟨m, n, ⟨hm, hn, hcut⟩, hwhole, ?_,
    (parse_append_eq_merge .logEntry stackEntry [82, 3, 8] m hm).2 .truncated hcut⟩
  have hbytes : ((parse .logEntry (stackEntry ++ laterEntry)).map (encode .logEntry)).toOption =
      some [8, 9, 82, 11, 8, 1, 8, 2, 8, 3, 45, 1, 2, 3, 4, 163, 6, 8, 1, 164, 6] := by
    decide +kernel
  rw [hwhole] at hbytes
  exact Option.some.inj hbytes

end Message

end CpuTrace.Wire
