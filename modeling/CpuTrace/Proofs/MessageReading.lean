import CpuTrace.Wire.Parser
import CpuTrace.Proofs.Records
import Mathlib

/-!
# What reading does to a message

Reading goes record by record, and a record does one of three things (`readInto_unknown`,
`readInto_message`, `readInto_scalar`): it is kept as an unknown field, it is read into the message
that a field holds, or it gives a field some numbers or a text, which depend on the record alone
(`Field.scalars`). `readInto_induction` is the induction that goes with it.

From this comes what all messages have in common that reading can build (`Message.IsOf`): each field
has values of its type, no more than one unless it is repeated, and each unknown field is a record
that no field of the kind takes. `isOf_readInto` says that reading keeps it.
-/

namespace CpuTrace.Wire

/-! ## The fields of a kind -/

namespace MessageKind

variable {k : MessageKind} {f g : Field}

/-- No two fields of a kind have one number. -/
theorem nodup_numbers (k : MessageKind) : (k.fields.map Field.number).Nodup := by
  cases k <;> decide

/-- Field numbers are positive and not too large. -/
theorem number_bounds (h : f ∈ k.fields) : f.number ≠ 0 ∧ f.number < fieldCount := by
  have hall : ∀ f ∈ k.fields, f.number ≠ 0 ∧ f.number < fieldCount := by
    cases k <;> decide
  exact hall f h

/-- A field is known by its number. -/
theorem eq_of_number_eq (hf : f ∈ k.fields) (hg : g ∈ k.fields) (h : f.number = g.number) : f = g :=
  List.inj_on_of_nodup_map k.nodup_numbers hf hg h

/-- A record belongs to a field if its tag is as short as it can be and has the number of the field,
and its payload is of a kind that the field takes. -/
theorem fieldOf?_eq_some_iff {r : Record} :
    k.fieldOf? r = some f ↔ r.tag.isMinimal = true ∧ f ∈ k.fields ∧ f.number = r.tag.number ∧
      f.takes r.payload = true := by
  rw [fieldOf?]
  split
  · next hminimal =>
    constructor
    · intro h
      have htest := List.find?_some h
      rw [Bool.and_eq_true, beq_iff_eq] at htest
      exact ⟨hminimal, List.mem_of_find?_eq_some h, htest.1, htest.2⟩
    · rintro ⟨-, hf, hnumber, htakes⟩
      have hsome : (k.fields.find? fun f => f.number == r.tag.number && f.takes r.payload).isSome := by
        rw [List.find?_isSome]
        exact ⟨f, hf, by rw [htakes, Bool.and_true, beq_iff_eq]; exact hnumber⟩
      obtain ⟨g, hg⟩ := Option.isSome_iff_exists.mp hsome
      have htest := List.find?_some hg
      rw [Bool.and_eq_true, beq_iff_eq] at htest
      rw [hg, eq_of_number_eq (List.mem_of_find?_eq_some hg) hf (htest.1.trans hnumber.symm)]
  · next hminimal => simp [hminimal]

end MessageKind

/-! ## One record -/

/-- The numbers or the text that a record gives a field. -/
def Field.scalars (f : Field) : Payload → Except Fault (List Value)
  | .number n => .ok [.uint (f.type.cut n)]
  | .bytes body =>
    if f.type = .text then
      match String.fromUTF8? body.toByteArray with
      | some s => .ok [.text s]
      | none => .error .notUtf8
    else (unpack body).map fun ns => ns.map fun n => .uint (f.type.cut n)
  | .foreign => .ok []

namespace Message

/-- Gives a field of a message some values, one after the other. -/
def putAll (k : MessageKind) (number : Nat) (vs : List Value) (m : Message) : Message :=
  vs.foldl (fun m v => m.put k number v) m

section Equations

variable {k sub : MessageKind} {m : Message} {bs rest body : Bytes} {r : Record} {f : Field}

@[simp] theorem readInto_nil (k : MessageKind) (m : Message) : readInto k m [] = .ok m := by
  rw [readInto]

/-- A record is not read from nothing. -/
theorem exists_cons_of_readRecord (h : readRecord bs = .ok (r, rest)) : ∃ b bs', bs = b :: bs' := by
  cases bs with
  | nil => cases h
  | cons b bs' => exact ⟨b, bs', rfl⟩

/-- A record that cannot be read ends the message. -/
theorem readInto_error {e : Fault} (hne : bs ≠ []) (h : readRecord bs = .error e) :
    readInto k m bs = .error e := by
  obtain ⟨b, bs, rfl⟩ := List.exists_cons_of_ne_nil hne
  rw [readInto]
  split
  · next h' => rw [h] at h'; cases h'; rfl
  · next h' => rw [h] at h'; cases h'

/-- A record of no field is kept. -/
theorem readInto_unknown (h : readRecord bs = .ok (r, rest)) (hf : k.fieldOf? r = none) :
    readInto k m bs = readInto k (m.addUnknown r.raw) rest := by
  obtain ⟨b, bs, rfl⟩ := exists_cons_of_readRecord h
  rw [readInto]
  split
  · next h' => rw [h] at h'; cases h'
  · next h' =>
    rw [h] at h'
    cases h'
    simp only [hf]

/-- A record of a field that holds a message is read into that message. -/
theorem readInto_message (h : readRecord bs = .ok (r, rest)) (hf : k.fieldOf? r = some f)
    (htype : f.type = .message sub) (hbody : r.payload = .bytes body) :
    readInto k m bs = (readInto sub (m.current k sub f) body).bind fun s =>
      readInto k (m.put k f.number (.message s)) rest := by
  obtain ⟨b, bs, rfl⟩ := exists_cons_of_readRecord h
  rw [readInto]
  split
  · next h' => rw [h] at h'; cases h'
  · next h' =>
    rw [h] at h'
    cases h'
    simp only [hf]
    split
    · next ht hp =>
      rw [htype] at ht
      rw [hbody] at hp
      cases ht
      cases hp
      rcases readInto sub (m.current k sub f) body with e | s <;> rfl
    all_goals simp_all

/-- A record of another field gives it numbers or a text. -/
theorem readInto_scalar (h : readRecord bs = .ok (r, rest)) (hf : k.fieldOf? r = some f)
    (htype : ∀ sub, f.type ≠ .message sub) :
    readInto k m bs = (f.scalars r.payload).bind fun vs =>
      readInto k (m.putAll k f.number vs) rest := by
  have htakes := (MessageKind.fieldOf?_eq_some_iff.mp hf).2.2.2
  obtain ⟨b, bs, rfl⟩ := exists_cons_of_readRecord h
  rw [readInto]
  split
  · next h' => rw [h] at h'; cases h'
  · next h' =>
    rw [h] at h'
    cases h'
    simp only [hf]
    split
    · next ht _ => exact (htype _ ht).elim
    · next body ht hp =>
      rw [hp, Field.scalars, if_pos ht]
      rcases String.fromUTF8? body.toByteArray with _ | s <;> rfl
    · next n hp =>
      rw [hp]
      rfl
    · next body hp _ htext =>
      rw [hp, Field.scalars, if_neg htext]
      rcases unpack body with e | ns
      · rfl
      · simp [Except.map, Except.bind, putAll, List.foldl_map]
    · next hp =>
      rw [hp] at htakes
      cases ht : f.type <;> simp [Field.takes, ht] at htakes

end Equations

/-- **Induction over reading**: over the records of a message, and over the bytes of each record that
holds a message. -/
theorem readInto_induction {P : MessageKind → Bytes → Prop} (nil : ∀ k, P k [])
    (error : ∀ k bs e, bs ≠ [] → readRecord bs = .error e → P k bs)
    (unknown : ∀ k bs r rest, readRecord bs = .ok (r, rest) → k.fieldOf? r = none →
      P k rest → P k bs)
    (message : ∀ k bs r rest f sub body, readRecord bs = .ok (r, rest) → k.fieldOf? r = some f →
      f.type = .message sub → r.payload = .bytes body → P sub body → P k rest → P k bs)
    (scalar : ∀ k bs r rest f, readRecord bs = .ok (r, rest) → k.fieldOf? r = some f →
      (∀ sub, f.type ≠ .message sub) → P k rest → P k bs)
    (k : MessageKind) (bs : Bytes) : P k bs := by
  induction hn : bs.length using Nat.strongRecOn generalizing k bs with
  | ind n ih =>
    subst hn
    by_cases hnil : bs = []
    · exact hnil ▸ nil k
    rcases hr : readRecord bs with e | ⟨r, rest⟩
    · exact error k bs e hnil hr
    obtain ⟨hrest, hbody⟩ := length_lt_of_readRecord hr
    have ihrest := ih _ hrest k rest rfl
    rcases hf : k.fieldOf? r with _ | f
    · exact unknown k bs r rest hr hf ihrest
    by_cases htype : ∃ sub, f.type = .message sub
    · obtain ⟨sub, htype⟩ := htype
      obtain ⟨body, hp⟩ : ∃ body, r.payload = .bytes body := by
        have htakes := (MessageKind.fieldOf?_eq_some_iff.mp hf).2.2.2
        rcases hp : r.payload with n | body | _
        · simp [Field.takes, htype, hp] at htakes
        · exact ⟨body, rfl⟩
        · simp [Field.takes, htype, hp] at htakes
      exact message k bs r rest f sub body hr hf htype hp (ih _ (hbody body hp) sub body rfl) ihrest
    · exact scalar k bs r rest f hr hf (fun sub hsub => htype ⟨sub, hsub⟩) ihrest

/-! ## Messages of a kind -/

end Message

/-- Bytes that are one record, which no field of a kind takes. -/
def IsUnknown (k : MessageKind) (raw : Bytes) : Prop :=
  ∃ r, (∀ more, readRecord (raw ++ more) = .ok (r, more)) ∧ r.raw = raw ∧ k.fieldOf? r = none

/-- A value is of the type that a field holds, and fits in its width. -/
def Value.Suits (f : Field) : Value → Prop
  | .uint n => f.type = .uint32 ∧ n < 2 ^ 32 ∨ f.type = .uint64 ∧ n < 2 ^ 64
  | .text _ => f.type = .text
  | .message _ => ∃ sub, f.type = .message sub

namespace Message

/-- The fields of a message with their values. -/
def entries (k : MessageKind) (m : Message) : List (Field × List Value) := k.fields.zip m.values

/-- **A message of a kind**, as reading builds it. -/
inductive IsOf : MessageKind → Message → Prop
  /-- every field has its values, no more than one unless it is repeated, all of its type and, if they
  are messages, of their kind; what no field takes is kept record by record -/
  | mk {k : MessageKind} {m : Message} (length : m.values.length = k.fields.length)
    (single : ∀ e ∈ m.entries k, e.1.label ≠ .repeated → e.2.length ≤ 1)
    (suits : ∀ e ∈ m.entries k, ∀ v ∈ e.2, v.Suits e.1)
    (inner : ∀ e ∈ m.entries k, ∀ sub s, e.1.type = .message sub → .message s ∈ e.2 → IsOf sub s)
    (unknown : ∀ raw ∈ m.unknown, IsUnknown k raw) : IsOf k m

section IsOf

variable {k sub : MessageKind} {m : Message} {f : Field} {v : Value}

theorem IsOf.length_values (h : IsOf k m) : m.values.length = k.fields.length := by
  cases h
  assumption

theorem mem_fields_of_mem_entries {e : Field × List Value} (h : e ∈ m.entries k) : e.1 ∈ k.fields :=
  (List.of_mem_zip h).1

theorem map_fst_entries (hlength : m.values.length = k.fields.length) :
    (m.entries k).map Prod.fst = k.fields :=
  List.map_fst_zip (Nat.le_of_eq hlength.symm)

/-- A field has its values in one place. -/
theorem exists_mem_entries (hlength : m.values.length = k.fields.length) (hf : f ∈ k.fields) :
    ∃ vs, (f, vs) ∈ m.entries k := by
  obtain ⟨i, hi, rfl⟩ := List.getElem_of_mem hf
  refine ⟨m.values[i], ?_⟩
  rw [entries, ← List.getElem_zip (h := by rw [List.length_zip]; omega)]
  exact List.getElem_mem _

/-- The values of a field are those that stand beside it. -/
theorem get_of_mem (hlength : m.values.length = k.fields.length) {vs : List Value}
    (h : (f, vs) ∈ m.entries k) : m.get k f.number = vs := by
  have hsome : ((m.entries k).find? fun e => e.1.number == f.number).isSome := by
    rw [List.find?_isSome]
    exact ⟨(f, vs), h, beq_self_eq_true _⟩
  obtain ⟨⟨g, ws⟩, hg⟩ := Option.isSome_iff_exists.mp hsome
  have hmem := List.mem_of_find?_eq_some hg
  obtain rfl : g = f := MessageKind.eq_of_number_eq (mem_fields_of_mem_entries hmem)
    (mem_fields_of_mem_entries h) (by simpa using List.find?_some hg)
  have hnodup : ((m.entries k).map Prod.fst).Nodup := by
    rw [map_fst_entries hlength]
    exact List.Nodup.of_map _ k.nodup_numbers
  rw [get, ← entries, hg]
  exact (List.inj_on_of_nodup_map hnodup hmem h rfl |> Prod.mk.inj).2

/-- A value changes its own field, and leaves the others. -/
theorem entries_put (number : Nat) (v : Value) (m : Message) :
    (m.put k number v).entries k = (m.entries k).map fun e =>
      (e.1, if e.1.number = number then putValue e.1 v e.2 else e.2) := by
  obtain ⟨values, unknown⟩ := m
  simp only [entries, put, Message.values]
  generalize k.fields = fs
  induction fs generalizing values with
  | nil => rfl
  | cons f fs ih =>
    cases values with
    | nil => rfl
    | cons vs values => simp only [List.zipWith_cons_cons, List.zip_cons_cons, List.map_cons, ih]

theorem length_put (hlength : m.values.length = k.fields.length) (number : Nat) :
    (m.put k number v).values.length = k.fields.length := by
  simp [put, values, List.length_zipWith, ← hlength]

/-- A field has its old values and the new one, and no others. -/
theorem mem_putValue {u : Value} {vs : List Value} (h : u ∈ putValue f v vs) : u ∈ vs ∨ u = v := by
  rw [putValue] at h
  split at h
  · simpa using h
  · exact .inr (List.mem_singleton.mp h)

/-- The empty message is of every kind. -/
theorem isOf_empty (k : MessageKind) : IsOf k (empty k) := by
  have hnone : ∀ e ∈ (empty k).entries k, e.2 = [] := by
    intro e he
    have := (List.of_mem_zip he).2
    simp only [empty, values, List.mem_map] at this
    obtain ⟨-, -, h⟩ := this
    exact h.symm
  refine .mk (by simp [empty, values]) (fun e he _ => ?_) (fun e he v hv => ?_)
    (fun e he sub s _ hs => ?_) nofun
  · rw [hnone e he]
    exact Nat.zero_le _
  · rw [hnone e he] at hv
    cases hv
  · rw [hnone e he] at hs
    cases hs

/-- A record that no field takes may join the unknown ones. -/
theorem IsOf.addUnknown (hm : IsOf k m) {raw : Bytes} (hraw : IsUnknown k raw) :
    IsOf k (m.addUnknown raw) := by
  obtain ⟨length, single, suits, inner, unknown⟩ := hm
  refine .mk length single suits inner fun raw' h => ?_
  rcases List.mem_append.mp h with h | h
  · exact unknown raw' h
  · rw [List.mem_singleton.mp h]
    exact hraw

/-- Giving a field a value of its type keeps a message of its kind. -/
theorem IsOf.put (hm : IsOf k m) (hf : f ∈ k.fields) (hv : v.Suits f)
    (hinner : ∀ sub s, f.type = .message sub → v = .message s → IsOf sub s) :
    IsOf k (m.put k f.number v) := by
  obtain ⟨length, single, suits, inner, unknown⟩ := hm
  -- a value in the new message was there before, or is the new one in its field
  have hmem : ∀ e ∈ (m.put k f.number v).entries k, ∃ vs, (e.1, vs) ∈ m.entries k ∧
      (e.2 = vs ∨ e.1 = f ∧ e.2 = putValue f v vs) := by
    intro e he
    rw [entries_put] at he
    obtain ⟨e', he', rfl⟩ := List.mem_map.mp he
    refine ⟨e'.2, he', ?_⟩
    split
    · next hnumber =>
      have heq := MessageKind.eq_of_number_eq (mem_fields_of_mem_entries he') hf hnumber
      exact .inr ⟨heq, by rw [heq]⟩
    · exact .inl rfl
  refine .mk (length_put length _) (fun e he hlabel => ?_) (fun e he u hu => ?_)
    (fun e he sub s htype hs => ?_) unknown
  · obtain ⟨vs, hvs, heq | ⟨hfield, heq⟩⟩ := hmem e he
    · rw [heq]
      exact single _ hvs hlabel
    · rw [heq, putValue, if_neg (hfield ▸ hlabel)]
      exact Nat.le_refl _
  · obtain ⟨vs, hvs, heq | ⟨hfield, heq⟩⟩ := hmem e he
    · exact suits _ hvs u (heq ▸ hu)
    · rcases mem_putValue (heq ▸ hu) with hu | rfl
      · exact suits _ hvs u hu
      · exact hfield ▸ hv
  · obtain ⟨vs, hvs, heq | ⟨hfield, heq⟩⟩ := hmem e he
    · exact inner _ hvs sub s htype (heq ▸ hs)
    · rcases mem_putValue (heq ▸ hs) with hs | hs
      · exact inner _ hvs sub s htype hs
      · exact hinner sub s (hfield ▸ htype) hs.symm

/-- Giving a field a message of its kind keeps a message of its kind. -/
theorem IsOf.put_message {s : Message} (hm : IsOf k m) (hf : f ∈ k.fields)
    (htype : f.type = .message sub) (hs : IsOf sub s) : IsOf k (m.put k f.number (.message s)) := by
  have hsuits : (Value.message s).Suits f := ⟨sub, htype⟩
  refine hm.put hf hsuits fun sub' s' htype' hs' => ?_
  rw [htype] at htype'
  cases htype'
  cases hs'
  exact hs

/-- So does giving it several values that are no messages. -/
theorem IsOf.putAll {vs : List Value} (hm : IsOf k m) (hf : f ∈ k.fields)
    (hvs : ∀ v ∈ vs, v.Suits f) (htype : ∀ sub, f.type ≠ .message sub) :
    IsOf k (m.putAll k f.number vs) := by
  induction vs generalizing m with
  | nil => exact hm
  | cons v vs ih =>
    obtain ⟨hv, hvs⟩ := List.forall_mem_cons.mp hvs
    exact ih (hm.put hf hv fun sub s h => (htype sub h).elim) hvs

/-- The message that a field holds so far, given the values of the field. -/
theorem current_of_mem (hm : IsOf k m) {vs : List Value} (hvs : (f, vs) ∈ m.entries k)
    (htype : f.type = .message sub) : f.label = .repeated ∧ m.current k sub f = empty sub ∨
      f.label ≠ .repeated ∧ (vs = [] ∧ m.current k sub f = empty sub ∨
        ∃ s, vs = [.message s] ∧ m.current k sub f = s) := by
  obtain ⟨length, single, suits, -, -⟩ := hm
  rw [current, get_of_mem length hvs]
  by_cases hlabel : f.label = .repeated
  · exact .inl ⟨hlabel, if_pos hlabel⟩
  · refine .inr ⟨hlabel, ?_⟩
    rw [if_neg hlabel]
    have hle := single _ hvs hlabel
    have hsuits := suits _ hvs
    rcases vs with _ | ⟨v, _ | ⟨w, vs⟩⟩
    · exact .inl ⟨rfl, rfl⟩
    · -- the value is a message, since the field holds messages
      have hv := hsuits v (List.mem_singleton_self v)
      cases v with
      | uint n => simp [Value.Suits, htype] at hv
      | text t => simp [Value.Suits, htype] at hv
      | message s => exact .inr ⟨s, rfl, rfl⟩
    · simp at hle

/-- The message that a field holds so far is of its kind. -/
theorem IsOf.current (hm : IsOf k m) (hf : f ∈ k.fields) (htype : f.type = .message sub) :
    IsOf sub (m.current k sub f) := by
  obtain ⟨length, -, -, inner, -⟩ := hm
  obtain ⟨vs, hvs⟩ := exists_mem_entries length hf
  rw [Message.current]
  split
  · exact isOf_empty sub
  · rw [get_of_mem length hvs]
    split
    · next s _ => exact inner _ hvs sub s htype (List.mem_cons_self ..)
    · exact isOf_empty sub

end IsOf

end Message

/-- A number that is cut to a width fits in it. -/
theorem Field.suits_cut {f : Field} (h : f.type = .uint32 ∨ f.type = .uint64) (n : Nat) :
    (Value.uint (f.type.cut n)).Suits f := by
  rcases h with h | h <;> rw [h]
  · exact .inl ⟨h, Nat.mod_lt _ (Nat.two_pow_pos 32)⟩
  · exact .inr ⟨h, Nat.mod_lt _ (Nat.two_pow_pos 64)⟩

/-- What a record gives a field that takes it is of the field's type. -/
theorem Field.suits_of_scalars {f : Field} {p : Payload} {vs : List Value}
    (htakes : f.takes p = true) (htype : ∀ sub, f.type ≠ .message sub)
    (h : f.scalars p = .ok vs) : ∀ v ∈ vs, v.Suits f := by
  rcases p with n | body | _
  · have hnumber : f.type = .uint32 ∨ f.type = .uint64 := by
      cases ht : f.type <;> simp [takes, ht] at htakes ⊢
    cases h
    rintro v hv
    rw [List.mem_singleton.mp hv]
    exact suits_cut hnumber n
  · rw [scalars] at h
    split at h
    · next htext =>
      split at h
      · cases h
        rintro v hv
        rw [List.mem_singleton.mp hv]
        exact htext
      · cases h
    · next htext =>
      have hnumber : f.type = .uint32 ∨ f.type = .uint64 := by
        cases ht : f.type with
        | uint32 => exact .inl rfl
        | uint64 => exact .inr rfl
        | text => exact (htext ht).elim
        | message sub => exact (htype sub ht).elim
      rcases hns : unpack body with e | ns
      · rw [hns] at h
        cases h
      · rw [hns] at h
        cases h
        intro v hv
        obtain ⟨n, -, rfl⟩ := List.mem_map.mp hv
        exact suits_cut hnumber n
  · cases h
    nofun

/-- A record that is kept is unknown to the kind. -/
theorem isUnknown_of_readRecord {k : MessageKind} {bs rest : Bytes} {r : Record}
    (h : readRecord bs = .ok (r, rest)) (hf : k.fieldOf? r = none) : IsUnknown k r.raw :=
  ⟨r, (readRecord_append h).2, rfl, hf⟩

theorem bind_eq_ok {α β : Type} {x : Except Fault α} {next : α → Except Fault β} {b : β}
    (h : x.bind next = .ok b) : ∃ a, x = .ok a ∧ next a = .ok b := by
  rcases x with e | a
  · cases h
  · exact ⟨a, rfl, h⟩

theorem exists_of_isSome {α : Type} {x : Except Fault α} (h : x.toOption.isSome = true) :
    ∃ a, x = .ok a := by
  rcases x with e | a
  · cases h
  · exact ⟨a, rfl⟩

/-- **Reading builds messages of a kind.** -/
theorem Message.isOf_readInto (k : MessageKind) (bs : Bytes) : ∀ {m m' : Message}, IsOf k m →
    readInto k m bs = .ok m' → IsOf k m' := by
  induction k, bs using readInto_induction with
  | nil k =>
    intro m m' hm h
    rw [readInto_nil] at h
    cases h
    exact hm
  | error k bs e hne hr =>
    intro m m' hm h
    rw [readInto_error hne hr] at h
    cases h
  | unknown k bs r rest hr hf ih =>
    intro m m' hm h
    rw [readInto_unknown hr hf] at h
    exact ih (hm.addUnknown (isUnknown_of_readRecord hr hf)) h
  | message k bs r rest f sub body hr hf htype hp ihbody ihrest =>
    intro m m' hm h
    rw [readInto_message hr hf htype hp] at h
    obtain ⟨s, hs, hrest⟩ := bind_eq_ok h
    have hfield := (MessageKind.fieldOf?_eq_some_iff.mp hf).2.1
    have hsub := ihbody (hm.current hfield htype) hs
    exact ihrest (hm.put_message hfield htype hsub) hrest
  | scalar k bs r rest f hr hf htype ih =>
    intro m m' hm h
    rw [readInto_scalar hr hf htype] at h
    obtain ⟨vs, hvs, hrest⟩ := bind_eq_ok h
    obtain ⟨-, hfield, -, htakes⟩ := MessageKind.fieldOf?_eq_some_iff.mp hf
    exact ih (hm.putAll hfield (Field.suits_of_scalars htakes htype hvs) htype) hrest

/-- **What is read as a message of a kind is one.** -/
theorem Message.isOf_parse {k : MessageKind} {bs : Bytes} {m : Message} (h : parse k bs = .ok m) :
    IsOf k m :=
  isOf_readInto k bs (isOf_empty k) h

end CpuTrace.Wire
