import CpuTrace.Proofs.MessageReading
import CpuTrace.Proofs.SlotNames
import CpuTrace.Wire.Required
import Mathlib

/-!
# Required fields

Two walks through a message look for required fields that are not set: `Message.isComplete` answers
yes or no, `Message.missing` lists paths. Beside them stands a view without a walk: a message is **at**
a place inside another (`Message.At`) if steps by field and index lead there, and the outer one
**lacks** a field at the place (`Message.Lacks`) if the field is required there and not set. A message
that is not there is at no place, so nothing is said about its fields.

The walks agree with the view, and so with each other: `isComplete` holds if nothing is lacking
(`IsOf.isComplete_iff`), and `missing` lists what is lacking (`IsOf.mem_missing_iff`), each field once
(`IsOf.nodup_missing`). Paths are written like the names of slots, so different places have different
paths, as no name of a field holds a dot or a bracket (`IsOf.eq_of_pathAt_eq`). All three are
inductions over the messages in a message (`IsOf.induction_on_holds`).
-/

namespace CpuTrace.Wire

/-! ## Names of fields -/

namespace MessageKind

variable {k : MessageKind} {f g : Field}

/-- No two fields of a kind have one name. -/
theorem nodup_names (k : MessageKind) : (k.fields.map Field.name).Nodup := by
  cases k <;> decide +kernel

/-- A field is known by its name. -/
theorem eq_of_name_eq (hf : f ∈ k.fields) (hg : g ∈ k.fields) (h : f.name = g.name) : f = g :=
  List.inj_on_of_nodup_map k.nodup_names hf hg h

/-- The name of a field has no dots or brackets. -/
theorem isPlain_name (h : f ∈ k.fields) : (Step.member f.name).IsPlain := by
  have hall : ∀ f ∈ k.fields, (Step.member f.name).IsPlain := by
    cases k <;> decide +kernel
  exact hall f h

end MessageKind

/-- The steps to a value of a field: its name, and an index if there can be several. -/
def Field.steps (f : Field) (i : Nat) : List Step :=
  .member f.name :: if f.label = .repeated then [.index i] else []

namespace Field

variable {k : MessageKind} {f g : Field} {i j : Nat} {p q : List Step}

theorem isPlain_of_mem_steps (hf : f ∈ k.fields) : ∀ s ∈ f.steps i, s.IsPlain := by
  intro s hs
  rw [steps] at hs
  split at hs
  · rcases List.mem_pair.mp hs with rfl | rfl
    · exact MessageKind.isPlain_name hf
    · trivial
  · obtain rfl := List.mem_singleton.mp hs
    exact MessageKind.isPlain_name hf

/-- The steps to a value say which field it belongs to, and where they end. -/
theorem eq_of_steps_append_eq (hf : f ∈ k.fields) (hg : g ∈ k.fields)
    (h : f.steps i ++ p = g.steps j ++ q) : f = g ∧ f.steps i = g.steps j ∧ p = q := by
  obtain rfl : f = g := by
    have hhead := (List.cons.inj h).1
    exact MessageKind.eq_of_name_eq hf hg (Step.member.inj hhead)
  have hlength : (f.steps i).length = (f.steps j).length := by
    rw [steps, steps]
    split <;> rfl
  exact ⟨rfl, List.append_inj h hlength⟩

/-- The path to a value is shown as it is named in a message about it. -/
theorem pathName_steps (hf : f ∈ k.fields) : pathName (f.steps i) = f.pathOf i := by
  have hname := pathName_member (MessageKind.isPlain_name hf)
  rw [steps, pathOf]
  split
  · refine String.toList_injective ?_
    have hindex : ∀ s ∈ [Step.index i], s.IsPlain := List.forall_mem_singleton.mpr trivial
    rw [← List.singleton_append, toList_pathName_append (List.cons_ne_nil _ _) hindex, hname]
    simp [Step.piece, Step.chars]
  · exact hname

end Field

/-! ## Places in a message -/

namespace Message

/-- A message is a value of a field of another. -/
structure Holds (k : MessageKind) (m : Message) (f : Field) (i : Nat) (sub : MessageKind)
    (s : Message) : Prop where
  /-- the field is one of the kind -/
  field : f ∈ k.fields
  /-- messages of the inner kind are its values -/
  type : f.type = .message sub
  /-- the message is the value at the index -/
  value : (m.get k f.number)[i]? = some (.message s)

/-- A message is at a place in another: **the steps lead to it** through messages that are there. -/
inductive At : MessageKind → Message → List Step → MessageKind → Message → Prop
  /-- every message is at the empty place in itself -/
  | here {k : MessageKind} {m : Message} : At k m [] k m
  /-- what is at a place in the value of a field is at a place in the message -/
  | inside {k sub k' : MessageKind} {m s m' : Message} {f : Field} {i : Nat} {place : List Step}
    (holds : m.Holds k f i sub s) (rest : At sub s place k' m') : At k m (f.steps i ++ place) k' m'

/-- A field has to be set in a message and is not. -/
def Needs (k : MessageKind) (m : Message) (f : Field) : Prop :=
  f ∈ k.fields ∧ f.label = .required ∧ m.has k f.number = false

/-- At a place in a message, a field has to be set and is not. -/
def Lacks (k : MessageKind) (m : Message) (place : List Step) (f : Field) : Prop :=
  ∃ k' m', At k m place k' m' ∧ m'.Needs k' f

/-- The path of a field of the message at a place. -/
def pathAt (place : List Step) (f : Field) : String := pathName (place ++ [.member f.name])

section Places

variable {k sub k' : MessageKind} {m s m' : Message} {f g : Field} {i : Nat}
  {place place' : List Step}

/-- What stands at a place is the message itself, or stands at a place inside one that it holds. -/
theorem at_iff : At k m place k' m' ↔ place = [] ∧ k' = k ∧ m' = m ∨
    ∃ f i sub s rest, m.Holds k f i sub s ∧ At sub s rest k' m' ∧ place = f.steps i ++ rest := by
  constructor
  · intro h
    cases h with
    | here => exact .inl ⟨rfl, rfl, rfl⟩
    | inside holds rest => exact .inr ⟨_, _, _, _, _, holds, rest, rfl⟩
  · rintro (⟨rfl, rfl, rfl⟩ | ⟨f, i, sub, s, rest, holds, hat, rfl⟩)
    · exact .here
    · exact .inside holds hat

/-- What a message lacks, it needs itself or a message in it lacks. -/
theorem lacks_iff : m.Lacks k place f ↔ place = [] ∧ m.Needs k f ∨
    ∃ g i sub s rest, m.Holds k g i sub s ∧ s.Lacks sub rest f ∧ place = g.steps i ++ rest := by
  constructor
  · rintro ⟨k', m', hat, hneeds⟩
    rcases at_iff.mp hat with ⟨rfl, rfl, rfl⟩ | ⟨g, i, sub, s, rest, holds, hrest, rfl⟩
    · exact .inl ⟨rfl, hneeds⟩
    · exact .inr ⟨g, i, sub, s, rest, holds, ⟨k', m', hrest, hneeds⟩, rfl⟩
  · rintro (⟨rfl, hneeds⟩ | ⟨g, i, sub, s, rest, holds, ⟨k', m', hat, hneeds⟩, rfl⟩)
    · exact ⟨k, m, .here, hneeds⟩
    · exact ⟨k', m', .inside holds hat, hneeds⟩

/-- The steps to a place are plain, and so is the name of the field that is lacking there. -/
theorem At.isPlain (h : At k m place k' m') : ∀ s ∈ place, s.IsPlain := by
  induction h with
  | here => simp
  | inside holds rest ih =>
    exact List.forall_mem_append.mpr ⟨Field.isPlain_of_mem_steps holds.field, ih⟩

theorem Lacks.isPlain (h : m.Lacks k place f) : ∀ s ∈ place ++ [.member f.name], s.IsPlain := by
  obtain ⟨k', m', hat, hneeds⟩ := h
  exact List.forall_mem_append.mpr
    ⟨hat.isPlain, List.forall_mem_singleton.mpr (MessageKind.isPlain_name hneeds.1)⟩

/-- A path below a value of a field is the value's path, a dot and the path inside. -/
theorem pathAt_steps_append (hf : f ∈ k.fields) (h : m.Lacks sub place g) :
    pathAt (f.steps i ++ place) g = f.pathOf i ++ "." ++ pathAt place g := by
  have hplain := h.isPlain
  obtain ⟨name, rest, hsteps⟩ : ∃ name rest, place ++ [.member g.name] = .member name :: rest := by
    rcases lacks_iff.mp h with ⟨rfl, -⟩ | ⟨g', j, -, -, rest, -, -, rfl⟩
    · exact ⟨_, _, rfl⟩
    · exact ⟨_, _, rfl⟩
  have hne : f.steps i ≠ [] := List.cons_ne_nil _ _
  rw [pathAt, pathAt, List.append_assoc, hsteps, pathName_append_member hne (hsteps ▸ hplain),
    Field.pathName_steps hf]

/-- **A path names one place and one field.** -/
theorem eq_of_pathAt_eq (h : m.Lacks k place f) (h' : m'.Lacks k' place' g)
    (hpath : pathAt place f = pathAt place' g) : place = place' ∧ f.name = g.name := by
  have hsteps : place ++ [Step.member f.name] = place' ++ [.member g.name] :=
    @eq_of_pathName_eq [] _ _ h.isPlain h'.isPlain hpath
  obtain ⟨hplace, hname⟩ := List.append_inj' hsteps rfl
  exact ⟨hplace, Step.member.inj (List.singleton_injective hname)⟩

end Places

/-! ## The walks, value by value -/

/-- The values of a message, each with its field and its index there. -/
def parts (k : MessageKind) (m : Message) : List (Field × Nat × Value) :=
  (m.entries k).flatMap fun e => e.2.zipIdx.map fun v => (e.1, v.2, v.1)

end Message

theorem fieldsComplete_eq (fs : List Field) (values : List (List Value)) :
    fieldsComplete fs values =
      (fs.zip values).all fun e => !e.1.isMissing e.2 && valuesComplete e.1 e.2 := by
  induction values generalizing fs with
  | nil => cases fs <;> rfl
  | cons vs values ih =>
    cases fs with
    | nil => rfl
    | cons f fs => rw [fieldsComplete, ih, List.zip_cons_cons, List.all_cons]

theorem valuesComplete_eq (f : Field) (vs : List Value) :
    valuesComplete f vs = vs.all (valueComplete f) := by
  induction vs with
  | nil => rfl
  | cons v vs ih => rw [valuesComplete, ih, List.all_cons]

theorem missingInFields_eq (fs : List Field) (values : List (List Value)) :
    missingInFields fs values = (fs.zip values).flatMap fun e => missingInValues e.1 0 e.2 := by
  induction values generalizing fs with
  | nil => cases fs <;> rfl
  | cons vs values ih =>
    cases fs with
    | nil => rfl
    | cons f fs => rw [missingInFields, ih, List.zip_cons_cons, List.flatMap_cons]

theorem missingInValues_eq (f : Field) (i : Nat) (vs : List Value) :
    missingInValues f i vs = (vs.zipIdx i).flatMap fun v =>
      (missingInValue f v.1).map fun path => f.pathOf v.2 ++ "." ++ path := by
  induction vs generalizing i with
  | nil => rfl
  | cons v vs ih => rw [missingInValues, ih, List.zipIdx_cons, List.flatMap_cons]

theorem valueComplete_eq_true_iff {f : Field} {v : Value} : valueComplete f v = true ↔
    ∀ sub s, f.type = .message sub → v = .message s → s.isComplete sub = true := by
  cases v with
  | uint n => simp [valueComplete]
  | text s => simp [valueComplete]
  | message m =>
    rw [valueComplete]
    split <;> simp_all

theorem mem_missingInValue {f : Field} {v : Value} {path : String} : path ∈ missingInValue f v ↔
    ∃ sub s, f.type = .message sub ∧ v = .message s ∧ path ∈ s.missing sub := by
  cases v with
  | uint n => simp [missingInValue]
  | text s => simp [missingInValue]
  | message m =>
    rw [missingInValue]
    split <;> simp_all

theorem nodup_missingInValue {f : Field} {v : Value}
    (h : ∀ sub s, f.type = .message sub → v = .message s → (s.missing sub).Nodup) :
    (missingInValue f v).Nodup := by
  cases v with
  | uint n => exact List.nodup_nil
  | text s => exact List.nodup_nil
  | message m =>
    rw [missingInValue]
    split
    · next htype => exact h _ m htype rfl
    · exact List.nodup_nil

namespace Message

section Parts

variable {k sub : MessageKind} {m s : Message} {f g : Field} {i : Nat} {v : Value}

/-- A message is complete if no field of its own is missing and all messages in it are complete. -/
theorem isComplete_eq_true_iff (k : MessageKind) (m : Message) : m.isComplete k = true ↔
    (∀ e ∈ m.entries k, e.1.isMissing e.2 = false) ∧
      ∀ e ∈ m.entries k, ∀ v ∈ e.2, valueComplete e.1 v = true := by
  cases m with
  | mk values unknown =>
    rw [isComplete, fieldsComplete_eq, List.all_eq_true, ← forall₂_and]
    simp only [valuesComplete_eq, Bool.and_eq_true, Bool.not_eq_true', List.all_eq_true]
    rfl

/-- What is missing are fields of its own, and then those of the messages in it, with the path to
them in front. -/
theorem missing_eq (k : MessageKind) (m : Message) :
    m.missing k = missingOwn k.fields m.values ++ (m.parts k).flatMap fun x =>
      (missingInValue x.1 x.2.2).map fun path => x.1.pathOf x.2.1 ++ "." ++ path := by
  cases m with
  | mk values unknown =>
    rw [missing, missingInFields_eq, parts, List.flatMap_assoc]
    simp only [missingInValues_eq, List.flatMap_map]
    rfl

/-- The entry of a field holds what the field has been given. -/
theorem IsOf.mem_entries_iff (hm : IsOf k m) {vs : List Value} :
    (f, vs) ∈ m.entries k ↔ f ∈ k.fields ∧ m.get k f.number = vs := by
  constructor
  · intro h
    exact ⟨mem_fields_of_mem_entries h, get_of_mem hm.length_values h⟩
  · rintro ⟨hf, rfl⟩
    obtain ⟨vs, hvs⟩ := exists_mem_entries hm.length_values hf
    rwa [get_of_mem hm.length_values hvs]

/-- The parts of a message are the values of its fields, with their place in the field. -/
theorem IsOf.mem_parts_iff (hm : IsOf k m) :
    (f, i, v) ∈ m.parts k ↔ f ∈ k.fields ∧ (m.get k f.number)[i]? = some v := by
  simp only [parts, List.mem_flatMap, List.mem_map, Prod.exists, Prod.mk.injEq,
    List.mem_zipIdx_iff_getElem?]
  constructor
  · rintro ⟨g, vs, hvs, u, j, hu, rfl, rfl, rfl⟩
    obtain ⟨hg, rfl⟩ := hm.mem_entries_iff.mp hvs
    exact ⟨hg, hu⟩
  · rintro ⟨hf, hv⟩
    exact ⟨f, _, hm.mem_entries_iff.mpr ⟨hf, rfl⟩, v, i, hv, rfl, rfl, rfl⟩

/-- A message that another one holds is of the kind that the field says. -/
theorem IsOf.of_holds (hm : IsOf k m) (h : m.Holds k f i sub s) : IsOf sub s := by
  have hvs := hm.mem_entries_iff.mpr ⟨h.field, rfl⟩
  cases hm with
  | mk _ _ _ inner _ => exact inner _ hvs sub s h.type (List.mem_of_getElem? h.value)

/-- **Induction over the messages in a message.** -/
theorem IsOf.induction_on_holds {motive : ∀ k m, IsOf k m → Prop}
    (step : ∀ k m (hm : IsOf k m), (∀ {f i sub s} (h : m.Holds k f i sub s),
      motive sub s (hm.of_holds h)) → motive k m hm) (hm : IsOf k m) : motive k m hm := by
  induction hm with
  | mk length single suits inner unknown ih =>
    have hm := IsOf.mk length single suits inner unknown
    exact step _ _ hm fun h => ih _ (hm.mem_entries_iff.mpr ⟨h.field, rfl⟩) _ _ h.type
      (List.mem_of_getElem? h.value)

/-- A field is needed if it is required and has no value. -/
theorem IsOf.needs_iff (hm : IsOf k m) :
    m.Needs k f ↔ ∃ vs, (f, vs) ∈ m.entries k ∧ f.isMissing vs = true := by
  simp [Needs, has, Field.isMissing, hm.mem_entries_iff, and_assoc, and_comm]

/-- What a message lacks itself are the fields that it needs. -/
theorem IsOf.mem_missingOwn_iff (hm : IsOf k m) {path : String} :
    path ∈ missingOwn k.fields m.values ↔ ∃ f, m.Needs k f ∧ path = f.name := by
  simp only [hm.needs_iff, missingOwn, List.mem_map, List.mem_filter, Prod.exists]
  constructor
  · rintro ⟨f, vs, h, rfl⟩
    exact ⟨f, ⟨vs, h⟩, rfl⟩
  · rintro ⟨f, ⟨vs, h⟩, rfl⟩
    exact ⟨f, vs, h, rfl⟩

/-- A message is complete if it needs nothing itself and the messages in it are complete. -/
theorem IsOf.isComplete_iff_holds (hm : IsOf k m) : m.isComplete k = true ↔
    (∀ f, ¬ m.Needs k f) ∧ ∀ f i sub s, m.Holds k f i sub s → s.isComplete sub = true := by
  rw [isComplete_eq_true_iff]
  refine and_congr (by simp [hm.needs_iff]) ⟨fun h f i sub s holds => ?_, ?_⟩
  · have hvalue := h _ (hm.mem_entries_iff.mpr ⟨holds.field, rfl⟩) _ (List.mem_of_getElem? holds.value)
    exact valueComplete_eq_true_iff.mp hvalue sub s holds.type rfl
  · rintro h ⟨f, vs⟩ hvs v hv
    obtain ⟨hf, rfl⟩ := hm.mem_entries_iff.mp hvs
    obtain ⟨i, hi⟩ := List.mem_iff_getElem?.mp hv
    refine valueComplete_eq_true_iff.mpr fun sub s htype hs => ?_
    exact h f i sub s ⟨hf, htype, hs ▸ hi⟩

/-- **The walk that answers** says whether something is lacking. -/
theorem IsOf.isComplete_iff (hm : IsOf k m) :
    m.isComplete k = true ↔ ∀ place f, ¬ m.Lacks k place f := by
  induction hm using IsOf.induction_on_holds with | step k m hm ih =>
  rw [hm.isComplete_iff_holds]
  constructor
  · rintro ⟨hneeds, hinner⟩ place f hlacks
    rcases lacks_iff.mp hlacks with ⟨-, h⟩ | ⟨g, i, sub, s, rest, holds, h, -⟩
    · exact hneeds f h
    · exact (ih holds).mp (hinner g i sub s holds) rest f h
  · intro h
    refine ⟨fun f hf => h [] f (lacks_iff.mpr (.inl ⟨rfl, hf⟩)), fun f i sub s holds => ?_⟩
    refine (ih holds).mpr fun rest g hlacks => ?_
    exact h _ g (lacks_iff.mpr (.inr ⟨f, i, sub, s, rest, holds, hlacks, rfl⟩))

/-- The paths below the values of a message. -/
theorem IsOf.mem_below_iff (hm : IsOf k m) {path : String} :
    (path ∈ (m.parts k).flatMap fun x =>
      (missingInValue x.1 x.2.2).map fun path => x.1.pathOf x.2.1 ++ "." ++ path) ↔
    ∃ f i sub s, m.Holds k f i sub s ∧ ∃ rest ∈ s.missing sub, path = f.pathOf i ++ "." ++ rest := by
  simp only [List.mem_flatMap, List.mem_map, Prod.exists, mem_missingInValue, hm.mem_parts_iff]
  constructor
  · rintro ⟨f, i, v, ⟨hf, hv⟩, rest, ⟨sub, s, htype, rfl, hrest⟩, rfl⟩
    exact ⟨f, i, sub, s, ⟨hf, htype, hv⟩, rest, hrest, rfl⟩
  · rintro ⟨f, i, sub, s, ⟨hf, htype, hv⟩, rest, hrest, rfl⟩
    exact ⟨f, i, _, ⟨hf, hv⟩, rest, ⟨sub, s, htype, rfl, hrest⟩, rfl⟩

/-- **The walk that lists** names what is lacking. -/
theorem IsOf.mem_missing_iff (hm : IsOf k m) {path : String} :
    path ∈ m.missing k ↔ ∃ place f, m.Lacks k place f ∧ path = pathAt place f := by
  induction hm using IsOf.induction_on_holds generalizing path with | step k m hm ih =>
  rw [missing_eq, List.mem_append, hm.mem_missingOwn_iff, hm.mem_below_iff]
  constructor
  · rintro (⟨f, hneeds, rfl⟩ | ⟨f, i, sub, s, holds, rest, hrest, rfl⟩)
    · refine ⟨[], f, lacks_iff.mpr (.inl ⟨rfl, hneeds⟩), ?_⟩
      exact (pathName_member (MessageKind.isPlain_name hneeds.1)).symm
    · obtain ⟨place, g, hlacks, rfl⟩ := (ih holds).mp hrest
      exact ⟨f.steps i ++ place, g, lacks_iff.mpr (.inr ⟨f, i, sub, s, place, holds, hlacks, rfl⟩),
        (pathAt_steps_append holds.field hlacks).symm⟩
  · rintro ⟨place, f, hlacks, rfl⟩
    rcases lacks_iff.mp hlacks with ⟨rfl, hneeds⟩ | ⟨g, i, sub, s, rest, holds, hrest, rfl⟩
    · exact .inl ⟨f, hneeds, pathName_member (MessageKind.isPlain_name hneeds.1)⟩
    · exact .inr ⟨g, i, sub, s, holds, pathAt rest f, (ih holds).mpr ⟨rest, f, hrest, rfl⟩,
        pathAt_steps_append holds.field hrest⟩

/-! ## Each field once -/

/-- No part is there twice. -/
theorem IsOf.nodup_parts (hm : IsOf k m) : (m.parts k).Nodup := by
  have hfields : ((m.entries k).map Prod.fst).Nodup := by
    rw [map_fst_entries hm.length_values]
    exact List.Nodup.of_map _ k.nodup_names
  refine List.nodup_flatMap.mpr ⟨fun e _ => ?_, (List.pairwise_map.mp hfields).imp ?_⟩
  · -- values of one field differ in their indices
    refine List.Nodup.of_map (fun x => x.2.1) ?_
    have hindices : ((e.2.zipIdx.map fun v => (e.1, v.2, v.1)).map fun x => x.2.1) =
        List.range' 0 e.2.length := by
      rw [List.map_map]
      exact List.zipIdx_map_snd 0 e.2
    rw [hindices]
    exact List.nodup_range'
  · intro e e' hne x hx hx'
    obtain ⟨v, -, rfl⟩ := List.mem_map.mp hx
    obtain ⟨v', -, hx'⟩ := List.mem_map.mp hx'
    exact hne (Prod.mk.inj hx').1.symm

theorem IsOf.nodup_missingOwn (hm : IsOf k m) : (missingOwn k.fields m.values).Nodup := by
  have hnames : (((m.entries k).map Prod.fst).map Field.name).Nodup := by
    rw [map_fst_entries hm.length_values]
    exact k.nodup_names
  rw [List.map_map] at hnames
  exact (List.filter_sublist.map _).nodup hnames

/-- The steps to a value say which one it is: a field that is not repeated has one at most. -/
theorem IsOf.index_eq (hm : IsOf k m) {j : Nat} {w : Value} (hf : f ∈ k.fields)
    (hv : (m.get k f.number)[i]? = some v) (hw : (m.get k f.number)[j]? = some w)
    (h : f.steps i = f.steps j) : i = j := by
  have hvs := hm.mem_entries_iff.mpr ⟨hf, rfl⟩
  obtain ⟨hi, -⟩ := List.getElem?_eq_some_iff.mp hv
  obtain ⟨hj, -⟩ := List.getElem?_eq_some_iff.mp hw
  by_cases hlabel : f.label = .repeated
  · simpa [Field.steps, hlabel] using h
  · cases hm with
    | mk _ single _ _ _ =>
      have hsingle : (m.get k f.number).length ≤ 1 := single _ hvs hlabel
      omega

/-- A path below a value is the path of something that lacks there. -/
theorem IsOf.exists_lacks_of_mem (hm : IsOf k m) {x : Field × Nat × Value} (hx : x ∈ m.parts k)
    {path : String}
    (h : path ∈ (missingInValue x.1 x.2.2).map fun rest => x.1.pathOf x.2.1 ++ "." ++ rest) :
    ∃ place g, m.Lacks k (x.1.steps x.2.1 ++ place) g ∧
      path = pathAt (x.1.steps x.2.1 ++ place) g := by
  obtain ⟨f, i, v⟩ := x
  obtain ⟨hf, hv⟩ := hm.mem_parts_iff.mp hx
  obtain ⟨rest, hmem, rfl⟩ := List.mem_map.mp h
  obtain ⟨sub, s, htype, rfl, hrest⟩ := mem_missingInValue.mp hmem
  have holds : m.Holds k f i sub s := ⟨hf, htype, hv⟩
  obtain ⟨place, g, hlacks, rfl⟩ := (hm.of_holds holds).mem_missing_iff.mp hrest
  exact ⟨place, g, lacks_iff.mpr (.inr ⟨f, i, sub, s, place, holds, hlacks, rfl⟩),
    (pathAt_steps_append hf hlacks).symm⟩

/-- **Nothing is listed twice.** -/
theorem IsOf.nodup_missing (hm : IsOf k m) : (m.missing k).Nodup := by
  induction hm using IsOf.induction_on_holds with | step k m hm ih =>
  rw [missing_eq, List.nodup_append']
  refine ⟨hm.nodup_missingOwn, List.nodup_flatMap.mpr ⟨?_, ?_⟩, ?_⟩
  · rintro ⟨f, i, v⟩ hx
    obtain ⟨hf, hv⟩ := hm.mem_parts_iff.mp hx
    have hvalue : (missingInValue f v).Nodup :=
      nodup_missingInValue fun sub s htype hs => ih ⟨hf, htype, hs ▸ hv⟩
    refine hvalue.map fun p q hpq => ?_
    exact String.append_right_inj _ |>.mp hpq
  · refine hm.nodup_parts.pairwise_of_forall_ne ?_
    rintro ⟨f, i, v⟩ hx ⟨g, j, w⟩ hy hne path hpath hpath'
    obtain ⟨place, f', hlacks, rfl⟩ := hm.exists_lacks_of_mem hx hpath
    obtain ⟨place', g', hlacks', hsame⟩ := hm.exists_lacks_of_mem hy hpath'
    obtain ⟨hf, hv⟩ := hm.mem_parts_iff.mp hx
    obtain ⟨hg, hw⟩ := hm.mem_parts_iff.mp hy
    have hplace := (eq_of_pathAt_eq hlacks hlacks' hsame).1
    obtain ⟨rfl, hsteps, -⟩ := Field.eq_of_steps_append_eq hf hg hplace
    obtain rfl := hm.index_eq hf hv hw hsteps
    exact hne (by rw [Option.some.inj (hv.symm.trans hw)])
  · intro path hown hbelow
    obtain ⟨f, hneeds, rfl⟩ := hm.mem_missingOwn_iff.mp hown
    obtain ⟨x, hx, hpath⟩ := List.mem_flatMap.mp hbelow
    obtain ⟨place, g, hlacks, hsame⟩ := hm.exists_lacks_of_mem hx hpath
    have hlacks' : m.Lacks k [] f := lacks_iff.mpr (.inl ⟨rfl, hneeds⟩)
    rw [← pathName_member (MessageKind.isPlain_name hneeds.1)] at hsame
    have hplace := (eq_of_pathAt_eq hlacks' hlacks hsame).1
    cases hplace

/-- The steps to a message in a message say which one it is. -/
theorem IsOf.holds_unique (hm : IsOf k m) {j : Nat} {sub' : MessageKind} {s' : Message}
    {p q : List Step} (h : m.Holds k f i sub s) (h' : m.Holds k g j sub' s')
    (hsteps : f.steps i ++ p = g.steps j ++ q) : sub = sub' ∧ s = s' ∧ p = q := by
  obtain ⟨rfl, hindex, hrest⟩ := Field.eq_of_steps_append_eq h.field h'.field hsteps
  obtain rfl := hm.index_eq h.field h.value h'.value hindex
  have hsub := h.type.symm.trans h'.type
  have hvalue := h.value.symm.trans h'.value
  cases hsub
  cases hvalue
  exact ⟨rfl, rfl, hrest⟩

/-- One message is at a place. -/
theorem IsOf.at_unique (hm : IsOf k m) {place : List Step} {k₁ k₂ : MessageKind} {m₁ m₂ : Message}
    (h₁ : At k m place k₁ m₁) (h₂ : At k m place k₂ m₂) : k₁ = k₂ ∧ m₁ = m₂ := by
  induction h₁ with
  | here =>
    rcases at_iff.mp h₂ with ⟨-, rfl, rfl⟩ | ⟨f, i, sub, s, rest, -, -, hplace⟩
    · exact ⟨rfl, rfl⟩
    · cases hplace
  | inside holds rest ih =>
    rcases at_iff.mp h₂ with ⟨hplace, -⟩ | ⟨f, i, sub, s, rest', holds', hat, hplace⟩
    · cases hplace
    · obtain ⟨rfl, rfl, rfl⟩ := hm.holds_unique holds holds' hplace
      exact ih (hm.of_holds holds) hat

/-- A path tells what is lacking. -/
theorem IsOf.eq_of_pathAt_eq (hm : IsOf k m) {place place' : List Step} (h : m.Lacks k place f)
    (h' : m.Lacks k place' g) (hpath : pathAt place f = pathAt place' g) :
    place = place' ∧ f = g := by
  obtain ⟨rfl, hname⟩ := Message.eq_of_pathAt_eq h h' hpath
  obtain ⟨k₁, m₁, hat, hneeds⟩ := h
  obtain ⟨k₂, m₂, hat', hneeds'⟩ := h'
  obtain ⟨rfl, rfl⟩ := hm.at_unique hat hat'
  exact ⟨rfl, MessageKind.eq_of_name_eq hneeds.1 hneeds'.1 hname⟩

end Parts

/-- **The walks agree with each other and with what a message lacks.** Of whatever is read as a message
of a kind, `isComplete` holds exactly if `missing` lists nothing, and exactly if at every place, in
the message and in the messages that are there, each required field is set; `missing` lists the paths
of the required fields that are not set, each once, and no two of them have one path. -/
theorem missing_of_parse (k : MessageKind) (bs : Bytes) (m : Message) (h : parse k bs = .ok m) :
    (m.isComplete k = true ↔ m.missing k = []) ∧
    (m.isComplete k = true ↔ ∀ place k' m', At k m place k' m' →
      ∀ f ∈ k'.fields, f.label = .required → m'.has k' f.number = true) ∧
    (∀ path, path ∈ m.missing k ↔ ∃ place f, m.Lacks k place f ∧ path = pathAt place f) ∧
    (∀ place f, m.Lacks k place f → (m.missing k).count (pathAt place f) = 1) ∧
    ∀ place place' f g, m.Lacks k place f → m.Lacks k place' g →
      pathAt place f = pathAt place' g → place = place' ∧ f = g := by
  have hm := isOf_parse h
  refine ⟨?_, ?_, fun path => hm.mem_missing_iff, ?_, fun _ _ _ _ => hm.eq_of_pathAt_eq⟩
  · rw [hm.isComplete_iff, List.eq_nil_iff_forall_not_mem]
    simp only [hm.mem_missing_iff]
    constructor
    · rintro hnone path ⟨place, f, hlacks, -⟩
      exact hnone place f hlacks
    · intro hnone place f hlacks
      exact hnone _ ⟨place, f, hlacks, rfl⟩
  · rw [hm.isComplete_iff]
    constructor
    · intro hnone place k' m' hat f hf hlabel
      by_contra hunset
      exact hnone place f ⟨k', m', hat, hf, hlabel, Bool.eq_false_iff.mpr hunset⟩
    · rintro hset place f ⟨k', m', hat, hf, hlabel, hunset⟩
      rw [hset place k' m' hat f hf hlabel] at hunset
      cases hunset
  · intro place f hlacks
    exact List.count_eq_one_of_mem hm.nodup_missing (hm.mem_missing_iff.mpr ⟨place, f, hlacks, rfl⟩)

/-- An entry with a number and a branch that has no call stack and two queries, the second with a
set of labels and not much else. -/
def branchEntry : Bytes := [8, 5, 162, 2, 14, 18, 6, 8, 1, 16, 2, 24, 3, 18, 4, 8, 1, 34, 0]

theorem missing_branchEntry : ∃ m, parse .logEntry branchEntry = .ok m ∧
    m.isComplete .logEntry = false ∧
    m.missing .logEntry = ["instr", "tainted_branch.call_stack", "tainted_branch.taint_query[1].tcn",
      "tainted_branch.taint_query[1].offset", "tainted_branch.taint_query[1].unique_label_set.ptr"] ∧
    ∃ place f, m.Lacks .logEntry place f ∧
      "tainted_branch.taint_query[1].unique_label_set.ptr" = pathAt place f := by
  obtain ⟨m, hm⟩ := exists_of_isSome (x := parse .logEntry branchEntry) (by decide +kernel)
  have hpaths : ((parse .logEntry branchEntry).map (missing .logEntry)).toOption =
      some ["instr", "tainted_branch.call_stack", "tainted_branch.taint_query[1].tcn",
        "tainted_branch.taint_query[1].offset",
        "tainted_branch.taint_query[1].unique_label_set.ptr"] := by
    decide +kernel
  rw [hm] at hpaths
  have hmissing := Option.some.inj hpaths
  obtain ⟨hcomplete, -, hmem, -⟩ := missing_of_parse .logEntry branchEntry m hm
  refine ⟨m, hm, ?_, hmissing, (hmem _).mp ?_⟩
  · rw [Bool.eq_false_iff, Ne, hcomplete, hmissing]
    exact List.cons_ne_nil _ _
  · rw [hmissing]
    decide

end Message

end CpuTrace.Wire
