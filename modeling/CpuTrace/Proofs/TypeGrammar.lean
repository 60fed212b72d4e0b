import CpuTrace.Proofs.Changes
import CpuTrace.Proofs.MemberTypes
import Mathlib

/-!
# The grammar of types

Types are open trees, but a reader builds only some of them: a spine of pointers and arrays with a
**leaf** at its end (`IsSpineOf`). What an id stands for ends in a text or in a name (`IsGiven`). A
member can also end in a bit-field, or, once enumerations have been written into it, in one of them
(`IsLeaf`).

Every change keeps this (`Change.isTyped`), as long as no name of a structure is a reference: a name
that is one would be followed, and a list put around a type that is no name. So it holds after all
lines and publications, whatever faults they give (`isSound_runAll`). Then every member names one
thing or nothing, which is all that publishing asks of types, and no fault is left that says that a
value is of the wrong kind. The main statement is `types_keep_grammar`.
-/

namespace CpuTrace

/-! ## Tables whose values are alike -/

namespace Table

variable {κ α : Type} {P : α → Prop} {t : Table κ α}

/-- All values of a table have a property. -/
def All (P : α → Prop) (t : Table κ α) : Prop := ∀ a ∈ t.values, P a

theorem All.empty (P : α → Prop) : (∅ : Table κ α).All P := fun _ h => absurd h List.not_mem_nil

/-- What is left of a table has the property, too. -/
theorem All.filter (h : t.All P) (p : κ → α → Bool) : (t.filter p).All P := by
  intro a ha
  obtain ⟨e, he, rfl⟩ := List.mem_map.mp ha
  exact h e.2 (List.mem_map_of_mem (List.mem_of_mem_filter he))

/-- A sweep keeps the property if each of its changes does, also if a fault ends it. -/
theorem All.sweep {ε : Type} (h : t.All P) {f : κ → α → α × Option ε}
    (hf : ∀ k a, P a → P (f k a).1) : (t.sweep f).1.All P := by
  intro a ha
  obtain ⟨e, he, rfl⟩ := List.mem_map.mp ha
  rcases mem_of_mem_sweep he with he | ⟨b, hb, heq⟩
  · exact h e.2 (List.mem_map_of_mem he)
  · rw [heq]
    exact hf e.1 b (h b (List.mem_map_of_mem hb))

variable [DecidableEq κ]

theorem All.of_find? (h : t.All P) {k : κ} {a : α} (ha : t.find? k = some a) : P a :=
  h a (List.mem_map_of_mem (find?_eq_some_iff.mp ha))

/-- A new value has to have it. -/
theorem All.insert (h : t.All P) (k : κ) {a : α} (ha : P a) : (t.insert k a).All P := by
  intro b hb
  rcases mem_values_insert hb with rfl | hb
  · exact ha
  · exact h b hb

theorem All.foldl_insert (h : t.All P) {es : List (κ × α)} (hes : ∀ e ∈ es, P e.2) :
    (es.foldl (fun t e => t.insert e.1 e.2) t).All P := by
  induction es generalizing t with
  | nil => exact h
  | cons e es ih =>
    obtain ⟨he, hes⟩ := List.forall_mem_cons.mp hes
    exact ih (h.insert e.1 he) hes

theorem All.ofList {es : List (κ × α)} (hes : ∀ e ∈ es, P e.2) : (Table.ofList es).All P :=
  All.foldl_insert (.empty P) hes

/-- So do all values of a table that joins it. -/
theorem All.update (h : t.All P) {s : Table κ α} (hs : s.All P) : (t.update s).All P :=
  h.foldl_insert fun e he => hs e.2 (List.mem_map_of_mem he)

end Table

namespace Dump

/-! ## Leaves -/

/-- What the type of a member can end in: what the dump gives, a bit-field or an enumeration. -/
abbrev IsLeaf : TypeExpr → Prop := IsEnd (isReference · = false) recordKinds

section Leaves

variable {t u : TypeExpr}

/-- The grammar of members is that of plain types, without references as names. -/
theorem IsSpineOf.isPlain (h : IsSpineOf IsLeaf t) : IsPlain t :=
  h.imp fun _ hb => hb.mono (fun _ _ => trivial) (List.Subset.refl _)

/-- **Following references keeps the grammar**: what they lead to is itself a spine, and no name is
one of them. -/
theorem IsSpineOf.resolve {kinds : List String} (hkinds : kinds ⊆ recordKinds) {ids : IdTable}
    (hids : ids.All (IsSpineOf IsGiven)) (ht : IsSpineOf (IsEnd (isReference · = false) kinds) t)
    (hu : ids.resolve t = .ok u) : IsSpineOf (IsEnd (isReference · = false) kinds) u := by
  have hwider : ∀ t ∈ ids.values, IsSpineOf (IsEnd (isReference · = false) kinds) t :=
    fun t ht => (hids t ht).imp fun _ hb => hb.mono (fun _ h => h) (List.nil_subset _)
  refine resolve_induction hwider (fun follow t u hfollow ht hu => ?_) ht hu
  obtain ⟨s, b, hb, rfl⟩ := ht
  obtain ⟨v, hv, rfl⟩ := exists_of_mapReferences_plug hu
  rcases hb.mapReferences_cases hkinds hv with rfl | ⟨id, hid⟩ | ⟨name, _, _, hname, hreference, -⟩
  · exact ⟨s, v, hb, rfl⟩
  · exact (hfollow id v hid).plug s
  · rw [hname] at hreference
    cases hreference

end Leaves

/-! ## Readers -/

/-- The types of all members of a layout follow the grammar. -/
def Layout.IsTyped (l : Layout) : Prop := l.members.All fun m => IsSpineOf IsLeaf m.type

/-- **All types of a reader follow the grammar.** -/
structure Reader.IsTyped (r : Reader) : Prop where
  /-- what ids stand for -/
  ids : r.ids.All (IsSpineOf IsGiven)
  /-- the structures of the unit -/
  unit : r.unit.All fun e => ∀ l, e = .own l → Layout.IsTyped l
  /-- the published structures -/
  types : r.types.All Layout.IsTyped
  /-- the global variables of the unit -/
  unitGlobals : r.unitGlobals.All fun v => IsSpineOf IsGiven v.type
  /-- the published global variables -/
  globals : r.globals.All fun v => IsSpineOf IsGiven v.type

section Typed

variable {r r' : Reader} {l : Layout}

/-- A reader that has read nothing has no types. -/
theorem isTyped_default : ({} : Reader).IsTyped :=
  ⟨.empty _, .empty _, .empty _, .empty _, .empty _⟩

/-- An id may stand for what the dump gives, behind any pointers and arrays. -/
theorem Reader.IsTyped.declare (h : r.IsTyped) (id : String) {t : TypeExpr}
    (ht : IsSpineOf IsGiven t) : (r.declare id t).IsTyped :=
  ⟨h.ids.insert id ht, h.unit, h.types, h.unitGlobals, h.globals⟩

/-- Layouts are found among those of the unit and the published ones. -/
theorem Reader.IsTyped.unitLayout? (h : r.IsTyped) {name : String}
    (hl : r.unitLayout? name = some l) : Layout.IsTyped l := by
  rw [Reader.unitLayout?] at hl
  split at hl
  · next hfind =>
    cases hl
    exact h.unit.of_find? hfind l rfl
  · exact h.types.of_find? hl
  · cases hl

theorem Reader.IsTyped.insertUnit (h : r.IsTyped) (name : String) (hl : Layout.IsTyped l) :
    Reader.IsTyped { r with unit := r.unit.insert name (.own l) } := by
  refine ⟨h.ids, h.unit.insert name ?_, h.types, h.unitGlobals, h.globals⟩
  rintro l' ⟨⟩
  exact hl

/-- A layout that follows the grammar may take the place of another. -/
theorem Reader.IsTyped.setUnitLayout (h : r.IsTyped) (name : String) (hl : Layout.IsTyped l) :
    (r.setUnitLayout name l).IsTyped := by
  rw [Reader.setUnitLayout]
  split
  · exact ⟨h.ids, h.unit, h.types.insert name hl, h.unitGlobals, h.globals⟩
  · exact h.insertUnit name hl

/-- Following the references of the members keeps the grammar, up to a fault. -/
theorem Layout.IsTyped.resolve {ids : IdTable} (hids : ids.All (IsSpineOf IsGiven))
    (hl : Layout.IsTyped l) : Layout.IsTyped (resolveLayout ids l).1 := by
  refine Table.All.sweep hl fun _ m hm => ?_
  rw [resolveMember]
  split
  · next t ht => exact hm.resolve (List.Subset.refl _) hids ht
  · exact hm

/-- So does writing enumerations, which only ends a spine in another way. -/
theorem Layout.IsTyped.merge (enums : Table String Enumeration) (hl : Layout.IsTyped l) :
    Layout.IsTyped (mergeLayout enums l).1 := by
  refine Table.All.sweep hl fun _ m hm => ?_
  rcases @type_mergeMember enums m hm.isPlain with heq | ⟨s, fields, heq⟩
  · rw [heq]
    exact hm
  · rw [heq]
    exact ⟨s, _, .record (by decide) fields, rfl⟩

/-- Structures that are published are those of the unit. -/
theorem Reader.IsTyped.publishTypes (h : r.IsTyped) : r.publishTypes.IsTyped := by
  refine ⟨h.ids, ?_, h.types.foldl_insert fun e he => ?_, h.unitGlobals, h.globals⟩
  · intro e he l hl
    obtain ⟨⟨name, e'⟩, hmem, rfl⟩ := List.mem_map.mp he
    obtain ⟨_, -, heq⟩ := List.mem_map.mp hmem
    cases heq
    cases hl
  · obtain ⟨e', -, hmap⟩ := List.mem_filterMap.mp he
    obtain ⟨l, hl, rfl⟩ := Option.map_eq_some_iff.mp hmap
    exact h.unitLayout? hl

/-- Variables that are published have types that the dump gives. -/
theorem Reader.IsTyped.publishGlobals (h : r.IsTyped) {vs : List (String × Variable)}
    (hvs : resolveGlobals r.ids r.unitGlobals.entries = .ok vs) :
    Reader.IsTyped
      { r with unitGlobals := .ofList vs, globals := r.globals.update (.ofList vs) } := by
  have hall : ∀ v ∈ vs, IsSpineOf IsGiven v.2.type := by
    intro v hv
    obtain ⟨w, hw, hresolve⟩ := exists_of_resolveGlobals hvs v hv
    exact (h.unitGlobals w.2 (List.mem_map_of_mem hw)).resolve (List.nil_subset _) h.ids hresolve
  exact ⟨h.ids, h.unit, h.types, .ofList hall, h.globals.update (.ofList hall)⟩

/-- Dropping structures leaves the others. -/
theorem isTyped_pruned {types : TypeTable} (h : types.All Layout.IsTyped)
    (globals : Table String Variable) : (pruned types globals).All Layout.IsTyped := by
  fun_induction pruned types globals with
  | case1 types next hsize => exact h
  | case2 types next hsize ih => exact ih (h.filter _)

/-- What goes back to the unit was published, and followed the grammar there. -/
theorem Reader.IsTyped.withTypes (h : r.IsTyped) {types : TypeTable}
    (htypes : types.All Layout.IsTyped) : (r.withTypes types).IsTyped := by
  refine ⟨h.ids, ?_, htypes, h.unitGlobals, h.globals⟩
  intro e he l hl
  obtain ⟨⟨name, e'⟩, hmem, rfl⟩ := List.mem_map.mp he
  obtain ⟨⟨name', e''⟩, hold, heq⟩ := List.mem_map.mp hmem
  cases heq
  dsimp only at hl
  split at hl
  · next hfind =>
    cases hl
    exact h.types.of_find? hfind
  · exact h.unit _ (List.mem_map_of_mem hold) l hl

/-- **Every change keeps the grammar**, if no name is a reference. -/
theorem Change.isTyped (h : Change (isReference · = false) r r') (hr : r.IsTyped) : r'.IsTyped := by
  cases h with
  | name id hname => exact hr.declare id (.tip (.named hname))
  | type id s ht => exact hr.declare id (IsSpineOf.plug (.tip ht) s)
  | bound count hfind => exact hr.declare _ ((hr.ids.of_find? hfind).array count)
  | layout name size => exact hr.insertUnit name (.empty _)
  | enums enums => exact ⟨hr.ids, hr.unit, hr.types, hr.unitGlobals, hr.globals⟩
  | member name offset hl ht =>
    refine hr.setUnitLayout _ (Table.All.insert (hr.unitLayout? hl) name ?_)
    exact .tip (ht.mono (fun _ h => h.elim) (by decide))
  | datum name address s =>
    exact ⟨hr.ids, hr.unit, hr.types, hr.unitGlobals.insert name (.tip (.text s)), hr.globals⟩
  | locals locals unitLocals => exact ⟨hr.ids, hr.unit, hr.types, hr.unitGlobals, hr.globals⟩
  | resolve hl => exact hr.setUnitLayout _ ((hr.unitLayout? hl).resolve hr.ids)
  | publishTypes => exact hr.publishTypes
  | publishGlobals hvs => exact hr.publishGlobals hvs
  | prune => exact hr.withTypes (isTyped_pruned hr.types r.globals)
  | merge =>
    exact ⟨hr.ids, hr.unit, hr.types.sweep fun _ l hl => hl.merge r.enums, hr.unitGlobals, hr.globals⟩
  | clear => exact ⟨.empty _, .empty _, hr.types, .empty _, hr.globals⟩
  | radix radix => exact ⟨hr.ids, hr.unit, hr.types, hr.unitGlobals, hr.globals⟩

/-- So do any number of changes. -/
theorem Changes.isTyped (h : Changes (isReference · = false) r r') (hr : r.IsTyped) : r'.IsTyped := by
  induction h with
  | refl => exact hr
  | tail _ hstep ih => exact hstep.isTyped ih

/-- What is in use names something or nothing. -/
theorem Reader.IsTyped.all_isAtom (h : r.IsTyped) :
    (usedNames r.types r.globals).all isAtom = true := by
  rw [List.all_eq_true]
  intro t ht
  rw [usedNames, List.mem_append] at ht
  rcases ht with ht | ht
  · obtain ⟨l, hl, hname⟩ := List.mem_flatMap.mp ht
    obtain ⟨m, hm, rfl⟩ := List.mem_map.mp hname
    exact isAtom_of_name (h.types l hl m hm).memberName
  · obtain ⟨v, hv, rfl⟩ := List.mem_map.mp ht
    exact isAtom_of_name (h.globals v hv).deepest

/-- **A typed reader explains plain faults only.** -/
theorem Reader.IsTyped.isPlainFault (h : r.IsTyped) {e : Fault} (he : r.Explains e) :
    IsPlainFault e :=
  he.resolve_right fun hfault => hfault.2 h.all_isAtom

end Typed

/-! ## Names of structures -/

/-- What is left of a text that does not start with the character taken off starts as before. -/
theorem head?_trim {p : Char → Bool} {c : Char} {cs : List Char} (hc : p c = false) :
    (Text.trim p (c :: cs)).head? = some c := by
  have htrim : Text.trim p (c :: cs) = (c :: cs).rdropWhile p := by
    rw [Text.trim, List.dropWhile_cons_of_neg (by simp [hc]), List.rdropWhile]
  have hne : (c :: cs).rdropWhile p ≠ [] := by
    rw [ne_eq, List.rdropWhile_eq_nil_iff]
    intro hall
    have := hall c (List.mem_cons_self ..)
    rw [hc] at this
    cases this
  obtain ⟨rest, hrest⟩ := List.rdropWhile_prefix p (l := c :: cs)
  rw [htrim]
  cases hlist : (c :: cs).rdropWhile p with
  | nil => exact (hne hlist).elim
  | cons d ds =>
    rw [hlist] at hrest
    rw [(List.cons.inj hrest).1, List.head?_cons]

/-- A name that the reader makes is no reference. -/
theorem isReference_unnamed (id : String) : isReference (Text.strip '"' (unnamed id)) = false := by
  have hchars : (unnamed id).toList = '_' :: ("_unnamed_".toList ++ id.toList) := by simp [unnamed]
  rw [isReference, Text.strip, String.toList_ofList, hchars, head?_trim (by decide)]
  rfl

/-- Whether a line has a name that is a reference. -/
def namesReference (line : String) : Bool :=
  match Line.parse? line with
  | none => false
  | some l =>
    match l.attributes.find? "DW_AT_name" with
    | none => false
    | some name => isReference (Text.strip '"' name)

/-- A line that names no reference gives none as a name. -/
theorem isReference_givenName {line : String} (h : namesReference line = false) {l : Line}
    (hparse : Line.parse? line = some l) : isReference l.statement.givenName = false := by
  rw [namesReference, hparse] at h
  dsimp only at h
  have hfind : l.statement.attributes.find? "DW_AT_name" =
      (l.attributes.find? "DW_AT_name").map .text := Table.find?_mapValues _ _ _
  rw [Statement.givenName, hfind]
  rcases hname : l.attributes.find? "DW_AT_name" with _ | name
  · exact isReference_unnamed _
  · rw [hname] at h
    exact h

/-! ## Runs -/

/-- What a reader is asked to do. -/
inductive Event where
  /-- to read a line -/
  | line (text : String)
  /-- to publish the current unit -/
  | publish

namespace Event

/-- Does what the reader is asked to. -/
def step : Event → ReadM Unit
  | line text => readLine text
  | publish => Dump.publish

/-- Whether a line names a reference. -/
def hasReference : Event → Bool
  | line text => namesReference text
  | publish => false

/-- A step makes changes, but for the place of a statement. -/
theorem makes_step {r : Reader} (hr : r.IsOpen) {e : Event} (he : e.hasReference = false) :
    ∃ level stack, Reader.IsOpen { r with level, stack } ∧
      Makes (isReference · = false) { r with level, stack } e.step r := by
  cases e with
  | line text => exact hr.makes_readLine _ text fun l hparse => isReference_givenName he hparse
  | publish => exact ⟨r.level, r.stack, hr, makes_publish (.refl _ r)⟩

end Event

/-- Takes events one after the other; a fault ends one of them, and not the run. -/
def runAll (r : Reader) (events : List Event) : Reader :=
  events.foldl (fun r e => after e.step r) r

section Runs

variable {r : Reader}

theorem Reader.IsTyped.withPlace (h : r.IsTyped) (level : Int) (stack : List Frame) :
    Reader.IsTyped { r with level, stack } :=
  ⟨h.ids, h.unit, h.types, h.unitGlobals, h.globals⟩

/-- What holds of a reader between two events. -/
structure Reader.IsSound (r : Reader) : Prop where
  /-- there is an open statement -/
  isOpen : r.IsOpen
  /-- types follow the grammar -/
  isTyped : r.IsTyped

/-- **Every event keeps a reader sound**, whatever fault it gives. -/
theorem Reader.IsSound.after (h : r.IsSound) {e : Event} (he : e.hasReference = false) :
    (after e.step r).IsSound := by
  obtain ⟨level, stack, hopen, hmakes⟩ := Event.makes_step h.isOpen he
  exact ⟨hmakes.isOpen hopen, hmakes.changes.isTyped (h.isTyped.withPlace level stack)⟩

/-- **Types follow the grammar in every run.** -/
theorem isSound_runAll (events : List Event) (h : ∀ e ∈ events, e.hasReference = false) :
    ∀ {r : Reader}, r.IsSound → (runAll r events).IsSound := by
  induction events with
  | nil => exact fun hr => hr
  | cons e events ih =>
    obtain ⟨he, hevents⟩ := List.forall_mem_cons.mp h
    exact fun hr => ih hevents (hr.after he)

/-- A step that makes changes gives plain faults only. -/
theorem Reader.IsTyped.isPlainFault_of_makes {α : Type} {x : ReadM α} {start r' : Reader} {e : Fault}
    (hstart : start.IsTyped) (hx : Makes (isReference · = false) start x r)
    (h : x.run r = .error e r') : IsPlainFault e := by
  have hlast : Dump.after x r = r' := by rw [Dump.after, h]
  exact (hx.changes.isTyped hstart).isPlainFault (hlast ▸ hx.explained e r' h)

theorem IsPlainFault.ne {e : Fault} (h : IsPlainFault e) : e ≠ .notText ∧ e ≠ .illTyped := by
  refine ⟨?_, ?_⟩ <;> rintro rfl <;> exact h

end Runs

/-- **Types keep their grammar.** Take any lines and publications, whatever faults they give, in which
no name is a reference. Then what an id stands for is a spine with a text or a name at its end. So is
the type of every member, in the current unit or published, unless a bit-field or an enumeration is
at the end; and it names one thing or nothing. Whatever comes next, a line, a publication or a
listing, it gives no fault that says that a value is no text or of a kind that an operation does not
take. -/
theorem types_keep_grammar (events : List Event) (h : ∀ e ∈ events, e.hasReference = false) :
    (∀ id t, (runAll {} events).ids.find? id = some t → IsSpineOf IsGiven t) ∧
    (∀ name l, (runAll {} events).unitLayout? name = some l ∨
        (runAll {} events).types.find? name = some l →
      ∀ field m, l.members.find? field = some m →
        IsSpineOf IsLeaf m.type ∧ ((∃ s, memberName m = .text s) ∨ memberName m = .atom .none)) ∧
    (∀ e : Event, e.hasReference = false → ∀ f r, e.step.run (runAll {} events) = .error f r →
      f ≠ .notText ∧ f ≠ .illTyped) ∧
    ∀ f r, describe.run (runAll {} events) = .error f r → f ≠ .notText ∧ f ≠ .illTyped := by
  have hsound := isSound_runAll events h ⟨isOpen_default, isTyped_default⟩
  refine ⟨fun id t ht => hsound.isTyped.ids.of_find? ht, fun name l hl field m hm => ?_,
    fun e he f r hrun => ?_, fun f r hrun => ?_⟩
  · have hlayout : Layout.IsTyped l :=
      hl.elim hsound.isTyped.unitLayout? hsound.isTyped.types.of_find?
    have hmember := hlayout.of_find? hm
    exact ⟨hmember, hmember.memberName⟩
  · obtain ⟨level, stack, -, hmakes⟩ := Event.makes_step hsound.isOpen he
    exact ((hsound.isTyped.withPlace level stack).isPlainFault_of_makes hmakes hrun).ne
  · have hdescribe : Makes (isReference · = false) (runAll {} events) describe (runAll {} events) :=
      .bind (makes_publish (.refl _ _)) fun _ r h => .get_bind (.stay h)
    exact (hsound.isTyped.isPlainFault_of_makes hdescribe hrun).ne

/-- A structure with a member that points to an array, before the array has its bound; a publication
in between, which cannot follow the reference yet; and a name in quotes that holds a bracket. -/
def interruptedUnit : List Event :=
  [.line "<1><5><DW_TAG_structure_type> DW_AT_name<\"S<\"> DW_AT_byte_size<8>",
    .line "<2><6><DW_TAG_member> DW_AT_name<p> DW_AT_type<<7>> DW_AT_data_member_location<0>",
    .publish,
    .line "<1><7><DW_TAG_pointer_type> DW_AT_type<<8>>",
    .line "<1><8><DW_TAG_array_type> DW_AT_type<<5>>",
    .line "<2><9><DW_TAG_subrange_type> DW_AT_upper_bound<3>",
    .publish]

theorem types_of_interruptedUnit :
    (∀ e ∈ interruptedUnit, e.hasReference = false) ∧
      (∀ name l, (runAll {} interruptedUnit).unitLayout? name = some l ∨
          (runAll {} interruptedUnit).types.find? name = some l →
        ∀ field m, l.members.find? field = some m →
          IsSpineOf IsLeaf m.type ∧ ((∃ s, memberName m = .text s) ∨ memberName m = .atom .none)) ∧
      ∀ f r, describe.run (runAll {} interruptedUnit) = .error f r →
        f ≠ .notText ∧ f ≠ .illTyped := by
  have hlines : ∀ e ∈ interruptedUnit, e.hasReference = false := by
    simp only [interruptedUnit, List.forall_mem_cons]
    exact ⟨by cbv, by cbv, by cbv, by cbv, by cbv, by cbv, by cbv, by simp⟩
  obtain ⟨-, hmembers, -, hdescribe⟩ := types_keep_grammar interruptedUnit hlines
  exact ⟨hlines, hmembers, hdescribe⟩

end Dump

end CpuTrace
