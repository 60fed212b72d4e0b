import CpuTrace.Proofs.GraphMeaning
import CpuTrace.Proofs.UnitReading
import Mathlib

/-!
# Reading a type graph

The main statement is `run_publish_dump`: whatever the graph and however it is written, reading its
dump and publishing gives no fault, and the table of types then has exactly the structures and unions
that are in use, in the order of the dump, each with its size and with the offsets and meanings of
its members.

Reading gives the tables of the graph (`run_readLines_dump`), and those can be published
(`HoldsGraph.publishable`). Which unnamed structures are left is said twice, in terms of names by
`SelfSupporting` and in terms of nodes by `Kept`; the two agree since a member names an unnamed
structure exactly if its type leads there (`namedBy_of_uses`, `uses_of_namedBy`).
-/

namespace CpuTrace.Dump

/-! ## Reading -/

/-- A reader has the tables of a graph, and has published nothing. -/
structure HoldsGraph (g : TypeGraph) (r : Reader) : Prop where
  /-- what the ids stand for -/
  ids : r.ids = g.ids
  /-- the layouts -/
  unit : r.unit = g.unit
  /-- the enumerations -/
  enums : r.enums = g.enums
  /-- no types are published -/
  types : r.types = ∅
  /-- no global variables are published -/
  globals : r.globals = ∅
  /-- the unit has no global variables -/
  unitGlobals : r.unitGlobals = ∅
  /-- the unit has no local variables -/
  unitLocals : r.unitLocals = []

/-- The first line of a compile unit leaves the reader as it was, but for its place. -/
theorem run_readLine_unit {id : Nat} {P : Attributes → Prop} {line : String}
    (h : Shows 0 id "DW_TAG_compile_unit" P line) :
    ∃ locals, (readLine line).run {} =
      .ok () (Reader.placed { locals } 0 [⟨"DW_TAG_compile_unit", idText id⟩]) := by
  obtain ⟨l, hparse, -, hheader⟩ := h.exists_parse? (by decide)
  have hkind : Tag.ofKind l.header.kind = .compileUnit := by
    rw [hheader]
    rfl
  have hlevel : Numeral.read .decimal l.header.level = .ok 0 := by
    rw [hheader]
    exact read_toDigits 0
  obtain ⟨locals, hrun⟩ := run_readLine_start hparse hkind hlevel (.inl ⟨by decide, rfl⟩)
    (fun e he => absurd he List.not_mem_nil) publishable_default
  rw [published_default, hheader] at hrun
  exact ⟨locals, hrun⟩

/-- **Reading** the dump of a graph gives its tables. -/
theorem run_readLines_dump (g : TypeGraph) {lines : List String} (h : g.IsDump lines) :
    ∃ r, (readLines lines).run {} = .ok () r ∧ HoldsGraph g r := by
  obtain ⟨id, unitLine, rest, hunit, hnodes, rfl⟩ := h
  obtain ⟨locals, hrun⟩ := run_readLine_unit hunit
  have hplace : InUnit 0 [⟨"DW_TAG_compile_unit", idText id⟩] := ⟨rfl, Int.le_refl 0⟩
  obtain ⟨level, stack, hrest⟩ :=
    @run_readLines_nodes g _ _ hnodes (fun n hn => hn) { locals } _ _ hplace
  refine ⟨_, (run_readLines_cons hrun).trans hrest, ?_⟩
  rw [foldl_add]
  exact ⟨rfl, rfl, rfl, rfl, rfl, rfl, rfl⟩

/-! ## A dump as a unit -/

/-- A line that shows another kind of statement starts no unit. -/
theorem Shows.not_startsUnit {level id : Nat} {kind : String} {P : Attributes → Prop} {line : String}
    (h : Shows level id kind P line) (hkind : isRunOf isWordChar kind.toList = true)
    (htag : Tag.ofKind kind ≠ .compileUnit) : ¬ StartsUnit line := by
  rintro ⟨l, hl, hstart⟩
  obtain ⟨l', hl', -, hheader⟩ := h.exists_parse? hkind
  obtain rfl : l = l' := Option.some.inj (hl.symm.trans hl')
  rw [hheader] at hstart
  exact htag hstart

/-- The lines of a node start no unit. -/
theorem NodeLines.not_startsUnit {n : Node} {lines : List String} (h : NodeLines n lines) :
    ∀ line ∈ lines, ¬ StartsUnit line := by
  cases h with
  | base h => exact List.forall_mem_singleton.mpr (h.not_startsUnit (by decide) (by decide))
  | @announced _ k _ _ h =>
    refine List.forall_mem_singleton.mpr ?_
    cases k <;> exact h.not_startsUnit (by decide) (by decide)
  | @layout _ k _ _ _ _ _ h hfields =>
    refine List.forall_mem_cons.mpr ⟨?_, fun line hline => ?_⟩
    · cases k <;> exact h.not_startsUnit (by decide) (by decide)
    · obtain ⟨f, -, hf⟩ := exists_mem_of_forall₂ hfields.flip hline
      exact Shows.not_startsUnit hf (by decide) (by decide)
  | enumeration h hchoices =>
    refine List.forall_mem_cons.mpr ⟨h.not_startsUnit (by decide) (by decide), fun line hline => ?_⟩
    obtain ⟨c, -, hc⟩ := exists_mem_of_forall₂ hchoices.flip hline
    exact Shows.not_startsUnit hc (by decide) (by decide)
  | pointer h => exact List.forall_mem_singleton.mpr (h.not_startsUnit (by decide) (by decide))
  | qualified hkind h =>
    have hkinds : ∀ kind ∈ ["DW_TAG_const_type", "DW_TAG_volatile_type", "DW_TAG_restrict_type"],
        isRunOf isWordChar kind.toList = true ∧ Tag.ofKind kind ≠ .compileUnit := by decide
    exact List.forall_mem_singleton.mpr (h.not_startsUnit (hkinds _ hkind).1 (hkinds _ hkind).2)
  | synonym h => exact List.forall_mem_singleton.mpr (h.not_startsUnit (by decide) (by decide))
  | array h hbound =>
    exact List.forall_mem_cons.mpr ⟨h.not_startsUnit (by decide) (by decide),
      List.forall_mem_singleton.mpr (hbound.not_startsUnit (by decide) (by decide))⟩

/-- **The dump of a graph is one unit.** -/
theorem TypeGraph.IsDump.isUnit {g : TypeGraph} {lines : List String} (h : g.IsDump lines) :
    IsUnit lines ∧ StartsHexadecimal lines := by
  obtain ⟨id, unitLine, rest, hunit, hnodes, rfl⟩ := h
  obtain ⟨l, hparse, -, hheader⟩ := hunit.exists_parse? (by decide)
  refine ⟨⟨⟨l, hparse, ?_, ?_⟩, ?_⟩, l, hparse, ?_⟩
  · rw [hheader]
    rfl
  · rw [hheader]
    exact read_toDigits 0
  · intro line hline
    obtain ⟨lines, hlines, hline⟩ := List.mem_flatten.mp hline
    obtain ⟨n, -, hn⟩ := exists_mem_of_forall₂ hnodes.flip hlines
    exact hn.not_startsUnit line hline
  · rw [hheader]

/-! ## Resolved layouts -/

/-- The layout that a node declares, without references. -/
def resolvedNode? (g : TypeGraph) (n : Node) : Option (String × Layout) :=
  n.layout?.map fun e => (e.1, resolvedLayout g.ids e.2)

section Resolved

variable {g : TypeGraph} {n : Node} {k : LayoutKind} {name : Option String} {size : Nat}
  {fields : List Field}

theorem resolvedNode?_of_layout (hd : n.declaration = .layout k name size fields) :
    resolvedNode? g n = some (nameOf n.id name, resolvedLayout g.ids (rawLayout k size fields)) := by
  rw [resolvedNode?, Node.layout?, hd]
  rfl

/-- Only structures and unions have an entry. -/
theorem exists_layout_of_resolvedNode? {e : String × Layout} (h : resolvedNode? g n = some e) :
    ∃ k name size fields, n.declaration = .layout k name size fields ∧
      e = (nameOf n.id name, resolvedLayout g.ids (rawLayout k size fields)) := by
  obtain ⟨id, d⟩ := n
  cases d with
  | layout k name size fields => exact ⟨k, name, size, fields, rfl, (Option.some.inj h).symm⟩
  | _ => cases h

theorem entries_rawLayout (hn : n ∈ g.nodes) (hd : n.declaration = .layout k name size fields) :
    (rawLayout k size fields).members.entries = fields.map (Field.entry k) := by
  refine Table.entries_ofList ?_
  have hformed := g.wellFormed n hn
  rw [hd] at hformed
  rw [List.map_map]
  exact hformed.2.1

/-- The type of a member unfolds to a spine, and its end gives the meaning. -/
theorem resolve_field (hn : n ∈ g.nodes) (hd : n.declaration = .layout k name size fields)
    {f : Field} (hf : f ∈ fields) : ∃ s b c, Denotes g f.type.id (Spine.plug s c) ∧
      Ends g f.type.id b c ∧ g.ids.resolve (.text f.type.text) = .ok (s.plug b) := by
  have href : f.type ∈ n.declaration.references := by
    rw [hd]
    exact List.mem_map_of_mem hf
  obtain ⟨t, ht⟩ := g.exists_denotes (g.closed n hn _ href)
  obtain ⟨m, hm, hid, s, b, c, rfl, hends, hunfolds⟩ := ht.unfolds
  exact ⟨s, b, c, ht, hends, IdTable.resolve_eq_ok_iff.mpr (unfolds_ref hm hid hunfolds)⟩

theorem resolveMember_of_resolve {ids : IdTable} {offset : Int} {t u : TypeExpr}
    (h : ids.resolve t = .ok u) : resolveMember ids ⟨offset, t⟩ = (⟨offset, u⟩, none) := by
  simp only [resolveMember, h]

/-- The types of all members can be resolved. -/
theorem resolvable_rawLayout (hn : n ∈ g.nodes) (hd : n.declaration = .layout k name size fields) :
    Resolvable g.ids (rawLayout k size fields) := by
  rw [Resolvable, forall_values_iff, entries_rawLayout hn hd]
  intro e he
  obtain ⟨f, hf, rfl⟩ := List.mem_map.mp he
  obtain ⟨s, b, c, -, -, hresolve⟩ := resolve_field hn hd hf
  exact ⟨_, hresolve⟩

/-- The members of a layout, without references. -/
theorem mem_values_resolvedLayout (hn : n ∈ g.nodes)
    (hd : n.declaration = .layout k name size fields) {m : Member} :
    m ∈ (resolvedLayout g.ids (rawLayout k size fields)).members.values ↔ ∃ f ∈ fields, ∃ s b c,
      Ends g f.type.id b c ∧ g.ids.resolve (.text f.type.text) = .ok (Spine.plug s b) ∧
        m = ⟨k.offset f, s.plug b⟩ := by
  rw [Table.values, resolvedLayout, mapMembers, Table.entries_mapValues, entries_rawLayout hn hd,
    List.map_map, List.map_map, List.mem_map]
  constructor
  · rintro ⟨f, hf, rfl⟩
    obtain ⟨s, b, c, -, hends, hresolve⟩ := resolve_field hn hd hf
    refine ⟨f, hf, s, b, c, hends, hresolve, ?_⟩
    simp only [Function.comp_apply, Field.entry, resolveMember_of_resolve hresolve]
  · rintro ⟨f, hf, s, b, c, -, hresolve, rfl⟩
    refine ⟨f, hf, ?_⟩
    simp only [Function.comp_apply, Field.entry, resolveMember_of_resolve hresolve]

/-- **The entry of a node**, with enumerations merged, describes it. -/
theorem describes_merged (hn : n ∈ g.nodes) (hd : n.declaration = .layout k name size fields) :
    Describes g n (nameOf n.id name,
      mergedLayout g.enums (resolvedLayout g.ids (rawLayout k size fields))) := by
  refine ⟨k, name, size, fields, hd, rfl, rfl, ?_⟩
  rw [mergedLayout, mapMembers, Table.entries_mapValues, resolvedLayout, mapMembers,
    Table.entries_mapValues, entries_rawLayout hn hd, List.map_map, List.map_map,
    List.forall₂_map_right_iff, List.forall₂_same]
  intro f hf
  obtain ⟨s, b, c, hdenotes, hends, hresolve⟩ := resolve_field hn hd hf
  refine ⟨rfl, ?_, ?_⟩
  · simp only [Function.comp_apply, Field.entry, resolveMember_of_resolve hresolve,
      mergeMember_of_ends hends]
  · simp only [Function.comp_apply, Field.entry, resolveMember_of_resolve hresolve,
      mergeMember_of_ends hends]
    exact hdenotes

end Resolved

/-! ## The table before unnamed structures are dropped -/

/-- All structures and unions of a graph, without references. -/
def TypeGraph.types (g : TypeGraph) : TypeTable := .ofList (g.nodes.filterMap (resolvedNode? g))

section Types

variable {g : TypeGraph} {r : Reader}

theorem entries_types : g.types.entries = g.nodes.filterMap (resolvedNode? g) := by
  refine Table.entries_ofList (nodup_of_completes fun n e h => ?_)
  obtain ⟨k, name, size, fields, hd, rfl⟩ := exists_layout_of_resolvedNode? h
  exact ⟨name, by rw [hd]; exact .layout k size fields, rfl⟩

/-- **The table of a graph** has the resolved layouts of its nodes. -/
theorem find?_types {name : String} {l : Layout} :
    g.types.find? name = some l ↔ ∃ n ∈ g.nodes, resolvedNode? g n = some (name, l) := by
  rw [Table.find?_eq_some_iff, entries_types, List.mem_filterMap]

theorem HoldsGraph.isOwn (h : HoldsGraph g r) : r.IsOwn := by
  intro e he
  rw [h.unit, entries_unit] at he
  obtain ⟨e', -, rfl⟩ := List.mem_map.mp he
  exact ⟨_, rfl⟩

theorem HoldsGraph.ownLayouts (h : HoldsGraph g r) :
    r.ownLayouts = g.nodes.filterMap Node.layout? := by
  rw [Reader.ownLayouts, h.unit, entries_unit, List.filterMap_map]
  exact List.filterMap_some

/-- What the reader will publish are the layouts of the graph. -/
theorem HoldsGraph.resolvedLayouts (h : HoldsGraph g r) :
    r.resolvedLayouts = g.nodes.filterMap (resolvedNode? g) := by
  rw [Reader.resolvedLayouts, h.ownLayouts, h.ids, List.map_filterMap]
  rfl

/-- Without earlier units, that is the table of the graph. -/
theorem HoldsGraph.joinedTypes (h : HoldsGraph g r) : r.joinedTypes = g.types := by
  rw [Reader.joinedTypes, h.resolvedLayouts, h.types]
  rfl

theorem HoldsGraph.joinedGlobals (h : HoldsGraph g r) : r.joinedGlobals = ∅ := by
  rw [Reader.joinedGlobals, h.globals, Reader.resolvedGlobals, h.unitGlobals]
  rfl

/-- **A graph can be published.** -/
theorem HoldsGraph.publishable (h : HoldsGraph g r) : Publishable r := by
  refine ⟨?_, ?_, ?_, ?_, ?_⟩
  · rw [h.ownLayouts, h.ids]
    intro e he
    obtain ⟨⟨id, d⟩, hn, he⟩ := List.mem_filterMap.mp he
    cases d with
    | layout k name size fields =>
      cases he
      exact resolvable_rawLayout hn rfl
    | _ => cases he
  · rw [Reader.resolvedGlobals, h.unitGlobals]
    rfl
  · rw [h.unitLocals]
    exact ⟨[], rfl⟩
  · rw [h.joinedTypes, h.joinedGlobals]
    intro t ht
    rw [usedNames, List.mem_append] at ht
    obtain ⟨l, hl, ht⟩ := List.mem_flatMap.mp (ht.resolve_right List.not_mem_nil)
    obtain ⟨m, hm, rfl⟩ := List.mem_map.mp ht
    obtain ⟨e, he, rfl⟩ := List.mem_map.mp hl
    rw [entries_types, List.mem_filterMap] at he
    obtain ⟨n, hn, he⟩ := he
    obtain ⟨k, name, size, fields, hd, rfl⟩ := exists_layout_of_resolvedNode? he
    obtain ⟨f, -, s, b, c, hends, -, rfl⟩ := (mem_values_resolvedLayout hn hd).mp hm
    rcases hends.cases_name with ⟨x, hx, rfl⟩ | ⟨rfl, -⟩
    · rw [Spine.memberName_plug_named _ _ hx]
      rfl
    · rw [Spine.memberName_plug_text]
      rfl
  · rw [h.joinedTypes, h.joinedGlobals, h.enums]
    intro e he
    have he := (entries_pruned_sublist _ _).subset he
    rw [entries_types, List.mem_filterMap] at he
    obtain ⟨n, hn, he⟩ := he
    obtain ⟨k, name, size, fields, hd, rfl⟩ := exists_layout_of_resolvedNode? he
    intro m hm
    obtain ⟨f, -, s, b, c, hends, -, rfl⟩ := (mem_values_resolvedLayout hn hd).mp hm
    rw [mergeMember_of_ends hends]

/-! ## Use -/

/-- A type that leads to a structure or union has its name at the end of its spine. -/
theorem unfolds_of_leads {i id : Nat} {k : LayoutKind} {name : Option String} {size : Nat}
    {fields : List Field} (hmem : ⟨id, .layout k name size fields⟩ ∈ g.nodes) (h : Leads g i id) :
    ∃ n ∈ g.nodes, n.id = i ∧ ∃ s, g.ids.Unfolds n.expr (Spine.plug s (.named (nameOf id name))) := by
  induction h with
  | refl => exact ⟨_, hmem, rfl, .tip, unfolds_named (g.bracket_not_mem hmem rfl)⟩
  | @step n r _ hn hr _ ih =>
    obtain ⟨m, hm, hid, s, hunfolds⟩ := ih hmem
    have href := unfolds_ref hm hid hunfolds
    refine ⟨n, hn, rfl, ?_⟩
    obtain ⟨i, d⟩ := n
    cases d with
    | pointer target =>
      obtain rfl := Option.mem_toList.mp hr
      exact ⟨.pointer s, .list (.cons (unfolds_text (by decide)) (.cons href .nil))⟩
    | qualified target =>
      obtain rfl := Option.mem_toList.mp hr
      exact ⟨s, href⟩
    | synonym target =>
      obtain rfl := Option.mem_toList.mp hr
      exact ⟨s, href⟩
    | array element bound =>
      obtain rfl := List.mem_singleton.mp hr
      exact ⟨.array _ s, .list (.cons (unfolds_text (by decide)) (.cons (.int _) (.cons href .nil)))⟩
    | _ => cases hr

/-- If a member's type leads to a structure, the member names it. -/
theorem namedBy_of_uses {owner id : Nat} {k : LayoutKind} {name : Option String} {size : Nat}
    {fields : List Field} (hmem : ⟨id, .layout k name size fields⟩ ∈ g.nodes) (h : Uses g owner id) :
    ∃ k' name' size' fields', ⟨owner, .layout k' name' size' fields'⟩ ∈ g.nodes ∧
      NamedBy g.types (nameOf owner name') (nameOf id name) := by
  obtain ⟨k', name', size', fields', f, hf, howner, hleads⟩ := h
  obtain ⟨n, hn, hid, s, hunfolds⟩ := unfolds_of_leads hmem hleads
  have hresolve := IdTable.resolve_eq_ok_iff.mpr (unfolds_ref hn hid hunfolds)
  obtain ⟨s', b, c, -, hends, hresolve'⟩ := resolve_field howner rfl hf
  refine ⟨k', name', size', fields', howner, _, ⟨k'.offset f, s.plug (.named (nameOf id name))⟩,
    find?_types.mpr ⟨_, howner, resolvedNode?_of_layout rfl⟩, ?_, ?_⟩
  · refine (mem_values_resolvedLayout howner rfl).mpr ⟨f, hf, s', b, c, hends, hresolve', ?_⟩
    rw [Except.ok.inj (hresolve.symm.trans hresolve')]
  · exact Spine.memberName_plug_named _ _ (nameOf_ne_empty hmem rfl)

/-- If a member names an unnamed structure, its type leads there. -/
theorem uses_of_namedBy {n : Node} (hn : n ∈ g.nodes) {k : LayoutKind} {size : Nat}
    {fields : List Field} (hd : n.declaration = .layout k none size fields) {owner : String}
    (h : NamedBy g.types owner (nameOf n.id none)) :
    ∃ m ∈ g.nodes, ∃ k' name' size' fields', m.declaration = .layout k' name' size' fields' ∧
      owner = nameOf m.id name' ∧ Uses g m.id n.id := by
  obtain ⟨l, m, hl, hm, hname⟩ := h
  obtain ⟨o, ho, hentry⟩ := find?_types.mp hl
  obtain ⟨k', name', size', fields', hd', heq⟩ := exists_layout_of_resolvedNode? hentry
  obtain ⟨rfl, rfl⟩ := Prod.mk.inj heq
  obtain ⟨f, hf, s, b, c, hends, -, rfl⟩ := (mem_values_resolvedLayout ho hd').mp hm
  have htext : ∀ {x : String}, x ≠ "" → b = .named x → x = nameOf n.id none := by
    rintro x hx rfl
    rw [Spine.memberName_plug_named _ _ hx] at hname
    exact Atom.text.inj (TypeExpr.atom.inj hname)
  -- the name at the end is the one that the reader made for this node, so it is this node
  have hnode : ∀ {i : Node} {name : Option String}, i ∈ g.nodes → i.declaration.tag? = name →
      b = .named (nameOf i.id name) → i = n := by
    intro i name hi htag hb
    obtain ⟨rfl, hid⟩ := (nameOf_eq_iff (fun s hs => g.isUnnamed_tag hi (htag.trans hs))
      (by simp)).mp (htext (nameOf_ne_empty hi htag) hb)
    exact g.eq_of_id_eq hi hn (hid rfl)
  have huses : Uses g o.id n.id := by
    cases hends with
    | scalar hs =>
      have hplain : ∀ s ∈ plainNames, s ≠ "" ∧ isUnnamed s = false := by decide
      obtain ⟨hne, hunnamed⟩ := hplain _ hs
      rw [htext hne rfl, nameOf, Option.getD_none, isUnnamed_unnamed] at hunnamed
      cases hunnamed
    | bare =>
      rw [Spine.memberName_plug_text] at hname
      cases hname
    | announced hi _ hdi =>
      rw [hnode hi (by rw [hdi]; rfl) rfl, hd] at hdi
      cases hdi
    | layout hi hleads hdi =>
      rw [hnode hi (by rw [hdi]; rfl) rfl] at hleads
      exact ⟨k', name', size', fields', f, hf, by rw [← hd']; exact ho, hleads⟩
    | enumeration hi _ hdi _ =>
      rw [hnode hi (by rw [hdi]; rfl) rfl, hd] at hdi
      cases hdi
  exact ⟨o, ho, k', name', size', fields', hd', rfl, huses⟩

/-- **Use** in terms of nodes and in terms of names. -/
theorem mem_keys_pruned_types_iff {n : Node} (hn : n ∈ g.nodes) {k : LayoutKind}
    {name : Option String} {size : Nat} {fields : List Field}
    (hd : n.declaration = .layout k name size fields) :
    nameOf n.id name ∈ (pruned g.types ∅).keys ↔ Kept g n.id := by
  rw [mem_keys_pruned_iff]
  constructor
  · rintro ⟨X, hX, hname⟩
    refine ⟨fun i => ∃ k name size fields, ⟨i, .layout k name size fields⟩ ∈ g.nodes ∧
      X (nameOf i name), ⟨k, name, size, fields, hd ▸ hn, hname⟩, ?_⟩
    rintro i ⟨k, name, size, fields, hi, hXi⟩
    refine ⟨k, name, size, fields, hi, ?_⟩
    rcases name with _ | s
    · obtain ⟨-, hunnamed | ⟨owner, howner, hby⟩ | ⟨v, hv, -⟩⟩ := hX _ hXi
      · rw [nameOf, Option.getD_none, isUnnamed_unnamed] at hunnamed
        cases hunnamed
      · obtain ⟨m, hm, k', name', size', fields', hd', rfl, huses⟩ := uses_of_namedBy hi rfl hby
        exact Or.inr ⟨m.id, ⟨k', name', size', fields', hd' ▸ hm, howner⟩, huses⟩
      · cases hv
    · exact Or.inl (by simp)
  · rintro ⟨X, hXn, hX⟩
    refine ⟨fun x => ∃ i k name size fields, ⟨i, .layout k name size fields⟩ ∈ g.nodes ∧ X i ∧
      x = nameOf i name, ?_, n.id, k, name, size, fields, hd ▸ hn, hXn, rfl⟩
    rintro x ⟨i, k, name, size, fields, hi, hXi, rfl⟩
    have hkey : nameOf i name ∈ g.types.keys := Table.mem_keys_of_mem (Table.find?_eq_some_iff.mp
      (find?_types.mpr ⟨_, hi, resolvedNode?_of_layout rfl⟩))
    refine ⟨hkey, ?_⟩
    obtain ⟨k', name', size', fields', hi', hused⟩ := hX i hXi
    obtain ⟨rfl, rfl, rfl, rfl⟩ : k = k' ∧ name = name' ∧ size = size' ∧ fields = fields' := by
      simpa using g.eq_of_id_eq hi hi' rfl
    rcases name with _ | s
    · obtain ⟨j, hXj, huses⟩ := hused.resolve_left (by simp)
      obtain ⟨k', name', size', fields', hj, hby⟩ := namedBy_of_uses hi huses
      exact Or.inr (Or.inl ⟨_, ⟨j, k', name', size', fields', hj, hXj, rfl⟩, hby⟩)
    · exact Or.inl (g.isUnnamed_tag hi rfl)

/-- What is left of the table are the entries of the nodes in use. -/
theorem exists_kept (g : TypeGraph) : ∃ kept : List Node, kept.Sublist g.nodes ∧
    (∀ n ∈ g.nodes, n ∈ kept ↔ Kept g n.id) ∧
    (∀ n ∈ kept, ∃ k name size fields, n.declaration = .layout k name size fields) ∧
    (pruned g.types ∅).entries = kept.filterMap (resolvedNode? g) := by
  have hsub := entries_pruned_sublist g.types ∅
  rw [entries_types] at hsub
  obtain ⟨nodes, hnodes, hentries⟩ := List.sublist_filterMap_iff.mp hsub
  -- the sublist may have nodes without an entry
  let kept := nodes.filter fun n => (resolvedNode? g n).isSome
  have hkept : (pruned g.types ∅).entries = kept.filterMap (resolvedNode? g) := by
    rw [hentries, List.filterMap_filter]
    refine List.filterMap_congr fun n _ => ?_
    rcases resolvedNode? g n with _ | e <;> rfl
  have hlayout : ∀ n ∈ kept, ∃ k name size fields, n.declaration = .layout k name size fields := by
    intro n hn
    obtain ⟨e, he⟩ := Option.isSome_iff_exists.mp (List.mem_filter.mp hn).2
    obtain ⟨k, name, size, fields, hd, -⟩ := exists_layout_of_resolvedNode? he
    exact ⟨k, name, size, fields, hd⟩
  have hkeptNodes : kept.Sublist g.nodes := List.filter_sublist.trans hnodes
  refine ⟨kept, hkeptNodes, fun n hn => ⟨fun hk => ?_, fun hk => ?_⟩, hlayout, hkept⟩
  · obtain ⟨k, name, size, fields, hd⟩ := hlayout n hk
    have hentry : (nameOf n.id name, resolvedLayout g.ids (rawLayout k size fields)) ∈
        (pruned g.types ∅).entries := by
      rw [hkept, List.mem_filterMap]
      exact ⟨n, hk, resolvedNode?_of_layout hd⟩
    exact (mem_keys_pruned_types_iff hn hd).mp (Table.mem_keys_of_mem hentry)
  · obtain ⟨X, hXn, hX⟩ := hk
    obtain ⟨k, name, size, fields, hmem, -⟩ := hX n.id hXn
    have hd : n.declaration = .layout k name size fields :=
      congrArg Node.declaration (g.eq_of_id_eq hn hmem rfl)
    obtain ⟨l, hl⟩ := Table.exists_of_mem_keys ((mem_keys_pruned_types_iff hn hd).mpr ⟨X, hXn, hX⟩)
    rw [hkept, List.mem_filterMap] at hl
    obtain ⟨m, hm, he⟩ := hl
    obtain ⟨k', name', size', fields', hd', heq⟩ := exists_layout_of_resolvedNode? he
    have hcomplete : Completes name n.declaration := hd ▸ .layout k size fields
    have hcomplete' : Completes name' m.declaration := hd' ▸ .layout k' size' fields'
    rw [g.eq_of_nameOf_eq hn (hkeptNodes.subset hm) hcomplete hcomplete' (Prod.mk.inj heq).1]
    exact hm

end Types

/-! ## Reading and publishing -/

/-- The entries of part of a list, item by item. -/
theorem forall₂_filterMap {α β γ : Type} {f : α → Option β} {h : β → γ} {R : α → γ → Prop}
    {xs : List α} (hxs : ∀ x ∈ xs, ∃ y, f x = some y ∧ R x (h y)) :
    List.Forall₂ R xs ((xs.filterMap f).map h) := by
  induction xs with
  | nil => exact .nil
  | cons x xs ih =>
    obtain ⟨⟨y, hy, hR⟩, hxs⟩ := List.forall_mem_cons.mp hxs
    rw [List.filterMap_cons_some hy]
    exact .cons hR (ih hxs)

/-- **Reading a type graph.** Whatever a graph of types and however it is dumped, the dump is read and
published without a fault. The table of all types then has an entry for each structure and union
that is in use and for nothing else, in the order of the dump, and each entry describes its node. -/
theorem run_publish_dump (g : TypeGraph) {lines : List String} (h : g.IsDump lines) :
    ∃ (r : Reader) (kept : List Node),
      (do readLines lines; publish : ReadM Unit).run {} = .ok () r ∧
      kept.Sublist g.nodes ∧ (∀ n ∈ g.nodes, n ∈ kept ↔ Kept g n.id) ∧
      List.Forall₂ (Describes g) kept r.types.entries ∧ r.globals = ∅ := by
  obtain ⟨r, hread, hholds⟩ := run_readLines_dump g h
  obtain ⟨r', hpublish, hpublishes⟩ := run_publish hholds.isOwn hholds.publishable
  obtain ⟨kept, hsub, hused, hlayout, hentries⟩ := exists_kept g
  refine ⟨r', kept, (run_bind_of_eq hread).trans hpublish, hsub, hused, ?_, ?_⟩
  · have htypes : r'.types = (pruned g.types ∅).mapValues fun _ l => mergedLayout g.enums l := by
      rw [hpublishes.types, Reader.publishedTypes, hholds.joinedTypes, hholds.joinedGlobals,
        hholds.enums]
    rw [htypes, Table.entries_mapValues, hentries]
    refine forall₂_filterMap fun n hn => ?_
    obtain ⟨k, name, size, fields, hd⟩ := hlayout n hn
    exact ⟨_, resolvedNode?_of_layout hd, describes_merged (hsub.subset hn) hd⟩
  · rw [hpublishes.globals, hholds.joinedGlobals]

/-- A cell of a list: a structure with a pointer to its own kind, an enumeration, an array and an
unnamed union, all of them declared after it, and an unnamed structure that nothing uses. -/
def cellGraph : TypeGraph where
  nodes := [
    ⟨0x10, .layout .struct (some "cell") 0x18 [
      ⟨0x11, some "next", 0, ⟨0x20, 2⟩⟩,
      ⟨0x12, some "color", 8, ⟨0x30, 0⟩⟩,
      ⟨0x13, some "bytes", 12, ⟨0x50, 0⟩⟩,
      ⟨0x14, none, 16, ⟨0x60, 0⟩⟩]⟩,
    ⟨0x20, .pointer (some ⟨0x70, 0⟩)⟩,
    ⟨0x30, .enumeration (some "color") 4 [⟨0x31, "red", 0⟩, ⟨0x32, "green", -1⟩]⟩,
    ⟨0x40, .base "unsigned char"⟩,
    ⟨0x50, .array ⟨0x40, 0⟩ 3⟩,
    ⟨0x60, .layout .union none 8 [⟨0x61, some "word", 0, ⟨0x20, 1⟩⟩]⟩,
    ⟨0x70, .qualified (some ⟨0x10, 0⟩)⟩,
    ⟨0x80, .layout .struct none 1 []⟩]
  distinct := by decide
  nonzero := by decide
  closed := by decide
  ranked := ⟨fun id => if id = 0x20 then 2 else if id = 0x70 ∨ id = 0x50 then 1 else 0, by decide⟩
  wellFormed := by decide
  tags := by decide
  kinds := by decide

/-- An attribute after one blank. -/
def attr (key value : String) : Attribute := ⟨0, key, value, false⟩

/-- An attribute that refers to a type. -/
def typeAttr (value : String) : Attribute := ⟨0, "DW_AT_type", value, true⟩

/-- The line of a statement. -/
def writtenLine (level id : Nat) (kind : String) (as : List Attribute) : String :=
  String.ofList (lineChars (Nat.toDigits 10 level) (idText id).toList kind.toList as)

theorem shows_writtenLine {level id : Nat} {kind : String} {as : List Attribute}
    {P : Attributes → Prop} (has : ∀ a ∈ as, a.IsWritten)
    (hP : P ((Table.ofList (as.map Attribute.entry)).mapValues fun _ v => .text v)) :
    Shows level id kind P (writtenLine level id kind as) :=
  ⟨as, has, String.toList_ofList, hP⟩

/-- The lines of its nodes. -/
def cellLines : List (List String) :=
  [[writtenLine 1 0x10 "DW_TAG_structure_type"
        [attr "DW_AT_name" "\"cell\"", attr "DW_AT_byte_size" "0x18"],
      writtenLine 2 0x11 "DW_TAG_member"
        [attr "DW_AT_name" "next", typeAttr "<0x0020", attr "DW_AT_data_member_location" "0"],
      writtenLine 2 0x12 "DW_TAG_member" [⟨1, "DW_AT_name", "color", false⟩, typeAttr "<0x30",
        attr "DW_AT_data_member_location" "8(DW_OP_plus_uconst 8)"],
      writtenLine 2 0x13 "DW_TAG_member"
        [attr "DW_AT_data_member_location" "DW_OP_plus_uconst 12", attr "DW_AT_name" "bytes",
          typeAttr "<0x50"],
      writtenLine 2 0x14 "DW_TAG_member"
        [typeAttr "<0x60", attr "DW_AT_data_member_location" "16"]],
    [writtenLine 1 0x20 "DW_TAG_pointer_type" [attr "DW_AT_byte_size" "0x8", typeAttr "<0x70"]],
    [writtenLine 1 0x30 "DW_TAG_enumeration_type"
        [attr "DW_AT_name" "color", attr "DW_AT_byte_size" "4"],
      writtenLine 2 0x31 "DW_TAG_enumerator"
        [attr "DW_AT_name" "red", attr "DW_AT_const_value" "0"],
      writtenLine 2 0x32 "DW_TAG_enumerator"
        [attr "DW_AT_name" "green", attr "DW_AT_const_value" "-1"]],
    [writtenLine 1 0x40 "DW_TAG_base_type" [attr "DW_AT_name" "unsigned char"]],
    [writtenLine 1 0x50 "DW_TAG_array_type" [typeAttr "<0x40"],
      writtenLine 2 0x51 "DW_TAG_subrange_type" [attr "DW_AT_upper_bound" "3"]],
    [writtenLine 1 0x60 "DW_TAG_union_type" [attr "DW_AT_byte_size" "08"],
      writtenLine 2 0x61 "DW_TAG_member" [attr "DW_AT_name" "word", typeAttr "<0x020"]],
    [writtenLine 1 0x70 "DW_TAG_const_type" [typeAttr "<0x10"]],
    [writtenLine 1 0x80 "DW_TAG_structure_type" [attr "DW_AT_byte_size" "1"]]]

/-- Its dump. -/
def cellDump : List String :=
  writtenLine 0 0xb "DW_TAG_compile_unit" [attr "DW_AT_name" "\"cell.c\""] :: cellLines.flatten

theorem isDump_cellDump : cellGraph.IsDump cellDump := by
  refine ⟨0xb, _, cellLines, shows_writtenLine (by decide) trivial, ?_, rfl⟩
  refine .cons ?cell (.cons ?pointer (.cons ?color (.cons ?byte (.cons ?bytes (.cons ?word
    (.cons ?const (.cons ?unused .nil)))))))
  case cell =>
    refine .layout (shows_writtenLine (by decide)
      ⟨⟨_, rfl, 1, rfl⟩, rfl, _, rfl, ['0', 'x'], 0, Or.inr rfl, by decide⟩) ?_
    refine .cons ?_ (.cons ?_ (.cons ?_ (.cons ?_ .nil))) <;> refine shows_writtenLine (by decide) ?_
    · exact ⟨⟨_, rfl, 0, rfl⟩, rfl, ⟨_, rfl, Or.inl (by decide)⟩, rfl⟩
    · exact ⟨⟨_, rfl, 0, rfl⟩, rfl, ⟨_, rfl, Or.inr (Or.inl (by decide))⟩, rfl⟩
    · exact ⟨⟨_, rfl, 0, rfl⟩, rfl, ⟨_, rfl, Or.inr (Or.inr (by decide))⟩, rfl⟩
    · exact ⟨rfl, rfl, ⟨_, rfl, Or.inl (by decide)⟩, rfl⟩
  case pointer => exact .pointer (shows_writtenLine (by decide) rfl)
  case color =>
    refine .enumeration (shows_writtenLine (by decide)
      ⟨⟨_, rfl, 0, rfl⟩, rfl, _, rfl, [], 0, Or.inl rfl, by decide⟩) ?_
    refine .cons ?_ (.cons ?_ .nil) <;> exact shows_writtenLine (by decide) ⟨⟨_, rfl, 0, rfl⟩, rfl⟩
  case byte => exact .base (shows_writtenLine (by decide) ⟨_, rfl, 0, rfl⟩)
  case bytes => exact .array (shows_writtenLine (by decide) rfl) (shows_writtenLine (by decide) rfl)
  case word =>
    refine .layout (shows_writtenLine (by decide)
      ⟨rfl, rfl, _, rfl, [], 1, Or.inl rfl, by decide⟩) (.cons ?_ .nil)
    exact shows_writtenLine (by decide) ⟨⟨_, rfl, 0, rfl⟩, rfl, trivial⟩
  case const =>
    exact @NodeLines.qualified _ _ "DW_TAG_const_type" _ (by decide)
      (shows_writtenLine (by decide) rfl)
  case unused =>
    exact .layout (shows_writtenLine (by decide)
      ⟨rfl, rfl, _, rfl, [], 0, Or.inl rfl, by decide⟩) .nil

theorem run_publish_cellDump : cellGraph.IsDump cellDump ∧ ∃ (r : Reader) (kept : List Node),
    (do readLines cellDump; publish : ReadM Unit).run {} = .ok () r ∧
    kept.Sublist cellGraph.nodes ∧ (∀ n ∈ cellGraph.nodes, n ∈ kept ↔ Kept cellGraph n.id) ∧
    List.Forall₂ (Describes cellGraph) kept r.types.entries ∧ r.globals = ∅ :=
  ⟨isDump_cellDump, run_publish_dump cellGraph isDump_cellDump⟩

end CpuTrace.Dump
