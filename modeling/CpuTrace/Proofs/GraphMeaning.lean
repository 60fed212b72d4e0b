import CpuTrace.Proofs.Spine
import CpuTrace.Proofs.Statements
import CpuTrace.Proofs.Unfolding
import Mathlib

/-!
# Meanings in the tables of a graph

Between the dump and the table of types a type has two forms. Unfolding the references of a node
leads to a spine with a name at its end (`Denotes.unfolds`): that of a scalar, of a structure or
union, or of an enumeration. Merging then writes the values of an enumeration in place of its name,
which gives the meaning of the node (`mergeMember_of_ends`).

Both steps look names up, so they need that names tell types apart: those that the dump gives, those
that the reader makes from ids, and those of scalars (`TypeGraph.eq_of_nameOf_eq`,
`find?_enums_of_tag`, `find?_enums_of_plain`).
-/

namespace CpuTrace.Dump

/-! ## Ids -/

/-- A reference leads to the id it is about, whatever zeros stand in front. -/
theorem referredId_text {r : Ref} (h : r.id ≠ 0) :
    ∃ cs, r.text.toList = '<' :: cs ∧ referredId cs = idText r.id := by
  refine ⟨_, String.toList_ofList, ?_⟩
  have hzeros : ∀ c ∈ List.replicate r.zeros '0', (c == '0') = true := by
    intro c hc
    rw [List.eq_of_mem_replicate hc]
    rfl
  rw [referredId, List.dropWhile_append_of_pos hzeros]
  obtain ⟨c, cs, hcs⟩ := List.exists_cons_of_ne_nil (@Nat.toDigits_ne_nil r.id 16)
  have hc : (c == '0') = false := by
    have hhead := Numeral.head?_toDigits_ne (by decide : 1 < 16) (by decide) h
    rw [hcs] at hhead
    exact beq_eq_false_iff_ne.mpr fun he => hhead (congrArg some he)
  rw [idText, hcs, List.dropWhile_cons, hc, if_neg Bool.false_ne_true]

/-- Different statements have different ids. -/
theorem idText_injective {i j : Nat} (h : idText i = idText j) : i = j := by
  have hlist := congrArg String.toList h
  rw [toList_idText, toList_idText] at hlist
  have hdigits : Nat.toDigits 16 i = Nat.toDigits 16 j := (List.cons.inj (List.cons.inj hlist).2).2
  have hi := Numeral.digitsFrom?_toDigits (by decide : 1 < 16) (by decide) i
  rw [hdigits, Numeral.digitsFrom?_toDigits (by decide) (by decide)] at hi
  exact (Option.some.inj hi).symm

/-! ## Names -/

/-- A name that is made from an id is an unnamed one. -/
theorem isUnnamed_unnamed (id : String) : isUnnamed (unnamed id) = true := by
  rw [isUnnamed, unnamed, String.toList_append, List.isPrefixOf_iff_prefix]
  exact List.prefix_append _ _

/-- Names are the same if the dump gives the same, or if it gives none to one statement. -/
theorem nameOf_eq_iff {i j : Nat} {a b : Option String}
    (ha : ∀ s, a = some s → isUnnamed s = false) (hb : ∀ s, b = some s → isUnnamed s = false) :
    nameOf i a = nameOf j b ↔ a = b ∧ (a = none → i = j) := by
  constructor
  · intro h
    rcases a with _ | a <;> rcases b with _ | b
    · refine ⟨rfl, fun _ => idText_injective ?_⟩
      exact String.append_right_inj _ |>.mp h
    · have := isUnnamed_unnamed (idText i)
      rw [show unnamed (idText i) = b from h, hb b rfl] at this
      cases this
    · have := isUnnamed_unnamed (idText j)
      rw [← show a = unnamed (idText j) from h, ha a rfl] at this
      cases this
    · exact ⟨congrArg some h, fun hc => nomatch hc⟩
  · rintro ⟨rfl, h⟩
    rcases a with _ | a
    · rw [h rfl]
    · rfl

/-- A declaration is that of a complete type, with this name if it has one. -/
inductive Completes (name : Option String) : Declaration → Prop
  | layout (k : LayoutKind) (size : Nat) (fields : List Field) :
      Completes name (.layout k name size fields)
  | enumeration (size : Nat) (choices : List Choice) :
      Completes name (.enumeration name size choices)

theorem Completes.completeTag? {name : Option String} {d : Declaration} (h : Completes name d) :
    d.completeTag? = name ∧ d.tag? = name := by
  cases h <;> exact ⟨rfl, rfl⟩

section Names

variable {g : TypeGraph}

theorem TypeGraph.isUnnamed_tag {n : Node} (hn : n ∈ g.nodes) {s : String}
    (hs : n.declaration.tag? = some s) : isUnnamed s = false :=
  (g.isName_of_tag hn hs).2.2.2

/-- Complete types with one tag are one. -/
theorem TypeGraph.eq_of_tag_eq {m n : Node} (hm : m ∈ g.nodes) (hn : n ∈ g.nodes) {s : String}
    (hm' : m.declaration.completeTag? = some s) (hn' : n.declaration.completeTag? = some s) :
    m = n := by
  let Same (m n : Node) : Prop :=
    ∀ s, m.declaration.completeTag? = some s → n.declaration.completeTag? = some s → m = n
  have hsymm : Std.Symm Same := ⟨fun m n h s hn hm => (h s hm hn).symm⟩
  have hpair : g.nodes.Pairwise Same := (List.pairwise_filterMap.mp g.tags).imp
    fun h s hm hn => absurd rfl (h s hm s hn)
  exact hpair.forall_of_forall (fun _ _ _ _ _ => rfl) hm hn s hm' hn'

/-- **Names tell complete types apart**, those that the reader makes among them. -/
theorem TypeGraph.eq_of_nameOf_eq {m n : Node} (hm : m ∈ g.nodes) (hn : n ∈ g.nodes)
    {a b : Option String} (hm' : Completes a m.declaration) (hn' : Completes b n.declaration)
    (h : nameOf m.id a = nameOf n.id b) : m = n := by
  obtain ⟨rfl, hnone⟩ := (nameOf_eq_iff
    (fun s hs => g.isUnnamed_tag hm (hm'.completeTag?.2.trans hs))
    (fun s hs => g.isUnnamed_tag hn (hn'.completeTag?.2.trans hs))).mp h
  cases a with
  | none => exact g.eq_of_id_eq hm hn (hnone rfl)
  | some s => exact g.eq_of_tag_eq hm hn hm'.completeTag?.1 hn'.completeTag?.1

/-- **What nodes complete has different names**, since tags are different and unnamed ones come from
ids. -/
theorem nodup_of_completes {α : Type} {f : Node → Option (String × α)}
    (hf : ∀ n e, f n = some e → ∃ name, Completes name n.declaration ∧ e.1 = nameOf n.id name) :
    ((g.nodes.filterMap f).map Prod.fst).Nodup := by
  have hids : g.nodes.Pairwise fun m n => m.id ≠ n.id := List.pairwise_map.mp g.distinct
  rw [List.Nodup, List.pairwise_map, List.pairwise_filterMap]
  refine hids.imp_of_mem fun {m n} hm hn hid a ha b hb heq => ?_
  obtain ⟨name, hcomplete, hname⟩ := hf m a ha
  obtain ⟨name', hcomplete', hname'⟩ := hf n b hb
  rw [hname, hname'] at heq
  exact hid (congrArg Node.id (g.eq_of_nameOf_eq hm hn hcomplete hcomplete' heq))

end Names

/-! ## The tables of a graph -/

/-- What a node's id stands for. -/
def Node.idEntry (n : Node) : String × TypeExpr := (idText n.id, n.expr)

/-- The layout that a node declares. -/
def Node.layout? (n : Node) : Option (String × Layout) :=
  match n.declaration with
  | .layout k name size fields => some (nameOf n.id name, rawLayout k size fields)
  | _ => none

/-- The enumeration that a node declares. -/
def Node.enumeration? (n : Node) : Option (String × Enumeration) :=
  match n.declaration with
  | .enumeration name size choices => some (nameOf n.id name, ⟨size, valuesByName choices⟩)
  | _ => none

namespace TypeGraph

/-- The ids of a graph. -/
def ids (g : TypeGraph) : IdTable := .ofList (g.nodes.map Node.idEntry)

/-- The layouts of a graph, before they are published. -/
def unit (g : TypeGraph) : Table String UnitEntry :=
  .ofList ((g.nodes.filterMap Node.layout?).map fun e => (e.1, .own e.2))

/-- The enumerations of a graph. -/
def enums (g : TypeGraph) : Table String Enumeration := .ofList (g.nodes.filterMap Node.enumeration?)

end TypeGraph

/-- Adding nodes to a reader adds to its tables. -/
theorem foldl_add (nodes : List Node) : ∀ r : Reader, nodes.foldl (fun r n => n.add r) r =
    { r with
      ids := (nodes.map Node.idEntry).foldl (fun t e => t.insert e.1 e.2) r.ids
      unit := ((nodes.filterMap Node.layout?).map fun e => (e.1, UnitEntry.own e.2)).foldl
        (fun t e => t.insert e.1 e.2) r.unit
      enums := (nodes.filterMap Node.enumeration?).foldl (fun t e => t.insert e.1 e.2) r.enums } := by
  induction nodes with
  | nil => intro r; rfl
  | cons n nodes ih =>
    intro r
    obtain ⟨id, d⟩ := n
    rw [List.foldl_cons, ih]
    cases d <;> rfl

section Tables

variable {g : TypeGraph}

theorem entries_ids : g.ids.entries = g.nodes.map Node.idEntry := by
  refine Table.entries_ofList ?_
  rw [List.map_map]
  have hids := List.Nodup.map (fun _ _ => idText_injective) g.distinct
  rw [List.map_map] at hids
  exact hids

/-- An id stands for the expression of its node. -/
theorem find?_ids {n : Node} (hn : n ∈ g.nodes) : g.ids.find? (idText n.id) = some n.expr :=
  Table.find?_eq_some_iff.mpr (entries_ids ▸ List.mem_map_of_mem (f := Node.idEntry) hn)

theorem layout?_completes {n : Node} {e : String × Layout} (h : n.layout? = some e) :
    ∃ name, Completes name n.declaration ∧ e.1 = nameOf n.id name := by
  obtain ⟨id, d⟩ := n
  cases d with
  | layout k name size fields =>
    cases h
    exact ⟨name, .layout k size fields, rfl⟩
  | _ => cases h

theorem enumeration?_completes {n : Node} {e : String × Enumeration} (h : n.enumeration? = some e) :
    ∃ name, Completes name n.declaration ∧ e.1 = nameOf n.id name := by
  obtain ⟨id, d⟩ := n
  cases d with
  | enumeration name size choices =>
    cases h
    exact ⟨name, .enumeration size choices, rfl⟩
  | _ => cases h

theorem entries_unit :
    g.unit.entries = (g.nodes.filterMap Node.layout?).map fun e => (e.1, .own e.2) := by
  refine Table.entries_ofList ?_
  rw [List.map_map]
  exact nodup_of_completes fun _ _ h => layout?_completes h

theorem entries_enums : g.enums.entries = g.nodes.filterMap Node.enumeration? :=
  Table.entries_ofList (nodup_of_completes fun _ _ h => enumeration?_completes h)

end Tables

/-! ## Unfolding -/

/-- What stands at the end of the spine of a node, before and after enumerations are merged. -/
inductive Ends (g : TypeGraph) (id : Nat) : TypeExpr → TypeExpr → Prop
  /-- a scalar -/
  | scalar {s : String} : s ∈ plainNames → Ends g id (.named s) (.named s)
  /-- nothing in particular, without a list around it -/
  | bare : Ends g id (.text "void") (.text "void")
  /-- an announced structure or union -/
  | announced {n : Node} {k : LayoutKind} {name : Option String} : n ∈ g.nodes → Leads g id n.id →
      n.declaration = .announced k name → Ends g id (.named (nameOf n.id name)) (.named (nameOf n.id name))
  /-- a complete structure or union -/
  | layout {n : Node} {k : LayoutKind} {name : Option String} {size : Nat} {fields : List Field} :
      n ∈ g.nodes → Leads g id n.id → n.declaration = .layout k name size fields →
      Ends g id (.named (nameOf n.id name)) (.named (nameOf n.id name))
  /-- an enumeration -/
  | enumeration {n : Node} {name : Option String} {size : Nat} {choices : List Choice}
      {target : String} : n ∈ g.nodes → Leads g id n.id →
      n.declaration = .enumeration name size choices → integerNames.lookup size = some target →
      Ends g id (.named (nameOf n.id name)) (enumerationExpr target choices)

section Unfolding

variable {g : TypeGraph}

/-- What a node follows ends where the node does. -/
theorem Ends.step {n : Node} {r : Ref} {b c : TypeExpr} (hn : n ∈ g.nodes)
    (hr : r ∈ n.declaration.followed) (h : Ends g r.id b c) : Ends g n.id b c := by
  cases h with
  | scalar hs => exact .scalar hs
  | bare => exact .bare
  | announced hm hleads hd => exact .announced hm (.step hn hr hleads) hd
  | layout hm hleads hd => exact .layout hm (.step hn hr hleads) hd
  | enumeration hm hleads hd ht => exact .enumeration hm (.step hn hr hleads) hd ht

theorem unfolds_text {ids : IdTable} {s : String} (h : '<' ∉ s.toList) :
    ids.Unfolds (.text s) (.text s) := by
  refine .text fun cs hcs => h ?_
  rw [hcs]
  exact List.mem_cons_self ..

theorem unfolds_named {ids : IdTable} {s : String} (h : '<' ∉ s.toList) :
    ids.Unfolds (.named s) (.named s) :=
  .list (.cons (unfolds_text h) .nil)

/-- No tag looks like a reference. -/
theorem TypeGraph.bracket_not_mem {n : Node} (hn : n ∈ g.nodes) {name : Option String}
    (hname : n.declaration.tag? = name) : '<' ∉ (nameOf n.id name).toList := by
  rcases name with _ | s
  · rw [nameOf, Option.getD_none, unnamed, String.toList_append, List.mem_append]
    rintro (hc | hc)
    · revert hc
      decide
    · exact (mem_idText hc).2.2 rfl
  · exact (g.isName_of_tag hn hname).2.2.1

/-- A reference unfolds as the node that it names. -/
theorem unfolds_ref {n : Node} {r : Ref} {u : TypeExpr} (hn : n ∈ g.nodes) (hid : n.id = r.id)
    (h : g.ids.Unfolds n.expr u) : g.ids.Unfolds (.text r.text) u := by
  obtain ⟨cs, hcs, href⟩ := referredId_text (hid ▸ g.nonzero n hn)
  exact .reference hcs (by rw [href, ← hid]; exact find?_ids hn) h

/-- **Unfolding.** The references of a node lead to a spine, and what stands at its end gives the
meaning of the node once enumerations are merged. -/
theorem Denotes.unfolds {id : Nat} {t : TypeExpr} (h : Denotes g id t) :
    ∃ n ∈ g.nodes, n.id = id ∧ ∃ s b c, t = Spine.plug s c ∧ Ends g id b c ∧
      g.ids.Unfolds n.expr (s.plug b) := by
  have hplain : ∀ s ∈ plainNames, '<' ∉ s.toList := by decide
  have hvoid : "void" ∈ plainNames := List.mem_cons_self ..
  induction h with
  | @base id name scalar hmem hs =>
    have hscalar : scalar ∈ plainNames := by
      have hvalues : ∀ e ∈ scalarNames, e.2 ∈ plainNames := by decide
      exact hvalues _ ((Table.lookup_eq_some_iff (by decide)).mp hs)
    refine ⟨_, hmem, rfl, .tip, _, _, rfl, .scalar hscalar, ?_⟩
    have hexpr : Node.expr ⟨id, .base name⟩ = .named scalar := by simp only [Node.expr, hs, Option.getD_some]
    rw [hexpr]
    exact unfolds_named (hplain _ hscalar)
  | announced hmem =>
    have hends := Ends.announced hmem (.refl _) rfl
    exact ⟨_, hmem, rfl, .tip, _, _, rfl, hends, unfolds_named (g.bracket_not_mem hmem rfl)⟩
  | layout hmem =>
    have hends := Ends.layout hmem (.refl _) rfl
    exact ⟨_, hmem, rfl, .tip, _, _, rfl, hends, unfolds_named (g.bracket_not_mem hmem rfl)⟩
  | enumeration hmem ht =>
    have hends := Ends.enumeration hmem (.refl _) rfl ht
    exact ⟨_, hmem, rfl, .tip, _, _, rfl, hends, unfolds_named (g.bracket_not_mem hmem rfl)⟩
  | pointerToVoid hmem =>
    refine ⟨_, hmem, rfl, .pointer .tip, _, _, rfl, .scalar hvoid, ?_⟩
    exact .list (.cons (unfolds_text (by decide)) (.cons (unfolds_named (by decide)) .nil))
  | pointer hmem _ ih =>
    obtain ⟨n, hn, hid, s, b, c, rfl, hends, hunfolds⟩ := ih
    refine ⟨_, hmem, rfl, .pointer s, b, c, rfl, .step hmem (List.mem_singleton.mpr rfl) hends, ?_⟩
    exact .list (.cons (unfolds_text (by decide)) (.cons (unfolds_ref hn hid hunfolds) .nil))
  | qualifiedVoid hmem =>
    exact ⟨_, hmem, rfl, .tip, _, _, rfl, .scalar hvoid, unfolds_named (by decide)⟩
  | qualified hmem _ ih =>
    obtain ⟨n, hn, hid, s, b, c, rfl, hends, hunfolds⟩ := ih
    exact ⟨_, hmem, rfl, s, b, c, rfl, .step hmem (List.mem_singleton.mpr rfl) hends,
      unfolds_ref hn hid hunfolds⟩
  | synonymOfVoid hmem =>
    exact ⟨_, hmem, rfl, .tip, _, _, rfl, .bare, unfolds_text (by decide)⟩
  | synonym hmem _ ih =>
    obtain ⟨n, hn, hid, s, b, c, rfl, hends, hunfolds⟩ := ih
    exact ⟨_, hmem, rfl, s, b, c, rfl, .step hmem (List.mem_singleton.mpr rfl) hends,
      unfolds_ref hn hid hunfolds⟩
  | array hmem _ ih =>
    obtain ⟨n, hn, hid, s, b, c, rfl, hends, hunfolds⟩ := ih
    refine ⟨_, hmem, rfl, .array _ s, b, c, rfl, .step hmem (List.mem_singleton.mpr rfl) hends, ?_⟩
    exact .list (.cons (unfolds_text (by decide)) (.cons (.int _)
      (.cons (unfolds_ref hn hid hunfolds) .nil)))

end Unfolding

/-! ## Merging -/

section Merging

variable {g : TypeGraph} {id : Nat} {b c : TypeExpr}

theorem find?_enums_of_mem {n : Node} (hn : n ∈ g.nodes) {name : Option String} {size : Nat}
    {choices : List Choice} (hd : n.declaration = .enumeration name size choices) :
    g.enums.find? (nameOf n.id name) = some ⟨size, valuesByName choices⟩ := by
  rw [Table.find?_eq_some_iff, entries_enums, List.mem_filterMap]
  exact ⟨n, hn, by rw [Node.enumeration?, hd]⟩

/-- A name that no enumeration has is not found. -/
theorem find?_enums_eq_none {s : String}
    (h : ∀ n ∈ g.nodes, ∀ name size choices, n.declaration = .enumeration name size choices →
      nameOf n.id name ≠ s) : g.enums.find? s = none := by
  rw [Table.find?_eq_none_iff, Table.keys, entries_enums]
  intro hs
  obtain ⟨e, he, rfl⟩ := List.mem_map.mp hs
  obtain ⟨⟨i, d⟩, hn, he⟩ := List.mem_filterMap.mp he
  cases d with
  | enumeration name size choices =>
    cases he
    exact h _ hn name size choices rfl rfl
  | _ => cases he

/-- No enumeration is named like a scalar. -/
theorem find?_enums_of_plain {s : String} (hs : s ∈ plainNames) : g.enums.find? s = none := by
  have hunnamed : ∀ s ∈ plainNames, isUnnamed s = false := by decide
  refine find?_enums_eq_none fun n hn name size choices hd hname => ?_
  rcases name with _ | s'
  · rw [← hname, nameOf, Option.getD_none] at hs
    have := hunnamed _ hs
    rw [isUnnamed_unnamed] at this
    cases this
  · obtain rfl : s' = s := hname
    have hformed := g.wellFormed n hn
    rw [hd] at hformed
    exact (hformed.1 s' rfl).2 hs

/-- No enumeration is named like a structure or union, announced or complete. -/
theorem find?_enums_of_tag {n : Node} (hn : n ∈ g.nodes) {k : LayoutKind} {name : Option String}
    (hd : n.declaration = .announced k name ∨
      ∃ size fields, n.declaration = .layout k name size fields) :
    g.enums.find? (nameOf n.id name) = none := by
  have htag : n.declaration.tag? = name := by
    rcases hd with hd | ⟨size, fields, hd⟩ <;> rw [hd] <;> rfl
  have hnot : ∀ name size choices, n.declaration ≠ .enumeration name size choices := by
    rcases hd with hd | ⟨size, fields, hd⟩ <;> rw [hd] <;> nofun
  refine find?_enums_eq_none fun m hm name' size choices hm' hname => ?_
  obtain ⟨rfl, hnone⟩ := (nameOf_eq_iff
    (fun s hs => g.isUnnamed_tag hm (by rw [hm']; exact hs))
    (fun s hs => g.isUnnamed_tag hn (htag.trans hs))).mp hname
  rcases name' with _ | s
  · obtain rfl := g.eq_of_id_eq hm hn (hnone rfl)
    exact hnot _ _ _ hm'
  · rcases hd with hd | ⟨size', fields, hd⟩
    · exact g.kinds m hm n hn s (by rw [hm']; rfl) (by rw [hd]; rfl)
    · exact hnot _ _ _ (g.eq_of_tag_eq hm hn (by rw [hm']; rfl) (by rw [hd]; rfl) ▸ hm')

theorem expr_of_lookup {size : Nat} {target : String} (h : integerNames.lookup size = some target)
    (choices : List Choice) :
    Enumeration.expr ⟨size, valuesByName choices⟩ = .ok (enumerationExpr target choices) := by
  have hmem := (Table.lookup_eq_some_iff (by decide)).mp h
  have hinteger : integerOfSize (size : Int) = .ok target := by
    simp only [integerNames, List.mem_cons, Prod.mk.injEq, List.not_mem_nil, or_false] at hmem
    rcases hmem with ⟨rfl, rfl⟩ | ⟨rfl, rfl⟩ | ⟨rfl, rfl⟩ | ⟨rfl, rfl⟩ <;> rfl
  rw [Enumeration.expr, hinteger]
  rfl

/-- No tag is empty. -/
theorem nameOf_ne_empty {n : Node} (hn : n ∈ g.nodes) {name : Option String}
    (hname : n.declaration.tag? = name) : nameOf n.id name ≠ "" := by
  rcases name with _ | s
  · intro h
    have := isUnnamed_unnamed (idText n.id)
    rw [show unnamed (idText n.id) = "" from h] at this
    exact absurd this (by decide)
  · exact (g.isName_of_tag hn hname).1

/-- What stands at an end has a name, or is nothing in particular. -/
theorem Ends.cases_name (h : Ends g id b c) :
    (∃ s, s ≠ "" ∧ b = .named s) ∨ (b = .text "void" ∧ c = .text "void") := by
  have hplain : ∀ s ∈ plainNames, s ≠ "" := by decide
  cases h with
  | scalar hs => exact Or.inl ⟨_, hplain _ hs, rfl⟩
  | bare => exact Or.inr ⟨rfl, rfl⟩
  | announced hn _ hd => exact Or.inl ⟨_, nameOf_ne_empty hn (by rw [hd]; rfl), rfl⟩
  | layout hn _ hd => exact Or.inl ⟨_, nameOf_ne_empty hn (by rw [hd]; rfl), rfl⟩
  | enumeration hn _ hd _ => exact Or.inl ⟨_, nameOf_ne_empty hn (by rw [hd]; rfl), rfl⟩

/-- **Merging** writes an enumeration in the place of its name, and changes no other member. -/
theorem mergeMember_of_ends (h : Ends g id b c) (offset : Int) (s : Spine) :
    mergeMember g.enums ⟨offset, s.plug b⟩ = (⟨offset, s.plug c⟩, none) := by
  have hsame : ∀ {name : String}, name ≠ "" → g.enums.find? name = none →
      mergeMember g.enums ⟨offset, s.plug (.named name)⟩ = (⟨offset, s.plug (.named name)⟩, none) := by
    intro name hne hnone
    simp only [mergeMember, Spine.memberName_plug_named offset s hne, hnone]
  cases h with
  | scalar hs =>
    have hplain : ∀ s ∈ plainNames, s ≠ "" := by decide
    exact hsame (hplain _ hs) (find?_enums_of_plain hs)
  | bare => simp only [mergeMember, Spine.memberName_plug_text]
  | announced hn _ hd =>
    exact hsame (nameOf_ne_empty hn (by rw [hd]; rfl)) (find?_enums_of_tag hn (Or.inl hd))
  | layout hn _ hd =>
    exact hsame (nameOf_ne_empty hn (by rw [hd]; rfl)) (find?_enums_of_tag hn (Or.inr ⟨_, _, hd⟩))
  | @enumeration n name size choices target hn _ hd ht =>
    have hne : nameOf n.id name ≠ "" := nameOf_ne_empty hn (by rw [hd]; rfl)
    simp only [mergeMember, Spine.memberName_plug_named offset s hne, find?_enums_of_mem hn hd,
      expr_of_lookup ht, Spine.replace_plug_named]

end Merging

end CpuTrace.Dump
