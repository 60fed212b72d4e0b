import CpuTrace.Proofs.Lines
import CpuTrace.Proofs.Numerals
import Mathlib

/-!
# Type graphs and their dumps

A compile unit that declares types only is a graph: its nodes are the statements at level one, and
its edges are the references between them. Members lead from structures to types, and may lead back;
pointers, qualifiers, synonyms and arrays lead on to what they are about, and must come to an end.
`TypeGraph` has the conditions that a graph has to meet.

Three things are said about a graph, none of them by way of the reader:

* **meaning** — the type expression that a node stands for (`Denotes`). It exists for every node
  (`TypeGraph.exists_denotes`), since following references comes to an end;
* **use** — which structures and unions stay in the table of types (`Kept`): those that the dump
  names, and the unnamed ones in use by a member of one that stays;
* **dump** — the lines in which a graph is written (`TypeGraph.IsDump`). The order of the nodes is
  any, each line may have attributes that nothing asks for, numbers and names have more than one
  written form.
-/

namespace CpuTrace.Dump

/-! ## Nodes -/

/-- The text of an id. -/
def idText (id : Nat) : String := String.ofList ('0' :: 'x' :: Nat.toDigits 16 id)

/-- A reference as it is written: the id of a statement, and zeros in front of its digits. -/
structure Ref where
  /-- the statement that is referred to -/
  id : Nat
  /-- the number of zeros -/
  zeros : Nat

/-- The text of a reference. -/
def Ref.text (r : Ref) : String :=
  String.ofList ('<' :: '0' :: 'x' :: (List.replicate r.zeros '0' ++ Nat.toDigits 16 r.id))

/-- The name of what may have none. -/
def nameOf (id : Nat) (name : Option String) : String := name.getD (unnamed (idText id))

/-- Whether members follow each other or share one place. -/
inductive LayoutKind where
  /-- members at offsets -/
  | struct
  /-- members at one place -/
  | union

/-- The statement that declares a layout. -/
def LayoutKind.kind : LayoutKind → String
  | struct => "DW_TAG_structure_type"
  | union => "DW_TAG_union_type"

/-- A member of a structure or union. -/
structure Field where
  /-- the id of its statement -/
  id : Nat
  /-- its name, if it has one -/
  name : Option String
  /-- its offset, if it is one of a structure -/
  offset : Nat
  /-- its type -/
  type : Ref

/-- The key of a member in its layout. -/
def Field.key (f : Field) : String := nameOf f.id f.name

/-- Where a member of a layout starts. -/
def LayoutKind.offset : LayoutKind → Field → Int
  | struct, f => f.offset
  | union, _ => 0

/-- A value of an enumeration. -/
structure Choice where
  /-- the id of its statement -/
  id : Nat
  /-- its name -/
  name : String
  /-- its value -/
  value : Int

/-- What a node declares. -/
inductive Declaration where
  /-- a type of the described language -/
  | base (name : String)
  /-- a structure or union without its members -/
  | announced (k : LayoutKind) (name : Option String)
  /-- a structure or union -/
  | layout (k : LayoutKind) (name : Option String) (size : Nat) (fields : List Field)
  /-- an enumeration -/
  | enumeration (name : Option String) (size : Nat) (choices : List Choice)
  /-- a pointer, to nothing in particular if no target is given -/
  | pointer (target : Option Ref)
  /-- a type under a qualifier -/
  | qualified (target : Option Ref)
  /-- a type under another name -/
  | synonym (target : Option Ref)
  /-- an array with the index of its last element -/
  | array (element : Ref) (bound : Nat)

namespace Declaration

/-- The references that have to be followed to know what a node stands for. A structure stands for
its name, so those of its members are none of them. -/
def followed : Declaration → List Ref
  | pointer target | qualified target | synonym target => target.toList
  | array element _ => [element]
  | _ => []

/-- All references of a node. -/
def references : Declaration → List Ref
  | layout _ _ _ fields => fields.map Field.type
  | d => d.followed

/-- The name that a dump gives to a structure, union or enumeration, announced or not. -/
def tag? : Declaration → Option String
  | announced _ name | layout _ name _ _ | enumeration name _ _ => name
  | _ => none

/-- The same, but only of those that are complete. -/
def completeTag? : Declaration → Option String
  | layout _ name _ _ | enumeration name _ _ => name
  | _ => none

/-- The same, but only of those that are announced. -/
def announcedTag? : Declaration → Option String
  | announced _ name => name
  | _ => none

/-- The same, but only of enumerations. -/
def enumTag? : Declaration → Option String
  | enumeration name _ _ => name
  | _ => none

end Declaration

/-- A statement at level one, with what stands under it. -/
structure Node where
  /-- its id -/
  id : Nat
  /-- what it declares -/
  declaration : Declaration

/-! ## Graphs -/

/-- A name that a dump may give: not empty, without quotes, not like a reference or a name that the
reader makes. -/
def IsName (s : String) : Prop :=
  s ≠ "" ∧ '"' ∉ s.toList ∧ '<' ∉ s.toList ∧ isUnnamed s = false

instance (s : String) : Decidable (IsName s) := inferInstanceAs (Decidable (_ ∧ _))

/-- The names of scalars, and of nothing in particular. -/
def plainNames : List String := "void" :: scalarNames.map Prod.snd

/-- The integer types that hold enumerations, by size. -/
def integerNames : List (Nat × String) :=
  [(1, "char"), (2, "short"), (4, "int"), (8, "long long")]

/-- What a declaration has to meet for itself: names are names, and those of members are different
from each other; base types are known; enumerations have the size of an integer, and are not named
like a scalar. -/
def Declaration.IsWellFormed : Declaration → Prop
  | base name => name ∈ scalarNames.map Prod.fst
  | announced _ name => ∀ s ∈ name, IsName s
  | layout _ name _ fields => (∀ s ∈ name, IsName s) ∧ (fields.map Field.key).Nodup ∧
    ∀ f ∈ fields, ∀ s ∈ f.name, '"' ∉ s.toList
  | enumeration name size choices => (∀ s ∈ name, IsName s ∧ s ∉ plainNames) ∧
    size ∈ integerNames.map Prod.fst ∧ ∀ c ∈ choices, '"' ∉ c.name.toList
  | pointer _ | qualified _ | synonym _ | array _ _ => True

instance : (d : Declaration) → Decidable d.IsWellFormed
  | .base _ => inferInstanceAs (Decidable (_ ∈ _))
  | .announced _ _ => inferInstanceAs (Decidable (∀ s ∈ _, IsName s))
  | .layout _ _ _ _ => inferInstanceAs (Decidable (_ ∧ _ ∧ _))
  | .enumeration _ _ _ => inferInstanceAs (Decidable (_ ∧ _ ∧ _))
  | .pointer _ | .qualified _ | .synonym _ | .array _ _ => inferInstanceAs (Decidable True)

/-- The types that a compile unit declares. -/
structure TypeGraph where
  /-- the statements, in any order -/
  nodes : List Node
  /-- no two statements have the same id -/
  distinct : (nodes.map Node.id).Nodup
  /-- no id is zero -/
  nonzero : ∀ n ∈ nodes, n.id ≠ 0
  /-- references lead to statements -/
  closed : ∀ n ∈ nodes, ∀ r ∈ n.declaration.references, r.id ∈ nodes.map Node.id
  /-- following references comes to an end: each leads to a lower rank -/
  ranked : ∃ rank : Nat → Nat, ∀ n ∈ nodes, ∀ r ∈ n.declaration.followed, rank r.id < rank n.id
  /-- each declaration meets its own conditions -/
  wellFormed : ∀ n ∈ nodes, n.declaration.IsWellFormed
  /-- no two complete types have the same tag -/
  tags : (nodes.filterMap fun n => n.declaration.completeTag?).Nodup
  /-- no enumeration has the tag of an announced structure or union -/
  kinds : ∀ m ∈ nodes, ∀ n ∈ nodes, ∀ s ∈ m.declaration.enumTag?, s ∉ n.declaration.announcedTag?

namespace TypeGraph

variable {g : TypeGraph}

/-- Ids tell nodes apart. -/
theorem eq_of_id_eq {m n : Node} (hm : m ∈ g.nodes) (hn : n ∈ g.nodes) (h : m.id = n.id) :
    m = n :=
  List.inj_on_of_nodup_map g.distinct hm hn h

theorem isName_of_tag {n : Node} (hn : n ∈ g.nodes) {s : String}
    (hs : n.declaration.tag? = some s) : IsName s := by
  have h := g.wellFormed n hn
  obtain ⟨id, d⟩ := n
  cases d with
  | announced k name => exact h s hs
  | layout k name size fields => exact h.1 s hs
  | enumeration name size choices => exact (h.1 s hs).1
  | _ => cases hs

end TypeGraph

/-! ## Meaning -/

/-- The values of an enumeration by name: of two with one name, the later. -/
def valuesByName (choices : List Choice) : Table String Int :=
  .ofList (choices.map fun c => (c.name, c.value))

/-- An enumeration as a type: the integer that holds it, and its names by value. -/
def enumerationExpr (target : String) (choices : List Choice) : TypeExpr :=
  let byValue : Table Int String := .ofList ((valuesByName choices).entries.map fun v => (v.2, v.1))
  .list [.text "Enumeration", .record
    [(.text "target", .text target),
      (.text "choices", .record (byValue.entries.map fun c => (.int c.1, .text c.2)))]]

/-- **Meaning.** The type expression that a node stands for. Structures and unions stand for their
names and enumerations for their values; qualifiers and synonyms leave no trace. -/
inductive Denotes (g : TypeGraph) : Nat → TypeExpr → Prop
  | base {id : Nat} {name scalar : String} : ⟨id, .base name⟩ ∈ g.nodes →
      scalarNames.lookup name = some scalar → Denotes g id (.named scalar)
  | announced {id : Nat} {k : LayoutKind} {name : Option String} :
      ⟨id, .announced k name⟩ ∈ g.nodes → Denotes g id (.named (nameOf id name))
  | layout {id : Nat} {k : LayoutKind} {name : Option String} {size : Nat} {fields : List Field} :
      ⟨id, .layout k name size fields⟩ ∈ g.nodes → Denotes g id (.named (nameOf id name))
  | enumeration {id : Nat} {name : Option String} {size : Nat} {choices : List Choice}
      {target : String} : ⟨id, .enumeration name size choices⟩ ∈ g.nodes →
      integerNames.lookup size = some target → Denotes g id (enumerationExpr target choices)
  | pointerToVoid {id : Nat} : ⟨id, .pointer none⟩ ∈ g.nodes →
      Denotes g id (.pointer (.named "void"))
  | pointer {id : Nat} {r : Ref} {t : TypeExpr} : ⟨id, .pointer (some r)⟩ ∈ g.nodes →
      Denotes g r.id t → Denotes g id (.pointer t)
  | qualifiedVoid {id : Nat} : ⟨id, .qualified none⟩ ∈ g.nodes → Denotes g id (.named "void")
  | qualified {id : Nat} {r : Ref} {t : TypeExpr} : ⟨id, .qualified (some r)⟩ ∈ g.nodes →
      Denotes g r.id t → Denotes g id t
  | synonymOfVoid {id : Nat} : ⟨id, .synonym none⟩ ∈ g.nodes → Denotes g id (.text "void")
  | synonym {id : Nat} {r : Ref} {t : TypeExpr} : ⟨id, .synonym (some r)⟩ ∈ g.nodes →
      Denotes g r.id t → Denotes g id t
  | array {id : Nat} {r : Ref} {bound : Nat} {t : TypeExpr} : ⟨id, .array r bound⟩ ∈ g.nodes →
      Denotes g r.id t → Denotes g id (.array (bound + 1) t)

theorem exists_lookup_of_mem {κ α : Type} [DecidableEq κ] {es : List (κ × α)} {k : κ}
    (h : k ∈ es.map Prod.fst) : ∃ a, es.lookup k = some a := by
  induction es with
  | nil => cases h
  | cons e es ih =>
    rw [Table.lookup_cons_eq_ite]
    by_cases he : k = e.1
    · exact ⟨e.2, if_pos he⟩
    · rw [if_neg he]
      exact ih ((List.mem_cons.mp h).resolve_left he)

/-- **Every node has a meaning**, since the references that lead to it come to an end. -/
theorem TypeGraph.exists_denotes (g : TypeGraph) {id : Nat} (h : id ∈ g.nodes.map Node.id) :
    ∃ t, Denotes g id t := by
  obtain ⟨rank, hrank⟩ := g.ranked
  -- by induction on the rank of the node
  generalize hn : rank id = n
  induction n using Nat.strongRecOn generalizing id with
  | ind n ih =>
    obtain ⟨⟨id, d⟩, hmem, rfl⟩ := List.mem_map.mp h
    have hfollow : ∀ r ∈ d.followed, ∃ t, Denotes g r.id t := by
      intro r hr
      have href : r ∈ d.references := by
        cases d <;> first | exact hr | cases hr
      exact ih (rank r.id) (hn ▸ hrank _ hmem r hr) (g.closed _ hmem r href) rfl
    cases d with
    | base name =>
      obtain ⟨scalar, hs⟩ := exists_lookup_of_mem (g.wellFormed _ hmem : name ∈ _)
      exact ⟨_, .base hmem hs⟩
    | announced k name => exact ⟨_, .announced hmem⟩
    | layout k name size fields => exact ⟨_, .layout hmem⟩
    | enumeration name size choices =>
      obtain ⟨target, ht⟩ := exists_lookup_of_mem (g.wellFormed _ hmem).2.1
      exact ⟨_, .enumeration hmem ht⟩
    | pointer target =>
      cases target with
      | none => exact ⟨_, .pointerToVoid hmem⟩
      | some r =>
        obtain ⟨t, ht⟩ := hfollow r (List.mem_singleton.mpr rfl)
        exact ⟨_, .pointer hmem ht⟩
    | qualified target =>
      cases target with
      | none => exact ⟨_, .qualifiedVoid hmem⟩
      | some r =>
        obtain ⟨t, ht⟩ := hfollow r (List.mem_singleton.mpr rfl)
        exact ⟨_, .qualified hmem ht⟩
    | synonym target =>
      cases target with
      | none => exact ⟨_, .synonymOfVoid hmem⟩
      | some r =>
        obtain ⟨t, ht⟩ := hfollow r (List.mem_singleton.mpr rfl)
        exact ⟨_, .synonym hmem ht⟩
    | array r bound =>
      obtain ⟨t, ht⟩ := hfollow r (List.mem_singleton.mpr rfl)
      exact ⟨_, .array hmem ht⟩

/-! ## Use -/

/-- Following references leads from one node to another. -/
inductive Leads (g : TypeGraph) : Nat → Nat → Prop
  | refl (id : Nat) : Leads g id id
  | step {n : Node} {r : Ref} {id : Nat} : n ∈ g.nodes → r ∈ n.declaration.followed →
      Leads g r.id id → Leads g n.id id

/-- A member of a structure or union is about a node. -/
def Uses (g : TypeGraph) (owner id : Nat) : Prop :=
  ∃ k name size fields, ∃ f ∈ fields, ⟨owner, .layout k name size fields⟩ ∈ g.nodes ∧
    Leads g f.type.id id

/-- **Use.** A structure or union stays if it belongs to a set of them in which each has a tag or
is in use by a member of another one. So two unnamed structures that use each other stay. -/
def Kept (g : TypeGraph) (id : Nat) : Prop :=
  ∃ X : Nat → Prop, X id ∧ ∀ i, X i → ∃ k name size fields,
    ⟨i, .layout k name size fields⟩ ∈ g.nodes ∧ (name ≠ none ∨ ∃ j, X j ∧ Uses g j i)

/-- An entry of the table of types describes a structure or union of the graph: its name and size,
and its members in order, each with its offset and the meaning of its type. -/
def Describes (g : TypeGraph) (n : Node) (e : String × Layout) : Prop :=
  ∃ k name size fields, n.declaration = .layout k name size fields ∧ e.1 = nameOf n.id name ∧
    e.2.size = size ∧
    List.Forall₂ (fun (f : Field) (m : String × Member) =>
      m.1 = f.key ∧ m.2.offset = k.offset f ∧ Denotes g f.type.id m.2.type)
      fields e.2.members.entries

/-! ## Dumps -/

/-- A line shows a statement of a level, an id and a kind, with attributes that satisfy a condition. -/
def Shows (level id : Nat) (kind : String) (P : Attributes → Prop) (line : String) : Prop :=
  ∃ as : List Attribute, (∀ a ∈ as, a.IsWritten) ∧
    line.toList = lineChars (Nat.toDigits 10 level) (idText id).toList kind.toList as ∧
    P ((Table.ofList (as.map Attribute.entry)).mapValues fun _ v => .text v)

/-- The attributes give a name, between quotes or not, or none. -/
def GivesName (name : Option String) (a : Attributes) : Prop :=
  match name with
  | none => a.find? "DW_AT_name" = none
  | some s => ∃ v, a.find? "DW_AT_name" = some (.text v) ∧ Text.Quotes s v

/-- The attributes refer to a type, or to none. -/
def GivesType (r : Option Ref) (a : Attributes) : Prop :=
  a.find? "DW_AT_type" = r.map fun r => .text r.text

/-- The attributes give a size. -/
def GivesSize (size : Nat) (a : Attributes) : Prop :=
  ∃ v, a.find? "DW_AT_byte_size" = some (.text v) ∧ Numeral.HexText size v

/-- The attributes of a member. In a structure they say where it is; it is no bit-field. -/
def GivesField (k : LayoutKind) (f : Field) (a : Attributes) : Prop :=
  GivesName f.name a ∧ GivesType (some f.type) a ∧
    match k with
    | .union => True
    | .struct =>
      (∃ v, a.find? "DW_AT_data_member_location" = some (.text v) ∧ LocationText f.offset v) ∧
        a.find? "DW_AT_bit_size" = none

/-- The attributes of a value of an enumeration. -/
def GivesChoice (c : Choice) (a : Attributes) : Prop :=
  GivesName (some c.name) a ∧ a.find? "DW_AT_const_value" = some (.text (toString c.value))

/-- The lines of a node. -/
inductive NodeLines : Node → List String → Prop
  | base {id : Nat} {name line : String} :
      Shows 1 id "DW_TAG_base_type" (GivesName (some name)) line →
      NodeLines ⟨id, .base name⟩ [line]
  | announced {id : Nat} {k : LayoutKind} {name : Option String} {line : String} :
      Shows 1 id k.kind (fun a => GivesName name a ∧ a.find? "DW_AT_declaration" ≠ none) line →
      NodeLines ⟨id, .announced k name⟩ [line]
  | layout {id : Nat} {k : LayoutKind} {name : Option String} {size : Nat} {fields : List Field}
      {line : String} {lines : List String} :
      Shows 1 id k.kind
        (fun a => GivesName name a ∧ a.find? "DW_AT_declaration" = none ∧ GivesSize size a) line →
      List.Forall₂ (fun f => Shows 2 f.id "DW_TAG_member" (GivesField k f)) fields lines →
      NodeLines ⟨id, .layout k name size fields⟩ (line :: lines)
  | enumeration {id : Nat} {name : Option String} {size : Nat} {choices : List Choice}
      {line : String} {lines : List String} :
      Shows 1 id "DW_TAG_enumeration_type"
        (fun a => GivesName name a ∧ a.find? "DW_AT_declaration" = none ∧ GivesSize size a) line →
      List.Forall₂ (fun c => Shows 2 c.id "DW_TAG_enumerator" (GivesChoice c)) choices lines →
      NodeLines ⟨id, .enumeration name size choices⟩ (line :: lines)
  | pointer {id : Nat} {target : Option Ref} {line : String} :
      Shows 1 id "DW_TAG_pointer_type" (GivesType target) line →
      NodeLines ⟨id, .pointer target⟩ [line]
  | qualified {id : Nat} {target : Option Ref} {kind line : String} :
      kind ∈ ["DW_TAG_const_type", "DW_TAG_volatile_type", "DW_TAG_restrict_type"] →
      Shows 1 id kind (GivesType target) line → NodeLines ⟨id, .qualified target⟩ [line]
  | synonym {id : Nat} {target : Option Ref} {line : String} :
      Shows 1 id "DW_TAG_typedef" (GivesType target) line →
      NodeLines ⟨id, .synonym target⟩ [line]
  | array {id boundId : Nat} {element : Ref} {bound : Nat} {line boundLine : String} :
      Shows 1 id "DW_TAG_array_type" (GivesType (some element)) line →
      Shows 2 boundId "DW_TAG_subrange_type"
        (fun a => a.find? "DW_AT_upper_bound" = some (.text (toString bound))) boundLine →
      NodeLines ⟨id, .array element bound⟩ [line, boundLine]

/-- **Dump.** The line of a compile unit, and after it those of the nodes in their order. -/
def TypeGraph.IsDump (g : TypeGraph) (lines : List String) : Prop :=
  ∃ (id : Nat) (unitLine : String) (rest : List (List String)),
    Shows 0 id "DW_TAG_compile_unit" (fun _ => True) unitLine ∧
      List.Forall₂ NodeLines g.nodes rest ∧ lines = unitLine :: rest.flatten

end CpuTrace.Dump
