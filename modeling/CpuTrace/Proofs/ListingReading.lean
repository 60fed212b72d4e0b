import CpuTrace.Dump.Listing
import CpuTrace.Layout.SlotTable
import CpuTrace.Proofs.LeafPaths
import CpuTrace.Proofs.Lines
import CpuTrace.Proofs.Literals
import CpuTrace.Proofs.Publishing
import CpuTrace.Proofs.Table
import CpuTrace.Proofs.Unfolding
import Mathlib

/-!
# Reading a listing back

A listing assigns two records of literals: the types, each with its size and its members, and the
global variables with their addresses. `readListing` reads such a text, and what it gives are the
`Contents` of the reader that was listed, in the order of the listing: types as they stand in the
table, members by offset, variables by address.

Names are listed between single quotes as they are, so they must not hold a quote, a backslash or
the end of a line. Types have to be lists, since a bare text is listed without quotes. Under these
conditions (`Reader.IsListable`) nothing is lost: the contents come back, so two readers with the
same listing have the same contents. The order of declaration of members at different offsets is
lost, and flattening does not depend on it (`slotsOf_sorted`). The main statement is
`listing_determines_contents`.

Listing publishes the current unit first, so what is listed is the reader as it is afterwards.
-/

namespace CpuTrace

open Literal

/-! ## Flattening a sorted table -/

/-- A layout with its members by offset. -/
def Layout.sorted (l : Layout) : Layout := ⟨l.size, .ofList l.byOffset⟩

theorem Layout.entries_sorted (l : Layout) : l.sorted.members.entries = l.byOffset := by
  refine Table.entries_ofList ?_
  exact ((List.mergeSort_perm _ _).map Prod.fst).nodup_iff.mpr l.members.distinct

/-- Members that are in order of their offsets stay so. -/
theorem Layout.byOffset_sorted (l : Layout) : l.sorted.byOffset = l.byOffset := by
  rw [Layout.byOffset, entries_sorted]
  exact List.mergeSort_of_pairwise
    (List.pairwise_mergeSort Layout.startsBy_trans Layout.startsBy_total _)

/-- A table with the members of each layout by offset. -/
def TypeTable.sorted (types : TypeTable) : TypeTable := types.mapValues fun _ l => l.sorted

namespace TypeTable

variable (types : TypeTable)

theorem layout?_sorted (a : Atom) : types.sorted.layout? a = (types.layout? a).map Layout.sorted := by
  cases a with
  | text s => exact Table.find?_mapValues _ _ _
  | none => rfl
  | int n => rfl

/-- Sizes do not depend on the order of members. -/
theorem measure_sorted (t : TypeExpr) : types.sorted.measure t = types.measure t := by
  induction t using TypeExpr.induction with
  | atom a =>
    cases a with
    | text s =>
      rw [measure.eq_def, measure.eq_def]
      simp only [layout?_sorted]
      split
      · rfl
      · next c cs h => cases types.layout? (.text (String.singleton c)) <;> rfl
    | none => rfl
    | int n => rfl
  | record fs => rfl
  | list ts ih =>
    rcases ts with _ | ⟨a | us | fs, args⟩
    · rfl
    · rw [measure.eq_def, measure.eq_def]
      simp only [layout?_sorted]
      cases types.layout? a with
      | some l => rfl
      | none =>
        rcases args with _ | ⟨count, _ | ⟨element, args⟩⟩
        · rfl
        · rfl
        · simp only [Option.map_none, ih element (by simp)]
    · rfl
    · rfl

/-- The same for sizes that are numbers. -/
theorem sizeOf_sorted (t : TypeExpr) : types.sorted.sizeOf t = types.sizeOf t := by
  rw [sizeOf, sizeOf, measure_sorted]

/-- If entering a sorted layout is like entering the layout, unfolding is the same. -/
theorem unfold_sorted {enter enter' : Layout → Int → List Step → Emission Fault Leaf}
    (h : ∀ l, enter' l.sorted = enter l) (t : TypeExpr) :
    types.sorted.unfold enter' t = types.unfold enter t := by
  induction types.shape t with
  | @scalar t a head notArray layout =>
    funext offset path
    have layout' : types.sorted.layout? a = none := by rw [layout?_sorted, layout, Option.map_none]
    rw [unfold_scalar head notArray layout, unfold_scalar head notArray layout']
  | @struct t a l head notArray layout =>
    funext offset path
    have layout' : types.sorted.layout? a = some l.sorted := by
      rw [layout?_sorted, layout, Option.map_some]
    rw [unfold_struct head notArray layout, unfold_struct head notArray layout', h]
  | array inner ih =>
    funext offset path
    rw [unfold_array, unfold_array, sizeOf_sorted, ih]
  | bare empty =>
    funext offset path
    rw [unfold_bare empty, unfold_bare empty]
  | broken fault notArray fails =>
    funext offset path
    rw [fails, fails]

/-- Nor do leaves depend on it, since they are listed by offset. -/
theorem leavesWithin_sorted (depth : Nat) :
    types.sorted.leavesWithin depth = types.leavesWithin depth := by
  induction depth with
  | zero =>
    funext t
    exact unfold_sorted types (fun _ => rfl) t
  | succ depth ih =>
    funext t
    refine unfold_sorted types (fun l => ?_) t
    rw [Layout.byOffset_sorted, ih]

/-- **The order of declaration** does not show in slots. -/
theorem slotsOf_sorted (root : String) : types.sorted.slotsOf root = types.slotsOf root := by
  have hsize : types.sorted.size = types.size := List.length_map _
  rw [slotsOf, slotsOf, slots, slots, leaves, leaves, hsize, leavesWithin_sorted]

end TypeTable

namespace Dump

/-! ## What a listing holds -/

/-- The contents of a listing, in its order. -/
structure Contents where
  /-- names, sizes and members of the types -/
  types : List (String × Int × List (String × Member))
  /-- the global variables -/
  globals : List (String × Variable)
deriving DecidableEq

/-- The types of a listing as a table, with members in the order of the listing. -/
def Contents.table (c : Contents) : TypeTable :=
  .ofList (c.types.map fun e => (e.1, ⟨e.2.1, .ofList e.2.2⟩))

/-- What the listing of a reader holds: types in the order of the table, members by offset, global
variables by address. -/
def Reader.contents (r : Reader) : Contents where
  types := r.types.entries.map fun e => (e.1, e.2.size, e.2.byOffset)
  globals := r.globals.entries.mergeSort placedBy

theorem Reader.table_contents (r : Reader) : r.contents.table = r.types.sorted := by
  refine Table.ext ?_
  rw [Contents.table, Table.entries_ofList, TypeTable.sorted, Table.entries_mapValues, contents,
    List.map_map]
  · rfl
  · rw [contents, List.map_map, List.map_map]
    exact r.types.distinct

/-! ## The reader of listings -/

/-- A name with a number and an expression. -/
def numbered? : Atom × TypeExpr → Option (String × Int × TypeExpr)
  | (.text name, .list [.atom (.int n), t]) => some (name, n, t)
  | _ => none

/-- A member: its offset and its type. -/
def member? (f : Atom × TypeExpr) : Option (String × Member) :=
  (numbered? f).map fun e => (e.1, ⟨e.2.1, e.2.2⟩)

/-- A variable: its address and its type. -/
def global? (f : Atom × TypeExpr) : Option (String × Variable) :=
  (numbered? f).map fun e => (e.1, ⟨e.2.1, e.2.2⟩)

/-- A type: its size and the record of its members. -/
def layout? (f : Atom × TypeExpr) : Option (String × Int × List (String × Member)) :=
  match numbered? f with
  | some (name, size, .record fs) => (fs.mapM member?).map fun ms => (name, size, ms)
  | _ => none

/-- The record that a name is assigned at the start of some tokens, and the tokens after it. -/
def assigned? (name : String) : List Token → Option (List (Atom × TypeExpr) × List Token)
  | .word w :: .mark c :: ts =>
    if w = name ∧ c = '=' then
      match value ts.length ts with
      | some (.record fs, rest) => some (fs, rest)
      | _ => none
    else none
  | _ => none

/-- Reads a listing. -/
def readListing (text : String) : Option Contents := do
  let ts ← tokens? text.toList
  let (types, ts) ← assigned? "cpu_types" ts
  let (globals, ts) ← assigned? "linux_gvars" ts
  guard ts.isEmpty
  return ⟨← types.mapM layout?, ← globals.mapM global?⟩

/-! ## What can be listed -/

/-- Whether a name stands for itself between single quotes: it holds no such quote, no backslash and
no end of a line. -/
def isQuotable (name : String) : Bool :=
  name.toList.all fun c => c != '\x27' && c != '\\' && !Text.isLineEnd c

/-- Whether a type is listed as a literal, as lists are. -/
def isLiteral : TypeExpr → Bool
  | .atom (.text _) => false
  | _ => true

/-- **Readers whose listing can be read back.** -/
structure Reader.IsListable (r : Reader) : Prop where
  /-- the names of types -/
  types : ∀ e ∈ r.types.entries, isQuotable e.1 = true
  /-- names and types of members -/
  members : ∀ e ∈ r.types.entries, ∀ m ∈ e.2.members.entries,
    isQuotable m.1 = true ∧ isLiteral m.2.type = true
  /-- names and types of global variables -/
  globals : ∀ v ∈ r.globals.entries, isQuotable v.1 = true ∧ isLiteral v.2.type = true

theorem display_of_isLiteral {t : TypeExpr} (h : isLiteral t = true) : t.display = t.render := by
  rw [TypeExpr.display.eq_def]
  split
  · cases h
  · rfl

theorem scan_name {name : String} (h : isQuotable name = true) :
    scan (.word []) ('\x27' :: name.toList ++ ['\x27']) = some ([.text name], .word []) := by
  have hplain : ∀ c ∈ name.toList, c ≠ '\x27' ∧ c ≠ '\\' ∧ Text.isLineEnd c = false := by
    intro c hc
    simpa [and_assoc] using List.all_eq_true.mp h c hc
  simpa using scan_between (by decide) (scan_plain [] hplain)

/-! ## Scanning the lines -/

/-- The tokens of an entry: its name, a number, and what else stands in the brackets. -/
def entryTokens (name number : String) (ts : List Token) : List Token :=
  .text name :: .mark ':' :: (.mark '[' :: .word number :: .mark ',' :: ts ++ [.mark ']'])

/-- The tokens of a member. -/
def memberTokens (m : String × Member) : List Token :=
  entryTokens m.1 (Numeral.hex 0 m.2.offset) (tokens m.2.type)

/-- The tokens of entries, with a comma after each of them. -/
def recordTokens (pieces : List (List Token)) : List Token :=
  .mark '\x7b' :: pieces.flatMap (· ++ [.mark ',']) ++ [.mark '\x7d']

/-- The tokens of a type. -/
def layoutTokens (e : String × Layout) : List Token :=
  entryTokens e.1 (Numeral.hex 0 e.2.size) (recordTokens (e.2.byOffset.map memberTokens))

/-- The tokens of a global variable. -/
def globalTokens (v : String × Variable) : List Token :=
  entryTokens v.1 (Numeral.hex 10 v.2.address) (tokens v.2.type)

/-- A name, a number and what opens around them. -/
theorem scan_entry {name number : String} {n : Int} (hname : isQuotable name = true)
    (hnumber : IsNumeral number n) (indent gap : List Char)
    (hindent : scan (.word []) indent = some ([], .word []))
    (hgap : scan (.word []) gap = some ([], .word [])) :
    scan (.word []) (indent ++ ('\x27' :: name.toList ++ ['\x27']) ++
        (": [".toList ++ gap) ++ (number.toList ++ [',']) ++ [' ']) =
      some ([.text name, .mark ':', .mark '[', .word number, .mark ','], .word []) := by
  have hopen : scan (.word []) ": [".toList = some ([.mark ':', .mark '['], .word []) := rfl
  have hcomma := hnumber.scans ',' (by decide)
  have hblank : scan (.word []) [' '] = some ([], .word []) := rfl
  exact scan_append (scan_append (scan_append (scan_append hindent (scan_name hname))
    (scan_append hopen hgap)) hcomma) hblank

/-- The line of an entry with a literal in it. -/
theorem scan_literalEntry {name number : String} {n : Int} (hname : isQuotable name = true)
    (hnumber : IsNumeral number n) (indent : List Char)
    (hindent : scan (.word []) indent = some ([], .word [])) (t : TypeExpr) :
    scan (.word []) (indent ++ ('\x27' :: name.toList ++ ['\x27']) ++
        (": [".toList ++ []) ++ (number.toList ++ [',']) ++ [' '] ++
        (t.render.toList ++ [']']) ++ [',', '\n']) =
      some (entryTokens name number (tokens t) ++ [.mark ','], .word []) := by
  have hentry := scan_entry hname hnumber indent [] hindent rfl
  have hclose := scan_render t ']' (by decide)
  have hend : scan (.word []) [',', '\n'] = some ([.mark ','], .word []) := rfl
  have hscan := scan_append (scan_append hentry hclose) hend
  simpa [entryTokens] using hscan

/-- The line of a member is scanned as its tokens and a comma. -/
theorem scan_memberLine {m : String × Member} (hname : isQuotable m.1 = true)
    (htype : isLiteral m.2.type = true) :
    scan (.word []) ((memberLine m).toList ++ ['\n']) =
      some (memberTokens m ++ [.mark ','], .word []) := by
  have hscan := scan_literalEntry hname (isNumeral_hex 0 m.2.offset) "    ".toList rfl m.2.type
  simpa [memberLine, memberTokens, display_of_isLiteral htype] using hscan

theorem scan_globalLine {v : String × Variable} (hname : isQuotable v.1 = true)
    (htype : isLiteral v.2.type = true) :
    scan (.word []) ((globalLine v).toList ++ ['\n']) =
      some (globalTokens v ++ [.mark ','], .word []) := by
  have hscan := scan_literalEntry hname (isNumeral_hex 10 v.2.address) "  ".toList rfl v.2.type
  simpa [globalLine, globalTokens, display_of_isLiteral htype] using hscan

/-- Lines that each give the tokens of an entry and a comma. -/
theorem scan_lines {α : Type} {line : α → List Char} {piece : α → List Token} (xs : List α)
    (h : ∀ x ∈ xs, scan (.word []) (line x) = some (piece x ++ [.mark ','], .word [])) :
    scan (.word []) (xs.flatMap line) =
      some ((xs.map piece).flatMap (· ++ [.mark ',']), .word []) := by
  induction xs with
  | nil => rfl
  | cons x xs ih =>
    obtain ⟨hx, hxs⟩ := List.forall_mem_cons.mp h
    rw [List.flatMap_cons, List.map_cons, List.flatMap_cons]
    exact scan_append hx (ih hxs)

/-- So are the lines of a layout. -/
theorem scan_layoutLines {e : String × Layout} (hname : isQuotable e.1 = true)
    (hmembers : ∀ m ∈ e.2.members.entries, isQuotable m.1 = true ∧ isLiteral m.2.type = true) :
    scan (.word []) (textOfLines (layoutLines e)) =
      some (layoutTokens e ++ [.mark ','], .word []) := by
  have hentry := scan_entry hname (isNumeral_hex 0 e.2.size) "  ".toList [' '] rfl rfl
  have hbrace : scan (.word []) ['\x7b', '\n'] = some ([.mark '\x7b'], .word []) := rfl
  have hlines := scan_lines e.2.byOffset fun m hm =>
    have hm := hmembers m (List.mem_mergeSort.mp hm)
    scan_memberLine hm.1 hm.2
  have hend : scan (.word []) ['\x7d', ']', ',', '\n'] =
      some ([.mark '\x7d', .mark ']', .mark ','], .word []) := rfl
  have hscan := scan_append (scan_append (scan_append hentry hbrace) hlines) hend
  simpa [layoutLines, textOfLines, layoutTokens, entryTokens, recordTokens, List.flatMap_map] using hscan

/-- The tokens of a listing. -/
def Reader.listingTokens (r : Reader) : List Token :=
  .word "cpu_types" :: .mark '=' :: (recordTokens (r.types.entries.map layoutTokens) ++
    .word "linux_gvars" :: .mark '=' ::
      recordTokens ((r.globals.entries.mergeSort placedBy).map globalTokens))

/-- **A listing is scanned as its tokens.** -/
theorem Reader.IsListable.tokens?_listing {r : Reader} (h : r.IsListable) :
    tokens? (Text.unlines r.listing).toList = some r.listingTokens := by
  have htypes := scan_lines r.types.entries fun e he => scan_layoutLines (h.types e he) (h.members e he)
  have hglobals := scan_lines (r.globals.entries.mergeSort placedBy) fun v hv =>
    have hv := h.globals v (List.mem_mergeSort.mp hv)
    scan_globalLine hv.1 hv.2
  have hfirst : scan (.word []) "cpu_types = \x7b\n".toList =
      some ([.word "cpu_types", .mark '=', .mark '\x7b'], .word []) := rfl
  have hnext : scan (.word []) "\x7d\n\nlinux_gvars = \x7b\n".toList =
      some ([.mark '\x7d', .word "linux_gvars", .mark '=', .mark '\x7b'], .word []) := rfl
  have hlast : scan (.word []) ['\x7d', '\n'] = some ([.mark '\x7d'], .word []) := rfl
  have hscan := scan_append (scan_append (scan_append (scan_append hfirst htypes) hnext) hglobals)
    hlast
  have hchars : (Text.unlines r.listing).toList = "cpu_types = \x7b\n".toList ++
      r.types.entries.flatMap (fun e => textOfLines (layoutLines e)) ++
      "\x7d\n\nlinux_gvars = \x7b\n".toList ++
      (r.globals.entries.mergeSort placedBy).flatMap (fun v => (globalLine v).toList ++ ['\n']) ++
      ['\x7d', '\n'] := by
    rw [toList_unlines, listing]
    simp [textOfLines, List.flatMap_assoc, List.flatMap_map]
  rw [tokens?, hchars, hscan]
  simp [listingTokens, recordTokens, flush]

/-! ## Reading the tokens -/

/-- An entry is read as its name with the list of its number and its expression. -/
theorem spells_entry {name number : String} {n : Int} (hnumber : IsNumeral number n) {ts : List Token}
    {t : TypeExpr} (h : Spells ts t) :
    SpellsField (entryTokens name number ts) (.text name, .list [.int n, t]) := by
  have hlist := Spells.list (.cons (.atom hnumber.atom?) (.cons h .nil))
  simpa [entryTokens, List.intercalate_cons_cons] using hlist.field (k := .text name) rfl

/-- The field of a member. -/
def memberField (m : String × Member) : Atom × TypeExpr :=
  (.text m.1, .list [.int m.2.offset, m.2.type])

/-- The field of a type. -/
def layoutField (e : String × Layout) : Atom × TypeExpr :=
  (.text e.1, .list [.int e.2.size, .record (e.2.byOffset.map memberField)])

/-- The field of a global variable. -/
def globalField (v : String × Variable) : Atom × TypeExpr :=
  (.text v.1, .list [.int v.2.address, v.2.type])

/-- A record of entries. -/
theorem spells_record {α : Type} {piece : α → List Token} {f : α → Atom × TypeExpr}
    (h : ∀ x, SpellsField (piece x) (f x)) (xs : List α) :
    Spells (recordTokens (xs.map piece)) (.record (xs.map f)) := by
  refine .recordLines ?_
  rw [List.forall₂_map_left_iff, List.forall₂_map_right_iff, List.forall₂_same]
  exact fun x _ => h x

theorem spells_memberTokens (m : String × Member) : SpellsField (memberTokens m) (memberField m) :=
  spells_entry (isNumeral_hex 0 m.2.offset) (spells_tokens m.2.type)

theorem spells_layoutTokens (e : String × Layout) : SpellsField (layoutTokens e) (layoutField e) :=
  spells_entry (isNumeral_hex 0 e.2.size) (spells_record spells_memberTokens e.2.byOffset)

theorem spells_globalTokens (v : String × Variable) : SpellsField (globalTokens v) (globalField v) :=
  spells_entry (isNumeral_hex 10 v.2.address) (spells_tokens v.2.type)

/-- What a listing assigns to a name is the record behind the sign. -/
theorem assigned?_of_spells (name : String) {ts : List Token} {fs : List (Atom × TypeExpr)}
    (h : Spells ts (.record fs)) (rest : List Token) :
    assigned? name (.word name :: .mark '=' :: (ts ++ rest)) = some (fs, rest) := by
  have hread := (h (ts ++ rest).length).read rest (by simp)
  simp only [assigned?, hread, and_self, if_true]

/-- Fields that are read one by one are read in all. -/
theorem mapM_map_eq_some {α β γ : Type} {f : α → β} {g : β → Option γ} {k : α → γ} (xs : List α)
    (h : ∀ x, g (f x) = some (k x)) : (xs.map f).mapM g = some (xs.map k) := by
  induction xs with
  | nil => rfl
  | cons x xs ih => simp [List.mapM_cons, h, ih]

theorem member?_memberField (m : String × Member) : member? (memberField m) = some m := rfl

theorem global?_globalField (v : String × Variable) : global? (globalField v) = some v := rfl

theorem layout?_layoutField (e : String × Layout) :
    layout? (layoutField e) = some (e.1, e.2.size, e.2.byOffset) := by
  have hmembers := mapM_map_eq_some e.2.byOffset member?_memberField
  rw [List.map_id'] at hmembers
  simp only [layout?, layoutField, numbered?, hmembers, Option.map_some]

/-- **A listing is read as the contents of the reader.** -/
theorem Reader.IsListable.readListing_listing {r : Reader} (h : r.IsListable) :
    readListing (Text.unlines r.listing) = some r.contents := by
  have htypes := assigned?_of_spells "cpu_types" (spells_record spells_layoutTokens r.types.entries)
  have hglobals := assigned?_of_spells "linux_gvars"
    (spells_record spells_globalTokens (r.globals.entries.mergeSort placedBy)) []
  have hlayouts := mapM_map_eq_some r.types.entries layout?_layoutField
  have hvariables := mapM_map_eq_some (r.globals.entries.mergeSort placedBy) global?_globalField
  rw [List.append_nil] at hglobals
  rw [List.map_id'] at hvariables
  rw [readListing, h.tokens?_listing, listingTokens]
  simp only [Option.bind_eq_bind, Option.bind_some, htypes, hglobals, hlayouts, hvariables]
  rfl

/-- What is printed is the listing of the reader that has published. -/
theorem eq_listing_of_run_describe {s r : Reader} {lines : List String}
    (h : describe.run s = .ok lines r) : lines = r.listing := by
  obtain ⟨_, r', -, hget⟩ := run_bind_eq_ok_iff.mp h
  cases hget
  rfl

/-- **A listing loses nothing.** The text that lists a reader is read as its contents: names and
sizes of types in order, members by offset, variables by address. So readers that are listed alike
have the same contents. The table that is read flattens every structure like the reader's own, to
the same slots and the same fault. -/
theorem listing_determines_contents {s r : Reader} {lines : List String}
    (hrun : describe.run s = .ok lines r) (hr : r.IsListable) :
    readListing (Text.unlines lines) = some r.contents ∧
      (∀ root, r.contents.table.slotsOf root = r.types.slotsOf root) ∧
      ∀ (s' r' : Reader) (lines' : List String), describe.run s' = .ok lines' r' → r'.IsListable →
        Text.unlines lines' = Text.unlines lines → r'.contents = r.contents := by
  obtain rfl := eq_listing_of_run_describe hrun
  have hread := hr.readListing_listing
  refine ⟨hread, fun root => ?_, fun s' r' lines' hrun' hr' heq => ?_⟩
  · rw [Reader.table_contents, TypeTable.slotsOf_sorted]
  · obtain rfl := eq_listing_of_run_describe hrun'
    have hread' := hr'.readListing_listing
    rw [heq, hread] at hread'
    exact (Option.some.inj hread').symm

/-- A unit whose members are declared out of order, one with an enumeration and one that points to
what needs escapes, and two variables. -/
def mixedUnit : Reader where
  types := .ofList [("Pair", ⟨8, .ofList [("high", ⟨4, .named "int"⟩), ("low", ⟨0, .named "int"⟩)]⟩)]
  unit := .ofList [("Node", .own ⟨24, .ofList
    [("pairs", ⟨8, .array 2 (.named "Pair")⟩), ("state", ⟨0, .named "State"⟩),
      ("next", ⟨8, .pointer (.named "it's\n")⟩)]⟩)]
  enums := .ofList [("State", ⟨4, .ofList [("OFF", -1), ("ON", 1)]⟩)]
  unitGlobals := .ofList [("last", ⟨4096, .named "Node"⟩), ("first", ⟨16, .named "Node"⟩)]

/-- The unit once it is listed. -/
def mixedListed : Reader :=
  { mixedUnit with
    types := .ofList
      [("Pair", ⟨8, .ofList [("high", ⟨4, .named "int"⟩), ("low", ⟨0, .named "int"⟩)]⟩),
        ("Node", ⟨24, .ofList
          [("pairs", ⟨8, .array 2 (.named "Pair")⟩),
            ("state", ⟨0, .list [.text "Enumeration", .record [(.text "target", .text "int"),
              (.text "choices", .record [(.int (-1), .text "OFF"), (.int 1, .text "ON")])]]⟩),
            ("next", ⟨8, .pointer (.named "it's\n")⟩)]⟩)]
    unit := .ofList [("Node", .shared)]
    globals := .ofList [("last", ⟨4096, .named "Node"⟩), ("first", ⟨16, .named "Node"⟩)] }

theorem run_describe_mixedUnit :
    describe.run mixedUnit = .ok mixedListed.listing mixedListed := by
  cbv

theorem isListable_mixedListed : mixedListed.IsListable where
  types := by decide
  members := by decide
  globals := by decide

theorem readListing_mixedUnit :
    describe.run mixedUnit = .ok mixedListed.listing mixedListed ∧ mixedListed.IsListable ∧
      mixedListed.listing =
        ["cpu_types = \x7b", "  'Pair': [ 0x8, \x7b", "    'low': [0x0, ['int']],",
          "    'high': [0x4, ['int']],", "\x7d],", "  'Node': [ 0x18, \x7b",
          "    'state': [0x0, ['Enumeration', \x7b'target': 'int', 'choices': \x7b-1: 'OFF', 1: 'ON'\x7d\x7d]],",
          "    'pairs': [0x8, ['array', 2, ['Pair']]],",
          "    'next': [0x8, ['pointer', [\"it's\\n\"]]],", "\x7d],", "\x7d", "", "linux_gvars = \x7b",
          "  'first': [0x00000010, ['Node']],", "  'last': [0x00001000, ['Node']],", "\x7d"] ∧
      readListing (Text.unlines mixedListed.listing) = some mixedListed.contents :=
  ⟨run_describe_mixedUnit, isListable_mixedListed, by cbv,
    (listing_determines_contents run_describe_mixedUnit isListable_mixedListed).1⟩

end Dump

end CpuTrace
