import CpuTrace.Proofs.GraphReading
import CpuTrace.Proofs.UnitPublishing
import Mathlib

/-!
# Separate units

A dump is made of compile units, and each of them can be read alone (`CompileUnit`). The main
statement is `run_publish_units`: if each unit alone is read and published without a fault, so is the
whole dump. Each layout is then that of the last unit that declares its name, and a type has the slots
that it has in its own unit if no other unit interferes with a name that it needs
(`CompileUnit.IsSeparate`).

The condition does not follow from all units declaring different names. An unnamed structure is given
a name that is made from its id, ids start again in each unit, and the last structure of an id takes
the place of all others, also where an earlier unit needs its own (`slotsOf_clash`).

One step reads a unit over all that was published before, and keeps `HasRead`; the dump is a run of
such steps (`HasRead.run`).
-/

namespace CpuTrace.Dump

/-- A compile unit that is read and published without a fault, if nothing else is read. -/
structure CompileUnit where
  /-- its lines -/
  lines : List String
  /-- the reader that has read them -/
  reader : Reader
  /-- the reader that has published them, too -/
  alone : Reader
  /-- they are those of one unit -/
  isUnit : IsUnit lines
  /-- reading them gives no fault -/
  reads : (readLines lines).run {} = .ok () reader
  /-- nor does publishing -/
  publishes : publish.run reader = .ok () alone

namespace CompileUnit

variable (u : CompileUnit)

/-- The reader of a unit alone has published nothing else, and can publish the unit. -/
theorem isAlone : u.reader.IsAlone := by
  obtain ⟨hreading, htypes, hglobals, -⟩ := run_readLines_unit u.isUnit u.reads
  exact ⟨hreading, htypes, hglobals, (of_run_publish hreading.isOwn u.publishes).1⟩

theorem types_alone : u.alone.types = u.reader.publishedTypes :=
  (of_run_publish u.isAlone.reading.isOwn u.publishes).2.types

/-- **No other unit interferes** with what a type of the unit needs: none has an enumeration of a name
that it needs, no later one a structure, and no earlier one a structure that the unit leaves to it. -/
def IsSeparate (before after : List CompileUnit) (name : String) : Prop :=
  ∀ x, u.alone.types.Needs (.named name) x →
    (∀ v ∈ before ++ after, x ∉ v.reader.enums.keys) ∧ (∀ v ∈ after, x ∉ v.reader.unit.keys) ∧
      (x ∉ u.reader.unit.keys → ∀ v ∈ before, x ∉ v.reader.unit.keys)

end CompileUnit

/-- A reader has read some units: what then holds of it. -/
structure HasRead (units : List CompileUnit) (r : Reader) : Prop where
  /-- it can go on with another unit -/
  placed : r.IsPlaced
  /-- the structures of the last unit are its own -/
  own : r.IsOwn
  /-- the last unit can be published -/
  publishable : Publishable r
  /-- the tables will then be those of the units -/
  background : Background (units.map CompileUnit.reader) r.published
  /-- numerals are hexadecimal only after a unit where they are -/
  radix : r.radix = .decimal ∨ ∃ u ∈ units, u.reader.radix = .hexadecimal
  /-- all that a separate type needs is as it is in its unit alone -/
  agree : ∀ before u after, units = before ++ u :: after → ∀ name, isUnnamed name = false →
    u.IsSeparate before after name →
      ∀ x, u.alone.types.Needs (.named name) x → u.alone.types.Agree r.published.types x

theorem hasRead_nil : HasRead [] {} := by
  refine ⟨.inl ⟨by decide, rfl⟩, fun e he => absurd he List.not_mem_nil, publishable_default, ?_,
    .inl rfl, fun before u after h => ?_⟩
  · rw [published_default]
    exact background_nil
  · simp at h

variable {units : List CompileUnit} {r : Reader}

/-- A reader over published tables is inside a unit, too. -/
theorem Over.isReading {b r c : Reader} (h : Over b r c) (hr : r.IsReading) : c.IsReading := by
  obtain ⟨enums, locals, rfl, -⟩ := h
  exact ⟨hr.own, hr.ids, hr.level, hr.stack, hr.top, hr.radix⟩

theorem Over.radix_eq {b r c : Reader} (h : Over b r c) : c.radix = r.radix := by
  obtain ⟨enums, locals, rfl, -⟩ := h
  rfl

/-- What a separate type of the unit needs is published as in the unit alone. -/
theorem HasRead.agree_last (h : HasRead units r) {u : CompileUnit} {c : Reader}
    (hover : Over r.published u.reader c)
    (hsizes : EnumsHaveSize (units.map CompileUnit.reader ++ [u.reader])) {name : String}
    (hname : isUnnamed name = false) (hseparate : u.IsSeparate units [] name) (x : String)
    (hx : u.alone.types.Needs (.named name) x) : u.alone.types.Agree c.published.types x := by
  rw [CompileUnit.IsSeparate, u.types_alone] at hseparate
  rw [u.types_alone] at hx ⊢
  refine agree_published h.background ?_ hover u.isAlone hsizes hname (fun y hy r' hr' => ?_) x hx
  · intro r' hr'
    obtain ⟨v, -, rfl⟩ := List.mem_map.mp hr'
    exact v.isAlone
  · obtain ⟨v, hv, rfl⟩ := List.mem_map.mp hr'
    obtain ⟨henums, -, hunit⟩ := hseparate y hy
    exact ⟨henums v (List.mem_append_left _ hv), fun hnot => hunit hnot v hv⟩

/-- What a separate type of a unit before needs stays. -/
theorem HasRead.agree_earlier {before after : List CompileUnit} {v : CompileUnit}
    (h : HasRead (before ++ v :: after) r) {u : CompileUnit} {c : Reader}
    (hover : Over r.published u.reader c)
    (hsizes : EnumsHaveSize ((before ++ v :: after).map CompileUnit.reader ++ [u.reader]))
    {name : String} (hname : isUnnamed name = false)
    (hseparate : v.IsSeparate before (after ++ [u]) name) (x : String)
    (hx : v.alone.types.Needs (.named name) x) : v.alone.types.Agree c.published.types x := by
  have hagree := h.agree before v after rfl name hname fun y hy => by
    obtain ⟨henums, hlater, hunit⟩ := hseparate y hy
    refine ⟨fun w hw => henums w ?_, fun w hw => hlater w (List.mem_append_left _ hw), hunit⟩
    rw [← List.append_assoc]
    exact List.mem_append_left _ hw
  rw [CompileUnit.IsSeparate, v.types_alone] at hseparate
  rw [v.types_alone] at hagree hx ⊢
  have hmem : v.reader ∈ (before ++ v :: after).map CompileUnit.reader :=
    List.mem_map_of_mem (by simp)
  refine h.background.agree hover u.isAlone v.isAlone hmem hsizes hname (fun y hy => ?_) hagree x hx
  obtain ⟨henums, hlater, -⟩ := hseparate y hy
  refine ⟨hlater u (by simp), henums u (by simp), fun r' hr' => ?_⟩
  obtain ⟨w, hw, rfl⟩ := List.mem_map.mp hr'
  rcases List.mem_append.mp hw with hw | hw
  · exact .inr (henums w (by simp [hw]))
  · rcases List.mem_cons.mp hw with rfl | hw
    · exact .inl rfl
    · exact .inr (henums w (by simp [hw]))

/-- **A step**: reading one more unit. -/
theorem HasRead.step (h : HasRead units r) (u : CompileUnit)
    (hsizes : EnumsHaveSize ((units ++ [u]).map CompileUnit.reader))
    (hradix : ∀ v ∈ units, v.reader.radix = .hexadecimal → StartsHexadecimal u.lines) :
    ∃ c, (readLines u.lines).run r = .ok () c ∧ Over r.published u.reader c ∧
      HasRead (units ++ [u]) c := by
  have hstart : r.radix = .decimal ∨ StartsHexadecimal u.lines :=
    h.radix.imp_right fun ⟨v, hv, hhex⟩ => hradix v hv hhex
  obtain ⟨-, -, -, hlifts⟩ := run_readLines_unit u.isUnit u.reads
  obtain ⟨c, hrun, hover⟩ := hlifts r h.placed h.own h.publishable hstart
  have hmap : (units ++ [u]).map CompileUnit.reader = units.map CompileUnit.reader ++ [u.reader] := by
    simp
  rw [hmap] at hsizes
  refine ⟨c, hrun, hover, .inr (hover.isReading u.isAlone.reading), hover.isOwn u.isAlone.reading.isOwn,
    h.background.publishable hover u.isAlone hsizes, ?_, ?_, ?_⟩
  · rw [hmap]
    exact h.background.published hover u.isAlone hsizes
  · have hmarked := u.isAlone.reading.radix
    rw [hover.radix_eq]
    rcases hcase : u.reader.radix with _ | _ | _
    · exact .inl rfl
    · exact .inr ⟨u, by simp, hcase⟩
    · exact absurd hcase hmarked
  · intro before v after heq name hname hseparate
    rcases List.eq_nil_or_concat' after with rfl | ⟨after, w, rfl⟩
    · -- the type is one of this unit
      obtain ⟨rfl, hlast⟩ := List.append_inj' heq rfl
      obtain rfl := List.singleton_injective hlast
      exact h.agree_last hover hsizes hname hseparate
    · -- it is one of a unit before
      have hassoc : before ++ v :: (after ++ [w]) = (before ++ v :: after) ++ [w] := by simp
      rw [hassoc] at heq
      obtain ⟨rfl, hlast⟩ := List.append_inj' heq rfl
      obtain rfl := List.singleton_injective hlast
      exact h.agree_earlier hover hsizes hname hseparate

/-- The reader of a unit has read it. -/
theorem CompileUnit.hasRead (u : CompileUnit) (hsizes : EnumsHaveSize [u.reader]) :
    HasRead [u] u.reader := by
  obtain ⟨c, hrun, -, hc⟩ := hasRead_nil.step u hsizes fun v hv => absurd hv List.not_mem_nil
  obtain rfl : c = u.reader := (EStateM.Result.ok.inj (hrun.symm.trans u.reads)).2
  exact hc

/-- **A run**: reading one unit after the other. -/
theorem HasRead.run (h : HasRead units r) (rest : List CompileUnit)
    (hsizes : EnumsHaveSize ((units ++ rest).map CompileUnit.reader))
    (hradix : (units ++ rest).Pairwise fun u v =>
      u.reader.radix = .hexadecimal → StartsHexadecimal v.lines) :
    ∃ c, (readLines (rest.flatMap CompileUnit.lines)).run r = .ok () c ∧
      HasRead (units ++ rest) c := by
  induction rest generalizing units r with
  | nil => exact ⟨r, rfl, by rwa [List.append_nil]⟩
  | cons u rest ih =>
    have hassoc : units ++ u :: rest = (units ++ [u]) ++ rest := by simp
    rw [hassoc] at hsizes hradix ⊢
    have hfirst := (List.pairwise_append.mp hradix).1
    obtain ⟨c, hrun, -, hc⟩ := h.step u (hsizes.mono fun r hr => by
        rw [List.map_append]
        exact List.mem_append_left _ hr)
      fun v hv => (List.pairwise_append.mp hfirst).2.2 v hv u (List.mem_singleton_self u)
    obtain ⟨d, hrun', hd⟩ := ih hc hsizes hradix
    exact ⟨d, (run_readLines_append hrun).trans hrun', hd⟩

/-- Lines that describe nothing are passed over. -/
theorem run_readLines_of_parse?_eq_none {lines : List String}
    (h : ∀ line ∈ lines, Line.parse? line = none) (r : Reader) :
    (readLines lines).run r = .ok () r := by
  induction lines with
  | nil => rfl
  | cons line lines ih =>
    obtain ⟨hline, hlines⟩ := List.forall_mem_cons.mp h
    have hfirst : (readLine line).run r = .ok () r := by
      rw [readLine, hline]
      rfl
    exact (run_readLines_cons hfirst).trans (ih hlines)

/-! ## Separation -/

/-- **Separate units.** If every unit can be read and published alone, the dump can. Its types are those
of the last unit that declares them, with every structure that has a name of its own; and a type that
no other unit interferes with has the slots, or the fault, that it has in its unit alone. -/
theorem run_publish_units (preamble : List String) (units : List CompileUnit)
    (hpreamble : ∀ line ∈ preamble, Line.parse? line = none)
    (hsizes : EnumsHaveSize (units.map CompileUnit.reader))
    (hradix : units.Pairwise fun u v =>
      u.reader.radix = .hexadecimal → StartsHexadecimal v.lines) :
    ∃ r, (do readLines (preamble ++ units.flatMap CompileUnit.lines); publish : ReadM Unit).run {} =
        .ok () r ∧
      (∀ e ∈ r.types.entries, LastDeclares (units.map CompileUnit.reader) e.1 e.2) ∧
      (∀ u ∈ units, ∀ name ∈ u.reader.unit.keys, isUnnamed name = false → name ∈ r.types.keys) ∧
      ∀ before u after, units = before ++ u :: after → ∀ name, isUnnamed name = false →
        u.IsSeparate before after name →
          SameOutcome (u.alone.types.slotsOf name) (r.types.slotsOf name) := by
  obtain ⟨c, hread, hc⟩ := hasRead_nil.run units hsizes hradix
  obtain ⟨r, hpublish, hr⟩ := run_publish hc.own hc.publishable
  have hlines := (run_readLines_append (run_readLines_of_parse?_eq_none hpreamble {})).trans hread
  have htypes : r.types = c.published.types := hr.types
  refine ⟨r, (run_bind_of_eq hlines).trans hpublish, ?_⟩
  rw [htypes]
  refine ⟨hc.background.layouts, fun u hu => ?_, fun before u after heq name hname hseparate => ?_⟩
  · exact hc.background.named _ (List.mem_map_of_mem hu)
  · exact TypeTable.sameOutcome_slots (.refl _) (hc.agree before u after heq name hname hseparate) _ _

/-! ## Two units with one id -/

/-- The dump of a graph is a unit that can be read alone. -/
theorem TypeGraph.IsDump.exists_unit {g : TypeGraph} {lines : List String} (h : g.IsDump lines) :
    ∃ u : CompileUnit, u.lines = lines ∧ HoldsGraph g u.reader := by
  obtain ⟨r, hread, hr⟩ := run_readLines_dump g h
  obtain ⟨r', hpublish, -⟩ := run_publish hr.isOwn hr.publishable
  exact ⟨⟨lines, r, r', h.isUnit.1, hread, hpublish⟩, rfl, hr⟩

/-- Without enumerations and variables, and if no structure is dropped, what is published is what was
joined. -/
theorem publishedTypes_eq {r : Reader} {types : TypeTable} (htypes : r.joinedTypes = types)
    (hglobals : r.joinedGlobals = ∅) (henums : ∀ name, r.enums.find? name = none)
    (hkept : (pruneOnce types ∅).size = types.size) : r.publishedTypes = types := by
  have hmember : ∀ m, (mergeMember r.enums m).1 = m := by
    intro m
    rw [mergeMember]
    split
    · rw [henums]
    · rfl
  have hmerge : ∀ l, mergedLayout r.enums l = l := by
    intro l
    obtain ⟨size, members⟩ := l
    rw [mergedLayout, mapMembers, Layout.mk.injEq]
    exact ⟨rfl, Table.ext (by simp [hmember])⟩
  rw [Reader.publishedTypes, htypes, hglobals, pruned, dif_pos hkept]
  exact Table.ext (by simp [hmerge])

/-- So it is with a graph. -/
theorem HoldsGraph.types_alone {g : TypeGraph} {u : CompileUnit} (h : HoldsGraph g u.reader)
    (henums : g.enums = ∅) (hkept : (pruneOnce g.types ∅).size = g.types.size) :
    u.alone.types = g.types := by
  rw [u.types_alone]
  refine publishedTypes_eq h.joinedTypes h.joinedGlobals (fun name => ?_) hkept
  rw [h.enums, henums]
  rfl

/-- In a table whose members have types by name, a type needs only these names. -/
theorem mem_of_needs {types : TypeTable} {names : List String}
    (hnames : ∀ e ∈ types.entries, ∀ m ∈ e.2.members.entries, ∃ n ∈ names, m.2.type = .named n)
    {t : TypeExpr} {x : String} (h : types.Needs t x) : ∀ n ∈ names, t = .named n → x ∈ names := by
  induction h with
  | named name =>
    intro n hn ht
    cases ht
    exact hn
  | head head _ =>
    rintro n hn rfl
    cases head
    exact hn
  | stride _ => intro n _ ht; cases ht
  | element _ _ => intro n _ ht; cases ht
  | member _ _ layout mem _ ih =>
    intro _ _ _
    obtain ⟨n, hn, hm⟩ := hnames _ (Table.find?_eq_some_iff.mp layout) _ mem
    exact ih n hn hm

/-- A unit with an unnamed structure that one of its structures holds. -/
def pairGraph : TypeGraph where
  nodes := [
    ⟨0x2d, .layout .struct none 4 [⟨0x31, some "x", 0, ⟨0x60, 0⟩⟩]⟩,
    ⟨0x40, .layout .struct (some "A") 8 [
      ⟨0x44, some "n", 0, ⟨0x60, 0⟩⟩, ⟨0x4e, some "s", 4, ⟨0x2d, 0⟩⟩]⟩,
    ⟨0x60, .base "int"⟩]
  distinct := by decide
  nonzero := by decide
  closed := by decide
  ranked := ⟨fun _ => 0, by decide⟩
  wellFormed := by decide
  tags := by decide
  kinds := by decide

/-- Another unit, where the unnamed structure is another one. -/
def boxGraph : TypeGraph where
  nodes := [
    ⟨0x2d, .layout .struct none 8 [
      ⟨0x31, some "y", 0, ⟨0x60, 0⟩⟩, ⟨0x36, some "z", 4, ⟨0x60, 0⟩⟩]⟩,
    ⟨0x40, .layout .struct (some "B") 8 [⟨0x44, some "t", 0, ⟨0x2d, 0⟩⟩]⟩,
    ⟨0x60, .base "int"⟩]
  distinct := by decide
  nonzero := by decide
  closed := by decide
  ranked := ⟨fun _ => 0, by decide⟩
  wellFormed := by decide
  tags := by decide
  kinds := by decide

/-- The line of a structure. -/
def structLine (id : Nat) (as : List Attribute) : String :=
  writtenLine 1 id "DW_TAG_structure_type" as

/-- The line of a member. -/
def fieldLine (id : Nat) (name type offset : String) : String :=
  writtenLine 2 id "DW_TAG_member"
    [attr "DW_AT_name" name, typeAttr type, attr "DW_AT_data_member_location" offset]

/-- The line of an array. -/
def arrayLine (id : Nat) (element : String) : String :=
  writtenLine 1 id "DW_TAG_array_type" [typeAttr element]

/-- The line of a bound. -/
def boundLine (id : Nat) (bound : String) : String :=
  writtenLine 2 id "DW_TAG_subrange_type" [attr "DW_AT_upper_bound" bound]

/-- The first line of a unit. -/
def unitLine : String := writtenLine 0 0xb "DW_TAG_compile_unit" []

/-- The line of the integers. -/
def intLine : String := writtenLine 1 0x60 "DW_TAG_base_type" [attr "DW_AT_name" "int"]

/-- The lines of the one unit. -/
def pairDump : List String :=
  unitLine :: [[structLine 0x2d [attr "DW_AT_byte_size" "0x4"], fieldLine 0x31 "x" "<0x60" "0"],
    [structLine 0x40 [attr "DW_AT_name" "A", attr "DW_AT_byte_size" "0x8"],
      fieldLine 0x44 "n" "<0x60" "0", fieldLine 0x4e "s" "<0x2d" "4"],
    [intLine]].flatten

/-- The lines of the other unit. -/
def boxDump : List String :=
  unitLine :: [[structLine 0x2d [attr "DW_AT_byte_size" "0x8"], fieldLine 0x31 "y" "<0x60" "0",
      fieldLine 0x36 "z" "<0x60" "4"],
    [structLine 0x40 [attr "DW_AT_name" "B", attr "DW_AT_byte_size" "0x8"],
      fieldLine 0x44 "t" "<0x2d" "0"],
    [intLine]].flatten

theorem isDump_pairDump : pairGraph.IsDump pairDump := by
  refine ⟨0xb, _, _, shows_writtenLine (by decide) trivial, ?_, rfl⟩
  refine .cons ?unnamed (.cons ?A (.cons ?int .nil))
  case unnamed =>
    refine .layout (shows_writtenLine (by decide)
      ⟨rfl, rfl, _, rfl, ['0', 'x'], 0, Or.inr rfl, by decide⟩) (.cons ?_ .nil)
    exact shows_writtenLine (by decide) ⟨⟨_, rfl, 0, rfl⟩, rfl, ⟨_, rfl, Or.inl (by decide)⟩, rfl⟩
  case A =>
    refine .layout (shows_writtenLine (by decide)
      ⟨⟨_, rfl, 0, rfl⟩, rfl, _, rfl, ['0', 'x'], 0, Or.inr rfl, by decide⟩)
      (.cons ?_ (.cons ?_ .nil)) <;>
    exact shows_writtenLine (by decide) ⟨⟨_, rfl, 0, rfl⟩, rfl, ⟨_, rfl, Or.inl (by decide)⟩, rfl⟩
  case int => exact .base (shows_writtenLine (by decide) ⟨_, rfl, 0, rfl⟩)

theorem isDump_boxDump : boxGraph.IsDump boxDump := by
  refine ⟨0xb, _, _, shows_writtenLine (by decide) trivial, ?_, rfl⟩
  refine .cons ?unnamed (.cons ?B (.cons ?int .nil))
  case unnamed =>
    refine .layout (shows_writtenLine (by decide)
      ⟨rfl, rfl, _, rfl, ['0', 'x'], 0, Or.inr rfl, by decide⟩) (.cons ?_ (.cons ?_ .nil)) <;>
    exact shows_writtenLine (by decide) ⟨⟨_, rfl, 0, rfl⟩, rfl, ⟨_, rfl, Or.inl (by decide)⟩, rfl⟩
  case B =>
    refine .layout (shows_writtenLine (by decide)
      ⟨⟨_, rfl, 0, rfl⟩, rfl, _, rfl, ['0', 'x'], 0, Or.inr rfl, by decide⟩) (.cons ?_ .nil)
    exact shows_writtenLine (by decide) ⟨⟨_, rfl, 0, rfl⟩, rfl, ⟨_, rfl, Or.inl (by decide)⟩, rfl⟩
  case int => exact .base (shows_writtenLine (by decide) ⟨_, rfl, 0, rfl⟩)

/-- The types of both units together. -/
def bothTypes : TypeTable := .ofList
  [("__unnamed_0x2d", ⟨8, .ofList [("y", ⟨0, .named "int"⟩), ("z", ⟨4, .named "int"⟩)]⟩),
    ("A", ⟨8, .ofList [("n", ⟨0, .named "int"⟩), ("s", ⟨4, .named "__unnamed_0x2d"⟩)]⟩),
    ("B", ⟨8, .ofList [("t", ⟨0, .named "__unnamed_0x2d"⟩)]⟩)]

section Clash

variable {u v : CompileUnit} (hu : HoldsGraph pairGraph u.reader) (hv : HoldsGraph boxGraph v.reader)

include hu

theorem types_pair : u.alone.types = pairGraph.types := hu.types_alone rfl (by decide)

include hv

theorem enumsHaveSize_clash : EnumsHaveSize [u.reader, v.reader] := by
  intro r _ r' hr' name e _ he
  have hnone : r'.enums = ∅ := by
    rcases List.mem_pair.mp hr' with rfl | rfl
    · exact hu.enums
    · exact hv.enums
  rw [hnone] at he
  cases he

/-- Together, the last structure of the id takes the place of the first. -/
theorem types_both {c : Reader} (hover : Over u.reader.published v.reader c) :
    c.publishedTypes = bothTypes := by
  have hpublished : u.reader.published.types = pairGraph.types :=
    u.types_alone.symm.trans (types_pair hu)
  obtain ⟨enums, locals, rfl, hfind⟩ := hover
  refine publishedTypes_eq ?_ ?_ (fun name => ?_) (by decide)
  · show v.reader.resolvedLayouts.foldl _ u.reader.published.types = _
    rw [hv.resolvedLayouts, hpublished]
    rfl
  · have hglobals : u.reader.published.globals = ∅ := hu.joinedGlobals
    have hsame := hglobals.trans hv.globals.symm
    exact (congrArg (Table.update · (.ofList v.reader.resolvedGlobals)) hsame).trans hv.joinedGlobals
  · show enums.find? name = none
    rw [hfind, hv.enums]
    exact congrArg (Table.find? · name) hu.enums

/-- The second unit declares all again that it needs. -/
theorem isSeparate_box : v.IsSeparate [u] [] "B" := by
  intro x hx
  rw [hv.types_alone rfl (by decide)] at hx
  have hmem := @mem_of_needs _ ["B", "__unnamed_0x2d", "int"] (by decide) _ _ hx "B" (by decide) rfl
  have hkeys : ∀ x ∈ ["B", "__unnamed_0x2d", "int"],
      x ∉ boxGraph.unit.keys → x ∉ pairGraph.unit.keys := by decide
  refine ⟨fun w hw => ?_, fun w hw => absurd hw List.not_mem_nil, fun hnot w hw => ?_⟩
  · rw [List.mem_singleton.mp hw, hu.enums]
    exact List.not_mem_nil
  · rw [hv.unit] at hnot
    rw [List.mem_singleton.mp hw, hu.unit]
    exact hkeys x hmem hnot

end Clash

/-- The units of the two dumps, and the reader that has read both. -/
theorem exists_clash : ∃ (u v : CompileUnit) (c : Reader), u.lines = pairDump ∧ v.lines = boxDump ∧
    HoldsGraph pairGraph u.reader ∧ HoldsGraph boxGraph v.reader ∧
    (readLines (pairDump ++ boxDump)).run {} = .ok () c ∧ Over u.reader.published v.reader c ∧
    HasRead [u, v] c := by
  obtain ⟨u, hulines, hu⟩ := isDump_pairDump.exists_unit
  obtain ⟨v, hvlines, hv⟩ := isDump_boxDump.exists_unit
  have hsizes := enumsHaveSize_clash hu hv
  have hfirst := u.hasRead (hsizes.mono fun r hr => by
    rw [List.mem_singleton.mp hr]
    exact List.mem_cons_self)
  have hhex : StartsHexadecimal v.lines := hvlines ▸ isDump_boxDump.isUnit.2
  obtain ⟨c, hrun, hover, hc⟩ := hfirst.step v hsizes fun _ _ _ => hhex
  have hreads := u.reads
  rw [hulines] at hreads
  rw [hvlines] at hrun
  exact ⟨u, v, c, hulines, hvlines, hu, hv, (run_readLines_append hreads).trans hrun, hover, hc⟩

/-- The second of two units with one id keeps its structure. -/
theorem run_publish_separate : ∃ (u v : CompileUnit) (r : Reader), u.lines = pairDump ∧
    v.lines = boxDump ∧ EnumsHaveSize [u.reader, v.reader] ∧
    v.IsSeparate [u] [] "B" ∧
    (do readLines ("" :: ([u, v].flatMap CompileUnit.lines)); publish : ReadM Unit).run {} = .ok () r ∧
    SameOutcome (v.alone.types.slotsOf "B") (r.types.slotsOf "B") := by
  obtain ⟨u, v, -, hulines, hvlines, hu, hv, -⟩ := exists_clash
  have hsizes := enumsHaveSize_clash hu hv
  have hseparate := isSeparate_box hu hv
  have hhex : StartsHexadecimal v.lines := hvlines ▸ isDump_boxDump.isUnit.2
  obtain ⟨r, hrun, -, -, hsame⟩ := run_publish_units [""] [u, v] (by decide) hsizes
    (List.pairwise_pair.mpr fun _ => hhex)
  exact ⟨u, v, r, hulines, hvlines, hsizes, hseparate, hrun, hsame [u] v [] rfl "B" rfl hseparate⟩

/-- The first does not: no name is declared twice, and still its structure holds members of the other
unit. -/
theorem slotsOf_clash : ∃ (u v : CompileUnit) (r : Reader), u.lines = pairDump ∧ v.lines = boxDump ∧
    (∀ x ∈ u.reader.unit.keys, isUnnamed x = false → x ∉ v.reader.unit.keys) ∧
    u.reader.enums = ∅ ∧ v.reader.enums = ∅ ∧
    (do readLines (pairDump ++ boxDump); publish : ReadM Unit).run {} = .ok () r ∧
    u.alone.types.slotsOf "A" = ⟨#[⟨"A.n", 0⟩, ⟨"A.s.x", 4⟩], none⟩ ∧
    r.types.slotsOf "A" = ⟨#[⟨"A.n", 0⟩, ⟨"A.s.y", 4⟩, ⟨"A.s.z", 8⟩], none⟩ := by
  obtain ⟨u, v, c, hulines, hvlines, hu, hv, hrun, hover, hc⟩ := exists_clash
  obtain ⟨r, hpublish, hr⟩ := run_publish hc.own hc.publishable
  refine ⟨u, v, r, hulines, hvlines, ?_, hu.enums, hv.enums, (run_bind_of_eq hrun).trans hpublish,
    ?_, ?_⟩
  · rw [hu.unit, hv.unit]
    decide
  · rw [types_pair hu]
    cbv
  · rw [hr.types, types_both hu hv hover]
    cbv

end CpuTrace.Dump
