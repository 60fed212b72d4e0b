import CpuTrace.Proofs.UnitPublishing
import Mathlib

/-!
# Tables of any dump

Whatever the lines of a dump are, as long as they are read without a fault, the table of types that
the reader has published is **plain** (`IsPlainTable`): every member has a plain type.

The invariant (`Reader.IsSteady`) holds before the first statement, where nothing is declared, and
from the first statement on, where the reader is inside a unit even if no line has started one. A
statement keeps it: it leaves the published table alone, or it starts a unit, which publishes the
last one (`Reader.IsSteady.readLine`). So it holds after every run (`Reader.IsSteady.readLines`), and
publishing once more gives a plain table (`isPlainTable_of_ofText`).
-/

namespace CpuTrace.Dump

/-- All members of a table have plain types. -/
def IsPlainTable (types : TypeTable) : Prop :=
  ∀ e ∈ types.entries, ∀ m ∈ e.2.members.values, IsPlain m.type

/-- What the unit of a reader has declared: structures of its own, and raw types. -/
structure Reader.IsRawUnit (r : Reader) : Prop where
  /-- structures are the unit's own, and the types of their members raw -/
  own : ∀ e ∈ r.unit.entries, ∃ l, e.2 = .own l ∧ ∀ m ∈ l.members.values, IsRaw m.type
  /-- ids stand for raw types -/
  ids : ∀ t ∈ r.ids.values, IsRaw t

/-- A reader before the first statement. -/
structure Reader.IsFresh (r : Reader) : Prop where
  /-- no statement has been read -/
  level : r.level < 0
  /-- none is open -/
  stack : r.stack = []
  /-- no structure is declared -/
  unit : r.unit = ∅
  /-- nor any type -/
  ids : r.ids = ∅
  /-- sizes are written in decimal or in hexadecimal -/
  radix : r.radix ≠ .marked

/-- **What holds of a reader between any two lines.** -/
structure Reader.IsSteady (r : Reader) : Prop where
  /-- it has not started, or it is inside a unit -/
  place : r.IsFresh ∨ r.IsReading
  /-- what is published is plain -/
  types : IsPlainTable r.types

section Steady

variable {r r' : Reader}

theorem Reader.IsReading.isRawUnit (h : r.IsReading) : r.IsRawUnit := ⟨h.own, h.ids⟩

theorem Reader.IsFresh.isRawUnit (h : r.IsFresh) : r.IsRawUnit := by
  refine ⟨fun e he => ?_, fun t ht => ?_⟩
  · rw [h.unit] at he
    exact absurd he List.not_mem_nil
  · rw [h.ids] at ht
    exact absurd ht List.not_mem_nil

/-- Before the first statement and inside a unit, structures and ids have raw types. -/
theorem Reader.IsSteady.isRawUnit (h : r.IsSteady) : r.IsRawUnit :=
  h.place.elim (·.isRawUnit) (·.isRawUnit)

theorem Reader.IsSteady.isPlaced (h : r.IsSteady) : r.IsPlaced :=
  h.place.imp_left fun h => ⟨h.level, h.stack⟩

theorem Reader.IsRawUnit.isOwn (h : r.IsRawUnit) : r.IsOwn :=
  fun e he => (h.own e he).imp fun _ hl => hl.1

/-! ## Publishing -/

/-- What a unit adds to a plain table is plain. -/
theorem isPlainTable_joinedTypes (h : r.IsRawUnit) (htypes : IsPlainTable r.types)
    (hpublishable : Publishable r) : IsPlainTable r.joinedTypes := by
  intro e he m hm
  rcases (find?_joinedTypes h.isOwn).mp (Table.find?_eq_some_iff.mpr he) with hown | ⟨-, hold⟩
  · exact isPlain_of_mem_resolvedLayouts h.own h.ids hpublishable hown hm
  · exact htypes _ (Table.find?_eq_some_iff.mp hold) m hm

/-- What is published is plain. -/
theorem isPlainTable_publishedTypes (h : r.IsRawUnit) (htypes : IsPlainTable r.types)
    (hpublishable : Publishable r) : IsPlainTable r.publishedTypes := by
  intro e he m hm
  obtain ⟨-, l, hl, heq⟩ := find?_publishedTypes.mp (Table.find?_eq_some_iff.mpr he)
  rw [heq] at hm
  obtain ⟨n, hn, rfl⟩ := mem_values_mapMembers.mp hm
  exact isPlain_mergeMember
    (isPlainTable_joinedTypes h htypes hpublishable _ (Table.find?_eq_some_iff.mp hl) n hn)

/-- **Publishing keeps the table plain.** -/
theorem isPlainTable_of_run_publish (h : r.IsRawUnit) (htypes : IsPlainTable r.types)
    (hrun : publish.run r = .ok () r') : IsPlainTable r'.types := by
  obtain ⟨hpublishable, hpublishes⟩ := of_run_publish h.isOwn hrun
  rw [hpublishes.types]
  exact isPlainTable_publishedTypes h htypes hpublishable

/-! ## Statements inside a unit -/

/-- A step that lifts leaves the published types alone. -/
theorem Lifts.types_eq {α : Type} {P : α → Prop} {x : ReadM α} {v : α} (hx : Lifts P x)
    (hr : r.IsReading) (h : x.run r = .ok v r') : r'.types = r.types := by
  have hover : Over r r r := ⟨r.enums, r.locals, rfl, fun name => by simp⟩
  obtain ⟨-, -, hlift⟩ := hx r v r' hr h
  obtain ⟨s, hs, enums, locals, heq, -⟩ := hlift r r hover
  obtain rfl : r' = s := by
    rw [h] at hs
    cases hs
    rfl
  rw [heq]

/-- The start of a unit publishes the last one, and declares nothing yet. -/
theorem isSteady_of_run_startUnit (hr : r.IsReading) (htypes : IsPlainTable r.types)
    (h : startUnit.run r = .ok () r') : r'.IsReading ∧ IsPlainTable r'.types := by
  obtain ⟨_, s, hpublish, hclear⟩ := run_bind_eq_ok_iff.mp h
  obtain ⟨-, hs⟩ := of_run_publish hr.isOwn hpublish
  have hplain := isPlainTable_of_run_publish hr.isRawUnit htypes hpublish
  cases hclear
  refine ⟨⟨fun e he => absurd he List.not_mem_nil, fun t ht => absurd ht List.not_mem_nil, ?_, ?_,
    ?_, ?_⟩, hplain⟩
  · exact hs.level ▸ hr.level
  · exact hs.stack ▸ hr.stack
  · intro hlevel
    exact hs.stack ▸ hr.top (hs.level ▸ hlevel)
  · exact hs.radix ▸ hr.radix

/-- A statement opens, and then declares something, given the one that encloses it. -/
theorem of_run_readStatement {s : Statement} (h : (readStatement s).run r = .ok () r') :
    ∃ level r₁, Numeral.read .decimal s.level = .ok level ∧
      (openFrame level ⟨s.kind, s.id⟩).run r = .ok () r₁ ∧
      (declare s r₁.parent?).run r₁ = .ok () r' := by
  obtain ⟨level, _, hfirst, hrest⟩ := run_bind_eq_ok_iff.mp h
  obtain ⟨hread, rfl⟩ := run_ofExcept_eq_ok_iff.mp hfirst
  obtain ⟨_, r₁, hopen, hdeclare⟩ := run_bind_eq_ok_iff.mp hrest
  rw [run_bind_of_eq (EStateM.run_get _)] at hdeclare
  exact ⟨level, r₁, hread, hopen, hdeclare⟩

/-- **A statement inside a unit** keeps what is published plain. -/
theorem isSteady_of_run_readStatement {s : Statement} (htexts : s.attributes.AreTexts)
    (hlevel : ∀ n, Numeral.read .decimal s.level = .ok n → 0 ≤ n) (hr : r.IsReading)
    (htypes : IsPlainTable r.types) (h : (readStatement s).run r = .ok () r') :
    r'.IsReading ∧ IsPlainTable r'.types := by
  by_cases hkind : Tag.ofKind s.kind = .compileUnit
  · obtain ⟨level, r₁, hread, hopen, hdeclare⟩ := of_run_readStatement h
    have hlift := lifts_openFrame (hlevel level hread) ⟨s.kind, s.id⟩
    obtain ⟨-, hr₁, -⟩ := hlift _ _ _ hr hopen
    have htypes₁ : IsPlainTable r₁.types := hlift.types_eq hr hopen ▸ htypes
    rw [declare.eq_def, hkind] at hdeclare
    exact isSteady_of_run_startUnit hr₁ htypes₁ hdeclare
  · have hlift := lifts_readStatement htexts hkind hlevel
    exact ⟨(hlift _ _ _ hr h).2.1, hlift.types_eq hr h ▸ htypes⟩

/-! ## The first statement -/

/-- The first statement opens the outermost frame, as it would in the place of another one. -/
theorem run_readStatement_of_isFresh {s : Statement} {n : Int}
    (hread : Numeral.read .decimal s.level = .ok n) (hn : 0 ≤ n) (hr : r.IsFresh) :
    (readStatement s).run r =
      (readStatement s).run { r with level := n, stack := [⟨s.kind, s.id⟩] } := by
  have hlevel := hr.level
  have hopen : (openFrame n ⟨s.kind, s.id⟩).run r =
      (openFrame n ⟨s.kind, s.id⟩).run { r with level := n, stack := [⟨s.kind, s.id⟩] } := by
    simp only [openFrame, EStateM.run_bind, EStateM.run_get]
    rw [if_pos (by omega), if_neg (by simp)]
    simp [hr.stack]
  rw [readStatement, hread]
  simp only [EStateM.run_bind, run_ofExcept_ok, hopen]

theorem Reader.IsFresh.isReading (hr : r.IsFresh) {n : Int} (hn : 0 ≤ n) (frame : Frame) :
    Reader.IsReading { r with level := n, stack := [frame] } :=
  ⟨hr.isRawUnit.own, hr.isRawUnit.ids, hn, by simp, fun _ => rfl, hr.radix⟩

/-- A local variable is collected, and nothing else changes. -/
theorem exists_of_run_declareLocal {a : Attributes} (h : (declareLocal a).run r = .ok () r') :
    ∃ unitLocals, r' = { r with unitLocals } := by
  rw [declareLocal] at h
  split at h
  · obtain ⟨name, r₁, hname, h₁⟩ := run_bind_eq_ok_iff.mp h
    obtain ⟨-, rfl⟩ := run_ofExcept_eq_ok_iff.mp hname
    rw [run_bind_of_eq (EStateM.run_get _)] at h₁
    obtain ⟨line, r₂, hline, h₂⟩ := run_bind_eq_ok_iff.mp h₁
    obtain ⟨-, rfl⟩ := run_ofExcept_eq_ok_iff.mp hline
    obtain ⟨text, r₃, htext, h₃⟩ := run_bind_eq_ok_iff.mp h₂
    obtain ⟨-, rfl⟩ := run_ofExcept_eq_ok_iff.mp htext
    dsimp only at h₃
    split at h₃
    · rw [run_bind_of_eq (EStateM.run_pure _ _)] at h₃
      obtain ⟨type, r₄, htype, h₄⟩ := run_bind_eq_ok_iff.mp h₃
      obtain ⟨-, rfl⟩ := run_ofExcept_eq_ok_iff.mp htype
      cases h₄
      exact ⟨_, rfl⟩
    · cases h₃
  · cases h
    exact ⟨_, rfl⟩

/-! ## Runs -/

theorem Reader.IsSteady.withRadix (hr : r.IsSteady) (h : Header) :
    Reader.IsSteady { r with radix := h.radix r.radix } := by
  have hradix : h.radix r.radix ≠ .marked := by
    rw [Header.radix]
    split
    · simp
    · exact hr.place.elim (·.radix) (·.radix)
  refine ⟨hr.place.imp (fun hr => ?_) fun hr => ?_, hr.types⟩
  · exact ⟨hr.level, hr.stack, hr.unit, hr.ids, hradix⟩
  · exact ⟨hr.own, hr.ids, hr.level, hr.stack, hr.top, hradix⟩

/-- A variable or a parameter goes to the unit's local variables. -/
theorem Reader.IsSteady.declareLocal (hr : r.IsSteady) {a : Attributes}
    (h : (declareLocal a).run r = .ok () r') : r'.IsSteady := by
  obtain ⟨unitLocals, rfl⟩ := exists_of_run_declareLocal h
  refine ⟨hr.place.imp (fun hr => ?_) fun hr => ?_, hr.types⟩
  · exact ⟨hr.level, hr.stack, hr.unit, hr.ids, hr.radix⟩
  · exact ⟨hr.own, hr.ids, hr.level, hr.stack, hr.top, hr.radix⟩

/-- **Every statement** keeps the invariant, the first one too. -/
theorem Reader.IsSteady.readStatement (hr : r.IsSteady) {s : Statement}
    (htexts : s.attributes.AreTexts)
    (hlevel : ∀ n, Numeral.read .decimal s.level = .ok n → 0 ≤ n)
    (h : (readStatement s).run r = .ok () r') : r'.IsSteady := by
  rcases hr.place with hfresh | hreading
  · obtain ⟨n, -, hn, -, -⟩ := of_run_readStatement h
    rw [run_readStatement_of_isFresh hn (hlevel n hn) hfresh] at h
    obtain ⟨hreading, htypes⟩ := isSteady_of_run_readStatement htexts hlevel
      (hfresh.isReading (hlevel n hn) _) hr.types h
    exact ⟨.inr hreading, htypes⟩
  · obtain ⟨hreading, htypes⟩ := isSteady_of_run_readStatement htexts hlevel hreading hr.types h
    exact ⟨.inr hreading, htypes⟩

/-- **Every line** keeps the invariant. -/
theorem Reader.IsSteady.readLine (hr : r.IsSteady) {line : String}
    (h : (readLine line).run r = .ok () r') : r'.IsSteady := by
  rcases hparse : Line.parse? line with _ | l
  · rw [Dump.readLine, hparse] at h
    cases h
    exact hr
  by_cases hlocal : isLocalKind l.header.kind = true
  · rw [run_readLine_of_local hparse hlocal] at h
    exact (hr.withRadix l.header).declareLocal h
  · rw [run_readLine_of_parse? hparse (Bool.eq_false_iff.mpr hlocal)] at h
    have hlevel : ∀ n, Numeral.read .decimal l.header.level = .ok n → 0 ≤ n :=
      fun n hn => Line.level_nonneg hparse hn
    exact (hr.withRadix l.header).readStatement (s := l.statement) l.areTexts_values hlevel h

/-- So do any number of lines. -/
theorem Reader.IsSteady.readLines {lines : List String} :
    ∀ {r : Reader}, r.IsSteady → (readLines lines).run r = .ok () r' → r'.IsSteady := by
  induction lines with
  | nil =>
    intro r hr h
    cases h
    exact hr
  | cons line lines ih =>
    intro r hr h
    obtain ⟨_, s, hline, hlines⟩ := run_bind_eq_ok_iff.mp h
    exact ih (hr.readLine hline) hlines

theorem isSteady_default : ({} : Reader).IsSteady :=
  ⟨.inl ⟨by decide, rfl, rfl, rfl, by decide⟩, fun _ he => absurd he List.not_mem_nil⟩

/-- **What a dump publishes is plain.** -/
theorem isPlainTable_of_ofText {text : String} (hread : Reader.ofText text = .ok r)
    (hpublish : publish.run r = .ok () r') : IsPlainTable r'.types := by
  rw [Reader.ofText] at hread
  split at hread
  · next _ r₀ hrun =>
    cases hread
    have hsteady := isSteady_default.readLines hrun
    exact isPlainTable_of_run_publish hsteady.isRawUnit hsteady.types hpublish
  · cases hread

end Steady

end CpuTrace.Dump
