import CpuTrace.Dump.Listing
import CpuTrace.Proofs.OpenStatements
import CpuTrace.Proofs.Publishing
import CpuTrace.Proofs.Spine
import CpuTrace.Proofs.TextFaults
import Mathlib

/-!
# Changes

A fault ends one step of a reader and keeps what the step has done so far, and reading goes on from
there. So what holds of a reader at all times has to hold after every part of a step, not only at its
end. This module says once what the parts are.

`Change` lists them: each is one update of the tables, and none touches the place in the dump, its
level or its open statements. `Changes` are any number of them. A step **makes** changes (`Makes`) if
it leads to nothing else, with or without a fault (`after`), and its faults can be explained
(`Reader.Explains`) by the texts of the dump, or by a type among those in use that does not name
anything.

The main statements are `makes_publish` and `makes_declare`: publishing a unit makes changes, and so
does a statement whose attributes are texts, apart from the name that it gives to its place in the
stack.
-/

namespace CpuTrace.Dump

/-! ## Changes of a reader -/

/-- What a dump can put at the end of a type: a text, or a name that is no reference. -/
abbrev IsGiven : TypeExpr → Prop := IsEnd (isReference · = false) []

/-- What a member is declared with: a text, or its bits. -/
abbrev IsMemberType : TypeExpr → Prop := IsEnd (fun _ => False) ["BitField"]

/-- **What can happen to a reader**, apart from a statement that takes its place. The names of
structures, unions and enumerations are those that `isName` allows. -/
inductive Change (isName : String → Prop) (r : Reader) : Reader → Prop
  /-- an id stands for a structure, a union or an enumeration -/
  | name (id : String) {name : String} (h : isName name) :
    Change isName r (r.declare id (.named name))
  /-- an id stands for another type -/
  | type (id : String) (s : Spine) {t : TypeExpr} (h : IsGiven t) :
    Change isName r (r.declare id (s.plug t))
  /-- an array has one more bound -/
  | bound {id : String} {t : TypeExpr} (count : Int) (h : r.ids.find? id = some t) :
    Change isName r (r.declare id (.array count t))
  /-- the unit has a structure or a union, without members -/
  | layout (name : String) (size : Int) :
    Change isName r { r with unit := r.unit.insert name (.own ⟨size, ∅⟩) }
  /-- an enumeration, or one more of its values -/
  | enums (enums : Table String Enumeration) : Change isName r { r with enums }
  /-- a structure or a union has one more member -/
  | member {parent : String} {l : Layout} (name : String) (offset : Int) {t : TypeExpr}
    (h : r.unitLayout? parent = some l) (ht : IsMemberType t) :
    Change isName r (r.setUnitLayout parent { l with members := l.members.insert name ⟨offset, t⟩ })
  /-- the unit has a global variable -/
  | datum (name : String) (address : Int) (s : String) :
    Change isName r { r with unitGlobals := r.unitGlobals.insert name ⟨address, .text s⟩ }
  /-- local variables -/
  | locals (locals unitLocals : List Local) : Change isName r { r with locals, unitLocals }
  /-- the members of a structure lose their references, up to a fault -/
  | resolve {name : String} {l : Layout} (h : r.unitLayout? name = some l) :
    Change isName r (r.setUnitLayout name (resolveLayout r.ids l).1)
  /-- the structures of the unit join the others -/
  | publishTypes : Change isName r r.publishTypes
  /-- its global variables do -/
  | publishGlobals {vs : List (String × Variable)}
    (h : resolveGlobals r.ids r.unitGlobals.entries = .ok vs) :
    Change isName r { r with unitGlobals := .ofList vs, globals := r.globals.update (.ofList vs) }
  /-- unnamed structures are dropped -/
  | prune : Change isName r (r.withTypes (pruned r.types r.globals))
  /-- enumerations are written into members, up to a fault -/
  | merge : Change isName r { r with types := (r.types.sweep fun _ l => mergeLayout r.enums l).1 }
  /-- a unit ends -/
  | clear : Change isName r { r with unit := ∅, unitGlobals := ∅, ids := ∅ }
  /-- numbers are read another way -/
  | radix (radix : Radix) : Change isName r { r with radix }

/-- Any number of changes, one after the other. -/
def Changes (isName : String → Prop) : Reader → Reader → Prop := Relation.ReflTransGen (Change isName)

section Changes

variable {isName : String → Prop} {r r' r'' : Reader}

theorem Changes.refl (isName : String → Prop) (r : Reader) : Changes isName r r :=
  Relation.ReflTransGen.refl

theorem Changes.trans (h : Changes isName r r') (h' : Changes isName r' r'') : Changes isName r r'' :=
  Relation.ReflTransGen.trans h h'

theorem Changes.tail (h : Changes isName r r') (h' : Change isName r' r'') : Changes isName r r'' :=
  Relation.ReflTransGen.tail h h'

/-- A change leaves the place in the dump. -/
theorem Change.place (h : Change isName r r') : r'.level = r.level ∧ r'.stack = r.stack := by
  have hset : ∀ name l, (r.setUnitLayout name l).level = r.level ∧
      (r.setUnitLayout name l).stack = r.stack := by
    intro name l
    rw [Reader.setUnitLayout]
    split <;> exact ⟨rfl, rfl⟩
  cases h with
  | member => exact hset _ _
  | resolve => exact hset _ _
  | _ => exact ⟨rfl, rfl⟩

/-- So do any number of them. -/
theorem Changes.place (h : Changes isName r r') : r'.level = r.level ∧ r'.stack = r.stack := by
  induction h with
  | refl => exact ⟨rfl, rfl⟩
  | tail _ h ih => exact ⟨h.place.1.trans ih.1, h.place.2.trans ih.2⟩

end Changes

/-! ## Steps that make changes -/

/-- The reader after a step, whether it ends with a fault or not. -/
def after {α : Type} (x : ReadM α) (r : Reader) : Reader :=
  match x.run r with
  | .ok _ r' => r'
  | .error _ r' => r'

/-- The reader accounts for a fault: a text is to blame, or a type in use that names nothing. -/
def Reader.Explains (r : Reader) (e : Fault) : Prop :=
  IsPlainFault e ∨ e = .illTyped ∧ ¬ (usedNames r.types r.globals).all isAtom = true

/-- A fault that can be explained is not that of a statement without a place. -/
theorem Reader.Explains.ne_noFrame {r : Reader} {e : Fault} (h : r.Explains e) : e ≠ .noFrame := by
  rintro rfl
  rcases h with h | ⟨h, -⟩
  · exact h
  · cases h

/-- From one reader a step leads to changes of another, and its fault is explained. -/
structure Makes {α : Type} (isName : String → Prop) (start : Reader) (x : ReadM α) (r : Reader) :
    Prop where
  /-- where it leads, with or without a fault -/
  changes : Changes isName start (after x r)
  /-- the fault -/
  explained : ∀ e r', x.run r = .error e r' → r'.Explains e

namespace Makes

variable {α β : Type} {isName : String → Prop} {start r : Reader}

/-- A step that does nothing makes no more changes. -/
theorem stay {v : α} (h : Changes isName start r) : Makes isName start (pure v) r where
  changes := h
  explained := by
    intro e r' h
    cases h

/-- A step that fails has to explain it, and keeps the changes so far. -/
theorem fail {e : Fault} (h : Changes isName start r) (he : r.Explains e) :
    Makes isName start (throw e : ReadM α) r where
  changes := h
  explained := by
    intro e' r' h
    cases h
    exact he

theorem store {s : Reader} (h : Changes isName start s) :
    Makes isName start (set s : ReadM PUnit) r where
  changes := h
  explained := by
    intro e r' h
    cases h

/-- An update of the reader has to be a change. -/
theorem update {f : Reader → Reader} (h : Changes isName start (f r)) :
    Makes isName start (modify f : ReadM PUnit) r where
  changes := h
  explained := by
    intro e r' h
    cases h

/-- **Steps that make changes can be put one after the other**: a fault of the first ends both, and
what it has done so far are changes too. -/
theorem bind {x : ReadM α} {f : α → ReadM β} (hx : Makes isName start x r)
    (hf : ∀ v r', Changes isName start r' → Makes isName start (f v) r') :
    Makes isName start (x >>= f) r := by
  obtain ⟨hchanges, hexplained⟩ := hx
  rw [after] at hchanges
  rcases hrun : x.run r with ⟨v, r'⟩ | ⟨e, r'⟩
  · rw [hrun] at hchanges
    have hrest := hf v r' hchanges
    have heq : (x >>= f).run r = (f v).run r' := run_bind_of_eq hrun
    exact ⟨by rw [after, heq]; exact hrest.changes, fun e r'' h => hrest.explained e r'' (heq ▸ h)⟩
  · rw [hrun] at hchanges
    have heq : (x >>= f).run r = .error e r' := by rw [EStateM.run_bind, hrun]
    refine ⟨by rw [after, heq]; exact hchanges, fun e' r'' h => ?_⟩
    rw [heq] at h
    cases h
    exact hexplained e r' hrun

/-- Only what a step does matters, not how it is written. -/
theorem of_run_eq {x y : ReadM α} {r' : Reader} (heq : x.run r = y.run r')
    (h : Makes isName start y r') : Makes isName start x r := by
  refine ⟨?_, fun e s hs => h.explained e s (heq ▸ hs)⟩
  rw [after, heq]
  exact h.changes

theorem get_bind {f : Reader → ReadM α} (h : Makes isName start (f r) r) :
    Makes isName start (get >>= f) r :=
  of_run_eq (run_bind_of_eq (EStateM.run_get _)) h

theorem set_bind {s : Reader} {f : PUnit → ReadM α} (h : Makes isName start (f ⟨⟩) s) :
    Makes isName start (set s >>= f) r :=
  of_run_eq (run_bind_of_eq (EStateM.run_set _ _)) h

theorem modify_bind {g : Reader → Reader} {f : PUnit → ReadM α}
    (h : Makes isName start (f ⟨⟩) (g r)) : Makes isName start (modify g >>= f) r :=
  of_run_eq (run_bind_of_eq (EStateM.run_modify _ _)) h

/-- A value that is looked up is known afterwards. -/
theorem ofExcept_bind {x : Except Fault α} {f : α → ReadM β} (h : Changes isName start r)
    (hx : HasPlainFaults x) (hf : ∀ v, x = .ok v → Makes isName start (f v) r) :
    Makes isName start (ofExcept x >>= f) r := by
  rcases x with e | v
  · exact fail h (.inl (hx e rfl))
  · exact hf v rfl

/-- A loop makes changes if each round does, from wherever it starts. -/
theorem forM {f : α → ReadM PUnit}
    (hf : ∀ a r', Changes isName start r' → Makes isName start (f a) r') (as : List α) :
    ∀ r, Changes isName start r → Makes isName start (as.forM f) r := by
  induction as with
  | nil => exact fun r h => stay h
  | cons a as ih => exact fun r h => bind (hf a r h) fun _ r' h' => ih r' h'

end Makes

/-! ## Publishing -/

/-- Members are resolved up to the first fault, which is one of a reference. -/
theorem isPlainFault_of_snd_resolveLayout {ids : IdTable} {l : Layout} {e : Fault}
    (h : (resolveLayout ids l).2 = some e) : IsPlainFault e := by
  obtain ⟨m, -, hm⟩ := Table.exists_of_snd_sweep h
  rw [resolveMember] at hm
  rcases hresolve : ids.resolve m.2.type with e' | t
  · rw [hresolve] at hm
    cases hm
    exact hasPlainFaults_resolve ids _ e hresolve
  · rw [hresolve] at hm
    cases hm

/-- An enumeration is written unless no integer has its size. -/
theorem isPlainFault_of_snd_mergeMember {enums : Table String Enumeration} {m : Member} {e : Fault}
    (h : (mergeMember enums m).2 = some e) : IsPlainFault e := by
  have hexpr : ∀ d : Enumeration, HasPlainFaults d.expr := by
    intro d
    rw [Enumeration.expr]
    rcases hsize : integerOfSize d.size with f | target
    · exact .error (hasPlainFaults_integerOfSize d.size f hsize)
    · exact .ok _
  rw [mergeMember] at h
  split at h
  · split at h
    · cases h
    · next d _ =>
      split at h
      · cases h
      · next hf =>
        cases h
        exact hexpr d e hf
  · cases h

theorem isPlainFault_of_snd_mergeLayout {enums : Table String Enumeration} {l : Layout} {e : Fault}
    (h : (mergeLayout enums l).2 = some e) : IsPlainFault e := by
  obtain ⟨m, -, hm⟩ := Table.exists_of_snd_sweep h
  exact isPlainFault_of_snd_mergeMember hm

section Steps

variable {isName : String → Prop} {start r : Reader}

/-- The members of one structure lose their references, up to a fault. -/
theorem makes_resolveEntry (name : String) (h : Changes isName start r) :
    Makes isName start (resolveEntry name) r := by
  rw [resolveEntry]
  refine .get_bind ?_
  split
  · exact .stay h
  · next l hl =>
    have hstep := h.tail (.resolve hl)
    refine .set_bind ?_
    split
    · next e he => exact .fail hstep (.inl (isPlainFault_of_snd_resolveLayout he))
    · exact .stay hstep

theorem makes_resolveUnit (h : Changes isName start r) : Makes isName start resolveUnit r :=
  .get_bind (.forM (fun name _ h => makes_resolveEntry name h) _ r h)

/-- Global variables join the others all at once, or not at all. -/
theorem makes_publishGlobals (h : Changes isName start r) : Makes isName start publishGlobals r := by
  rw [publishGlobals]
  refine .get_bind (.ofExcept_bind h (hasPlainFaults_resolveGlobals _ _) fun vs hvs => ?_)
  exact .store (h.tail (.publishGlobals hvs))

/-- So do local variables. -/
theorem makes_publishLocals (h : Changes isName start r) : Makes isName start publishLocals r := by
  rw [publishLocals]
  refine .get_bind (.ofExcept_bind h (hasPlainFaults_resolveLocals _ _) fun vs _ => ?_)
  exact .store (h.tail (.locals _ _))

/-- Unnamed structures are dropped, unless a type in use does not name anything. -/
theorem makes_prune (h : Changes isName start r) : Makes isName start prune r := by
  rw [prune]
  refine .get_bind ?_
  split
  · exact .store (h.tail .prune)
  · next hatoms => exact .fail h (.inr ⟨rfl, hatoms⟩)

/-- Enumerations are written into all members, up to a fault. -/
theorem makes_mergeEnums (h : Changes isName start r) : Makes isName start mergeEnums r := by
  rw [mergeEnums]
  have hstep := h.tail .merge
  refine .get_bind (.set_bind ?_)
  split
  · next e he =>
    obtain ⟨l, -, hl⟩ := Table.exists_of_snd_sweep he
    exact .fail hstep (.inl (isPlainFault_of_snd_mergeLayout hl))
  · exact .stay hstep

/-- **Publishing makes changes**, and its faults are explained. -/
theorem makes_publish (h : Changes isName start r) : Makes isName start publish r := by
  refine .bind (makes_resolveUnit h) fun _ r h => ?_
  refine .modify_bind (.bind (makes_publishGlobals (h.tail .publishTypes)) fun _ r h => ?_)
  refine .bind (makes_publishLocals h) fun _ r h => ?_
  exact .bind (makes_prune h) fun _ r h => makes_mergeEnums h

/-! ## Statements -/

/-- A member is one change, if the structure is there. -/
theorem makes_addMember {parent name : String} {m : Member} (hm : IsMemberType m.type)
    (h : Changes isName start r) : Makes isName start (addMember parent name m) r := by
  rw [addMember]
  refine .get_bind ?_
  split
  · next l hl => exact .store (h.tail (.member name m.offset hl hm))
  · exact .fail h (.inl trivial)

section Declare

variable {s : Statement}

/-- The name that a statement gives to what it declares: its own, without quotes, or one made from
its id. -/
def Statement.givenName (s : Statement) : String :=
  match s.attributes.find? "DW_AT_name" with
  | some (.text name) => Text.strip '"' name
  | _ => Text.strip '"' (unnamed s.id)

/-- The name of a statement while it is open: structures, unions and enumerations are called by their
name, all others by their id. -/
def Statement.label (s : Statement) : String :=
  match Tag.ofKind s.kind with
  | .struct | .union | .enumeration => s.givenName
  | _ => s.id

/-- The place of a statement among the open ones. -/
def Statement.frame (s : Statement) : Frame := ⟨s.kind, s.label⟩

/-- A statement always has a name. -/
theorem Attributes.AreTexts.nameOr (h : s.attributes.AreTexts) :
    s.attributes.nameOr s.id = .ok s.givenName := by
  rw [Attributes.nameOr, Statement.givenName]
  rcases hfind : s.attributes.find? "DW_AT_name" with _ | t
  · rfl
  · obtain ⟨name, rfl⟩ := h _ t hfind
    rfl

/-- The scalar of a base type is no reference. -/
theorem isReference_scalarName {radix : Radix} {a : Attributes} {name : String}
    (h : scalarName radix a = .ok name) : isReference name = false := by
  have hall : ∀ s ∈ baseNames, isReference s = false := by decide
  exact hall name (IsBaseName.mem ⟨radix, a, h⟩)

/-- A member of a structure is added with its offset and its type, if it has a location. -/
theorem makes_declareStructMember (htexts : s.attributes.AreTexts) (parent : String)
    (h : Changes isName start r) : Makes isName start (declareStructMember parent s) r := by
  rw [declareStructMember, htexts.nameOr]
  refine .ofExcept_bind h (.ok _) fun name _ => ?_
  split
  · refine .ofExcept_bind h (.bind (htexts.text _) hasPlainFaults_memberOffset) fun offset _ => ?_
    refine .get_bind (.ofExcept_bind h (htexts.memberType _) fun type htype => ?_)
    exact makes_addMember (htexts.isEnd_memberType List.mem_cons_self htype) h
  · exact .stay h

/-- A member of a union needs no offset. -/
theorem makes_declareUnionMember (htexts : s.attributes.AreTexts) (parent : String)
    (h : Changes isName start r) : Makes isName start (declareUnionMember parent s) r := by
  rw [declareUnionMember, htexts.nameOr]
  refine .ofExcept_bind h (.ok _) fun name _ => ?_
  refine .ofExcept_bind h (hasPlainFaults_expr _ _) fun type htype => ?_
  obtain ⟨t, rfl⟩ := htexts.exists_text htype
  exact makes_addMember (.text t) h

/-- A value of an enumeration is one change. -/
theorem makes_declareEnumerator (htexts : s.attributes.AreTexts) (parent : String)
    (h : Changes isName start r) : Makes isName start (declareEnumerator parent s) r := by
  rw [declareEnumerator]
  refine .ofExcept_bind h (htexts.text _) fun name _ => .get_bind ?_
  refine .ofExcept_bind h (htexts.numberBy (hasPlainFaults_enumeratorValue _) _) fun value _ => ?_
  refine .get_bind ?_
  split
  · exact .store (h.tail (.enums _))
  · exact .fail h (.inl trivial)

/-- So is the bound of an array. -/
theorem makes_declareBound (htexts : s.attributes.AreTexts) (parent : String)
    (h : Changes isName start r) : Makes isName start (declareBound parent s) r := by
  have helement : ∀ count : Int, Makes isName start (do
      let element ← ofExcept ((← get).ids.get parent)
      modify fun r => r.declare parent (.array count element) : ReadM Unit) r := by
    intro count
    refine .get_bind (.ofExcept_bind h (hasPlainFaults_get _ _) fun element helement => ?_)
    exact .update (h.tail (.bound count (IdTable.get_eq_ok_iff.mp helement)))
  rw [declareBound]
  split
  · refine .ofExcept_bind h (.map _ (htexts.numberBy (fun _ => .ok _) _)) fun count _ => ?_
    exact helement count
  · exact helement 0

/-- So is a global variable, if it has an address. -/
theorem makes_declareGlobal (htexts : s.attributes.AreTexts) (h : Changes isName start r) :
    Makes isName start (declareGlobal s) r := by
  rw [declareGlobal]
  split
  · refine .ofExcept_bind h (htexts.text _) fun location _ => ?_
    split
    · exact .stay h
    · refine .ofExcept_bind h (hasPlainFaults_read _ _) fun address _ => ?_
      refine .ofExcept_bind h (hasPlainFaults_expr _ _) fun type htype => ?_
      obtain ⟨t, rfl⟩ := htexts.exists_text htype
      refine .ofExcept_bind h (htexts.tableKey _) fun name _ => ?_
      exact .update (h.tail (.datum name address t))
  · exact .stay h

/-- So is a local variable, if it has a name, a line and a type. -/
theorem makes_declareLocal {a : Attributes} (htexts : a.AreTexts) (h : Changes isName start r) :
    Makes isName start (declareLocal a) r := by
  rw [declareLocal]
  split
  · refine .ofExcept_bind h (hasPlainFaults_expr _ _) fun name _ => .get_bind ?_
    refine .ofExcept_bind h (htexts.number _ _) fun line _ => ?_
    refine .ofExcept_bind h (htexts.text _) fun text _ => ?_
    have hfile : ∀ file r, Changes isName start r → Makes isName start (do
        let type ← ofExcept (a.expr "DW_AT_type")
        modify fun r : Reader => { r with
          unitLocals := r.unitLocals ++ [⟨name, line, file, type⟩] } : ReadM Unit) r := by
      intro file r h
      refine .ofExcept_bind h (hasPlainFaults_expr _ _) fun type _ => ?_
      exact .update (h.tail (.locals _ _))
    dsimp only
    split
    · exact .bind (.stay h) hfile
    · exact .bind (.fail h (.inl trivial)) hfile
  · exact .stay h

/-- The start of a unit publishes the last one, and then clears its tables. -/
theorem makes_startUnit (h : Changes isName start r) : Makes isName start startUnit r := by
  refine .bind (makes_publish h) fun _ r h => .update ?_
  exact (h.tail (.locals (r.locals ++ r.unitLocals) [])).tail .clear

/-- A named type takes its name first, and then what follows makes changes. -/
theorem makes_openNamed {outer : List Frame} {f : String → ReadM Unit}
    (htexts : s.attributes.AreTexts) (hname : isName s.givenName) (hlabel : s.label = s.givenName)
    (hstack : r.stack = outer ++ [⟨s.kind, s.id⟩])
    (hf : ∀ name r', Changes isName { r with stack := outer ++ [s.frame] } r' →
      Makes isName { r with stack := outer ++ [s.frame] } (f name) r') :
    Makes isName { r with stack := outer ++ [s.frame] } (openNamed s >>= f) r := by
  have hlast : r.nameLast s.kind s.givenName = { r with stack := outer ++ [s.frame] } := by
    rw [Reader.nameLast, hstack, List.dropLast_concat, Statement.frame, hlabel]
  have hrun : (openNamed s).run r =
      .ok s.givenName ((r.nameLast s.kind s.givenName).declare s.id (.named s.givenName)) := by
    rw [openNamed, htexts.nameOr]
    rfl
  refine .of_run_eq (run_bind_of_eq hrun) (hf _ _ ?_)
  rw [hlast]
  exact (Changes.refl _ _).tail (.name s.id hname)

/-- **A statement makes changes** once it is open, but for the name of its place, and its faults are
explained. -/
theorem makes_declare {outer : List Frame} (htexts : s.attributes.AreTexts)
    (hname : isName s.givenName) (hstack : r.stack = outer ++ [⟨s.kind, s.id⟩])
    (parent : Option Frame) :
    Makes isName { r with stack := outer ++ [s.frame] } (declare s parent) r := by
  have hid : s.label = s.id → Changes isName { r with stack := outer ++ [s.frame] } r := by
    intro hlabel
    rw [Statement.frame, hlabel, ← hstack]
    exact .refl _ r
  have hvoid : IsGiven (.named "void") := .named rfl
  rw [declare.eq_def]
  cases htag : Tag.ofKind s.kind <;> simp only
  case struct | union =>
    have hlabel : s.label = s.givenName := by simp only [Statement.label, htag]
    refine makes_openNamed htexts hname hlabel hstack fun name r' h => ?_
    split
    · exact .stay h
    · refine .get_bind (.ofExcept_bind h (htexts.number _ _) fun size _ => ?_)
      exact .update (h.tail (.layout name size))
  case enumeration =>
    have hlabel : s.label = s.givenName := by simp only [Statement.label, htag]
    refine makes_openNamed htexts hname hlabel hstack fun name r' h => ?_
    split
    · exact .stay h
    · refine .get_bind (.ofExcept_bind h (htexts.number _ _) fun size _ => ?_)
      exact .update (h.tail (.enums _))
  all_goals have h := hid (by simp only [Statement.label, htag])
  case compileUnit => exact makes_startUnit h
  case array =>
    refine .ofExcept_bind h (hasPlainFaults_expr _ _) fun type htype => ?_
    obtain ⟨t, rfl⟩ := htexts.exists_text htype
    exact .update (h.tail (.type s.id .tip (.text t)))
  case pointer =>
    exact .update (h.tail (.type s.id (.pointer .tip) (htexts.isEnd_getD hvoid _)))
  case base =>
    refine .get_bind (.ofExcept_bind h (htexts.scalarName _) fun name hscalar => ?_)
    exact .update (h.tail (.type s.id .tip (.named (isReference_scalarName hscalar))))
  case qualifier => exact .update (h.tail (.type s.id .tip (htexts.isEnd_getD hvoid _)))
  case blank => exact .update (h.tail (.type s.id .tip (.named rfl)))
  case synonym => exact .update (h.tail (.type s.id .tip (htexts.isEnd_getD (.text _) _)))
  case datum =>
    split
    · exact makes_declareGlobal htexts h
    · exact .stay h
  case member =>
    split
    · split
      · exact makes_declareStructMember htexts _ h
      · exact makes_declareUnionMember htexts _ h
      · exact .stay h
    · exact .stay h
  case enumerator =>
    split
    · split
      · exact makes_declareEnumerator htexts _ h
      · exact .stay h
    · exact .stay h
  case bound =>
    split
    · split
      · exact makes_declareBound htexts _ h
      · exact .stay h
    · exact .stay h
  case other => exact .stay h

end Declare

end Steps

/-! ## Lines -/

/-- A reader that has read a statement has one open. -/
def Reader.IsOpen (r : Reader) : Prop := 0 ≤ r.level → r.stack ≠ []

section Lines

variable {r : Reader} {line : String}

theorem isOpen_default : ({} : Reader).IsOpen := fun h => absurd h (by decide)

/-- Changes keep a statement open, since they leave the place. -/
theorem Makes.isOpen {α : Type} {x : ReadM α} {isName : String → Prop} {start : Reader}
    (hx : Makes isName start x r) (hstart : start.IsOpen) : (after x r).IsOpen := by
  obtain ⟨hlevel, hstack⟩ := hx.changes.place
  rw [Reader.IsOpen, hlevel, hstack]
  exact hstart

/-- A statement finds its place, whatever its level. -/
theorem Reader.IsOpen.run_openFrame (hr : r.IsOpen) (n : Nat) (f : Frame) :
    ∃ outer, ∀ radix, (openFrame n f).run { r with radix } =
      .ok () { r with level := n, stack := outer ++ [f], radix } := by
  simp only [openFrame, EStateM.run_bind, EStateM.run_get]
  by_cases hdeeper : r.level < n
  · exact ⟨r.stack, fun _ => by rw [if_pos hdeeper]; rfl⟩
  · have hstack : r.stack ≠ [] := hr (by omega)
    -- at least one statement stays, since the level is not negative
    have hkept : (if (n : Int) < r.level then keepFirst (n + 1) r.stack else r.stack) ≠ [] := by
      split
      · rw [keepFirst, if_pos (by omega)]
        simp only [ne_eq, List.take_eq_nil_iff, not_or]
        exact ⟨by omega, hstack⟩
      · exact hstack
    simp only [if_neg hdeeper, List.isEmpty_iff, hkept, if_false]
    exact ⟨_, fun _ => rfl⟩

/-- A statement stands on a line that can be read. -/
theorem exists_of_statement? {s : Statement} (h : statement? line = some s) :
    ∃ l, Line.parse? line = some l ∧ isLocalKind l.header.kind = false ∧ l.statement = s := by
  rw [statement?] at h
  split at h
  · next l hparse =>
    split at h
    · cases h
    · next hlocal => exact ⟨l, hparse, Bool.eq_false_iff.mpr hlocal, Option.some.inj h⟩
  · cases h

/-- **A line that shows a statement** opens it, and then declares what it declares. -/
theorem Reader.IsOpen.run_readLine (hr : r.IsOpen) {s : Statement} (hs : statement? line = some s) :
    ∃ (n : Nat) (outer : List Frame) (radix : Radix), s.depth = .ok n ∧
      (openFrame n ⟨s.kind, s.id⟩).run r =
        .ok () { r with level := n, stack := outer ++ [⟨s.kind, s.id⟩] } ∧
      (readLine line).run r = (Dump.declare s outer.getLast?).run
        { r with level := n, stack := outer ++ [⟨s.kind, s.id⟩], radix } := by
  obtain ⟨l, hparse, hlocal, rfl⟩ := exists_of_statement? hs
  obtain ⟨n, hn⟩ := Line.exists_level hparse
  obtain ⟨outer, hopen⟩ := hr.run_openFrame n ⟨l.statement.kind, l.statement.id⟩
  refine ⟨n, outer, l.header.radix r.radix, hn, hopen r.radix, ?_⟩
  have hlevel : (ofExcept (Numeral.read .decimal l.statement.level) : ReadM Int).run
      { r with radix := l.header.radix r.radix } =
        .ok (n : Int) { r with radix := l.header.radix r.radix } :=
    run_ofExcept_eq_ok_iff.mpr ⟨hn, rfl⟩
  rw [run_readLine_of_parse? hparse hlocal, readStatement, run_bind_of_eq hlevel,
    run_bind_of_eq (hopen _), run_bind_of_eq (EStateM.run_get _), Reader.parent?,
    List.dropLast_concat]

/-- **A line makes changes**, but for the place of its statement, and its faults are explained. -/
theorem Reader.IsOpen.makes_readLine (hr : r.IsOpen) (isName : String → Prop) (line : String)
    (hname : ∀ l, Line.parse? line = some l → isName l.statement.givenName) :
    ∃ level stack, Reader.IsOpen { r with level, stack } ∧
      Makes isName { r with level, stack } (readLine line) r := by
  rcases hs : statement? line with _ | s
  · refine ⟨r.level, r.stack, hr, ?_⟩
    rcases hparse : Line.parse? line with _ | l
    · rw [readLine, hparse]
      exact .stay (.refl _ _)
    · have hlocal : isLocalKind l.header.kind = true := by
        rw [statement?, hparse] at hs
        dsimp only at hs
        split at hs
        · assumption
        · cases hs
      refine .of_run_eq (run_readLine_of_local hparse hlocal) ?_
      exact makes_declareLocal l.areTexts_values ((Changes.refl _ r).tail (.radix _))
  · obtain ⟨n, outer, radix, -, -, hrun⟩ := hr.run_readLine hs
    obtain ⟨l, hparse, -, rfl⟩ := exists_of_statement? hs
    refine ⟨n, outer ++ [l.statement.frame], fun _ => by simp, .of_run_eq hrun ?_⟩
    have hdeclare := makes_declare (r := { r with
      level := n, stack := outer ++ [⟨l.statement.kind, l.statement.id⟩], radix })
      l.areTexts_values (hname l hparse) rfl outer.getLast?
    refine ⟨Changes.trans ?_ hdeclare.changes, hdeclare.explained⟩
    exact (Changes.refl isName _).tail (.radix radix)

end Lines

end CpuTrace.Dump
