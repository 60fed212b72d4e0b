import CpuTrace.Proofs.Unfolding
import Mathlib

/-!
# The graph of references

Ids make a graph: one id **leads to** another (`IdTable.LeadsTo`) if the type that it stands for cites
the other. A type **reaches** an id (`IdTable.Reaches`) that it cites, and every id that one of these
leads to, over any number of steps.

`IdTable.resolve` follows this graph without looking for cycles. This module says when that ends, and
with what:

* **It gives a type** exactly if every id that is reached has been declared, and none leads back to
  itself. For one direction, the depth that an id needs goes down with each step, so a cycle would go
  down for ever. For the other, the ids that are reached are finitely many, so without a cycle the
  steps from them are well-founded, and depth suffices for each id once it does for those that it
  leads to (`settles_of_acyclic`).
* **It gives the unfolding** (`IdTable.Expands`), in which every reference has been replaced by the
  unfolding of what its id stands for.
* **The unfolding is closed** (`IsClosed`): it cites nothing, so no table changes it
  (`resolve_of_closed`).
* **Otherwise** it names an id that is reached and not declared, or runs out of every depth.

The main statement is `resolve_eq_unfolding`.
-/

namespace CpuTrace.Dump

/-! ## Steps from id to id -/

namespace IdTable

variable {ids : IdTable} {t u : TypeExpr} {id id' : String} {d : Nat}

/-- What one id stands for cites another. -/
def LeadsTo (ids : IdTable) (id id' : String) : Prop :=
  ∃ t, ids.find? id = some t ∧ Cites t id'

/-- A type cites an id, or one that leads to it over any number of steps. -/
def Reaches (ids : IdTable) (t : TypeExpr) (id : String) : Prop :=
  ∃ first, Cites t first ∧ Relation.ReflTransGen ids.LeadsTo first id

theorem Reaches.cites (h : Cites t id) : ids.Reaches t id := ⟨id, h, .refl⟩

theorem Reaches.step (h : ids.Reaches t id) (hstep : ids.LeadsTo id id') : ids.Reaches t id' := by
  obtain ⟨first, hfirst, hpath⟩ := h
  exact ⟨first, hfirst, hpath.tail hstep⟩

/-- What a cited id stands for reaches no more than the type that cites it. -/
theorem Reaches.of_cites (hcites : Cites t id) (hfind : ids.find? id = some u)
    (h : ids.Reaches u id') : ids.Reaches t id' := by
  obtain ⟨first, hfirst, hpath⟩ := h
  exact ⟨id, hcites, .head ⟨u, hfind, hfirst⟩ hpath⟩

/-! ## Unfolding takes depth -/

/-- A depth is enough to unfold what an id stands for. -/
def Opens (ids : IdTable) (d : Nat) (id : String) : Prop :=
  ∃ t u, ids.find? id = some t ∧ ids.resolveWithin d t = .ok u

theorem Opens.mem_keys (h : ids.Opens d id) : id ∈ ids.keys := by
  obtain ⟨t, -, ht, -⟩ := h
  exact Table.mem_keys_of_find? ht

/-- A cited id takes less depth than the type that cites it. -/
theorem exists_opens_of_cites (h : ids.resolveWithin d t = .ok u) (hid : Cites t id) :
    ∃ d' < d, ids.Opens d' id := by
  cases d with
  | zero =>
    obtain ⟨v, hv⟩ := exists_follow_of_cites hid h
    cases hv
  | succ d =>
    obtain ⟨v, hv⟩ := exists_follow_of_cites hid h
    rcases hget : ids.get id with e | w
    · simp only [hget] at hv
      cases hv
    · simp only [hget] at hv
      exact ⟨d, Nat.lt_succ_self d, w, v, get_eq_ok_iff.mp hget, hv⟩

theorem Opens.step (h : ids.Opens d id) (hstep : ids.LeadsTo id id') :
    ∃ d' < d, ids.Opens d' id' := by
  obtain ⟨t, u, ht, hu⟩ := h
  obtain ⟨t', ht', hid'⟩ := hstep
  obtain rfl : t = t' := Option.some.inj (ht.symm.trans ht')
  exact exists_opens_of_cites hu hid'

theorem Opens.path (h : ids.Opens d id) (hpath : Relation.ReflTransGen ids.LeadsTo id id') :
    ∃ d' ≤ d, ids.Opens d' id' := by
  induction hpath with
  | refl => exact ⟨d, Nat.le_refl d, h⟩
  | tail _ hstep ih =>
    obtain ⟨d₁, hle, hopens⟩ := ih
    obtain ⟨d₂, hlt, hopens'⟩ := hopens.step hstep
    exact ⟨d₂, by omega, hopens'⟩

/-- **What can be unfolded is on no cycle**: the depth that it takes would go down around it. -/
theorem Opens.acyclic (h : ids.Opens d id) : ¬ Relation.TransGen ids.LeadsTo id id := by
  induction d using Nat.strong_induction_on with
  | _ d ih =>
    intro hcycle
    obtain ⟨next, hstep, hback⟩ := Relation.TransGen.head'_iff.mp hcycle
    obtain ⟨d₁, hlt, hnext⟩ := h.step hstep
    obtain ⟨d₂, hle, hid⟩ := hnext.path hback
    exact ih d₂ (by omega) hid hcycle

/-- An id that is reached from a type without a fault has been declared, and is on no cycle. -/
theorem Reaches.of_resolve (h : ids.Reaches t id) (hu : ids.resolve t = .ok u) :
    id ∈ ids.keys ∧ ¬ Relation.TransGen ids.LeadsTo id id := by
  obtain ⟨first, hfirst, hpath⟩ := h
  obtain ⟨d₁, -, hopens⟩ := exists_opens_of_cites hu hfirst
  obtain ⟨d₂, -, hid⟩ := hopens.path hpath
  exact ⟨hid.mem_keys, hid.acyclic⟩

/-! ## Faults -/

/-- One more step of depth settles a type whose cited ids are settled. -/
theorem isSettled_resolveWithin_succ
    (h : ∀ id w, Cites t id → ids.find? id = some w → IsSettled (ids.resolveWithin d w)) :
    IsSettled (ids.resolveWithin (d + 1) t) := by
  intro hendless
  obtain ⟨id, hid, hfault⟩ := exists_cites_of_error hendless
  rw [get] at hfault
  rcases hfind : ids.find? id with _ | w
  · simp [hfind] at hfault
  · simp only [hfind] at hfault
    exact h id w hid hfind hfault

/-- The declared ids that a type reaches. -/
def Reached (ids : IdTable) (t : TypeExpr) : Type :=
  { id : String // id ∈ ids.keys ∧ ids.Reaches t id }

/-- One of them comes after another on some path. -/
def Reached.After (a b : ids.Reached t) : Prop := Relation.TransGen ids.LeadsTo b.1 a.1

instance : Finite (ids.Reached t) :=
  (ids.keys.finite_toSet.subset fun _ (hid : _ ∧ _) => hid.1).to_subtype

/-- Without a cycle, every path comes to an end, since there are finitely many ids. -/
theorem Reached.wellFounded_after
    (h : ∀ id, ids.Reaches t id → ¬ Relation.TransGen ids.LeadsTo id id) :
    WellFounded fun a b : ids.Reached t => a.After b := by
  have htrans : IsTrans (ids.Reached t) Reached.After := ⟨fun _ _ _ hab hbc => hbc.trans hab⟩
  have hirrefl : Std.Irrefl fun a b : ids.Reached t => a.After b := ⟨fun a => h a.1 a.2.2⟩
  exact Finite.wellFounded_of_trans_of_irrefl _

/-- **Without a cycle, depth suffices.** The induction follows the paths backwards: what is enough for
all ids that an id leads to is one step short of enough for the id. -/
theorem settles_of_acyclic (h : ∀ id, ids.Reaches t id → ¬ Relation.TransGen ids.LeadsTo id id) :
    IsSettled (ids.resolve t) := by
  have hreached : ∀ a : ids.Reached t, ids.Settles ids.size a.1 := by
    intro a
    induction a using (Reached.wellFounded_after h).induction with
    | _ a ih =>
      have hnext : ∀ w, ids.find? a.1 = some w → IsSettled (ids.resolveWithin (ids.size + 1) w) := by
        intro w hw
        refine isSettled_resolveWithin_succ fun id w' hid hw' => ?_
        have hstep : ids.LeadsTo a.1 id := ⟨w, hw, hid⟩
        have hkey : id ∈ ids.keys := Table.mem_keys_of_find? hw'
        exact ih ⟨id, hkey, a.2.2.step hstep⟩ (.single hstep) w' hw'
      exact settles_size a.2.1 hnext
  apply isSettled_resolveWithin_succ
  intro id w hid hw
  have hkey : id ∈ ids.keys := Table.mem_keys_of_find? hw
  exact hreached ⟨id, hkey, .cites hid⟩ w hw

/-- A fault says that a depth was too small, or names an id that is reached and not declared. -/
theorem fault_of_resolveWithin {e : Fault} (h : ids.resolveWithin d t = .error e) :
    e = .endless ∨ ∃ id, e = .missingName id ∧ ids.Reaches t id ∧ id ∉ ids.keys := by
  induction d generalizing t with
  | zero =>
    obtain ⟨id, -, hfault⟩ := exists_cites_of_error h
    cases hfault
    exact .inl rfl
  | succ d ih =>
    obtain ⟨id, hid, hfault⟩ := exists_cites_of_error h
    rw [get] at hfault
    rcases hfind : ids.find? id with _ | w
    · simp only [hfind] at hfault
      cases hfault
      exact .inr ⟨id, rfl, .cites hid, Table.find?_eq_none_iff.mp hfind⟩
    · simp only [hfind] at hfault
      refine (ih hfault).imp_right ?_
      rintro ⟨id', rfl, hreaches, hkey⟩
      exact ⟨id', rfl, .of_cites hid hfind hreaches, hkey⟩

/-- A depth that is enough is enough for good, so what runs out of the bound runs out of every
depth. -/
theorem resolveWithin_of_endless (h : ids.resolve t = .error .endless) (d : Nat) :
    ids.resolveWithin d t = .error .endless := by
  by_contra hsettled
  rw [resolve_eq_of_settled hsettled] at h
  exact hsettled h

/-- **Faults of references.** An id that is reached has not been declared; or one leads back to
itself, and no depth is enough. -/
theorem fault_of_resolve {e : Fault} (h : ids.resolve t = .error e) :
    (∃ id, e = .missingName id ∧ ids.Reaches t id ∧ id ∉ ids.keys) ∨
      e = .endless ∧ (∃ id, ids.Reaches t id ∧ Relation.TransGen ids.LeadsTo id id) ∧
        ∀ depth, ids.resolveWithin depth t = .error .endless := by
  rcases fault_of_resolveWithin h with rfl | hmissing
  · refine .inr ⟨rfl, ?_, resolveWithin_of_endless h⟩
    by_contra hacyclic
    push Not at hacyclic
    exact settles_of_acyclic hacyclic h
  · exact .inl hmissing

/-! ## The unfolding -/

/-- **The unfolding of a type**: every reference that is reached through lists is replaced by the
unfolding of what its id stands for, and the rest stays. -/
inductive Expands (ids : IdTable) : TypeExpr → TypeExpr → Prop
  /-- a reference is replaced -/
  | reference {s : String} {cs : List Char} {t u : TypeExpr} (hs : s.toList = '<' :: cs)
    (declared : ids.find? (referredId cs) = some t) (unfolds : Expands ids t u) :
    Expands ids (.text s) u
  /-- a number stays, and so does a text that is no reference -/
  | atom {a : Atom} (h : ∀ id, ¬ Cites (.atom a) id) : Expands ids (.atom a) (.atom a)
  /-- a record stays -/
  | record (fields : List (Atom × TypeExpr)) : Expands ids (.record fields) (.record fields)
  /-- a list keeps its length, and its items are unfolded -/
  | list {ts us : List TypeExpr} (length : ts.length = us.length)
    (items : ∀ p ∈ ts.zip us, Expands ids p.1 p.2) : Expands ids (.list ts) (.list us)

theorem Expands.unfolds (h : ids.Expands t u) : ids.Unfolds t u := by
  induction h with
  | reference hs declared _ ih => exact .reference hs declared ih
  | @atom a h =>
    cases a with
    | none => exact ⟨0, rfl⟩
    | int n => exact .int n
    | text s => exact .text fun cs hs => h _ (.reference hs)
  | record fields => exact ⟨0, rfl⟩
  | list length _ ih => exact .list (List.forall₂_iff_zip.mpr ⟨length, fun hp => ih _ hp⟩)

theorem expands_of_mapReferences {follow : String → Except Fault TypeExpr}
    (hfollow : ∀ id v, follow id = .ok v → ∃ w, ids.find? id = some w ∧ ids.Expands w v)
    (t : TypeExpr) : ∀ u, mapReferences follow t = .ok u → ids.Expands t u := by
  induction t using TypeExpr.induction with
  | atom a =>
    intro u hu
    by_cases hcites : ∃ id, Cites (.atom a) id
    · obtain ⟨id, hid⟩ := hcites
      cases hid with
      | reference hs =>
        rw [mapReferences, hs] at hu
        obtain ⟨w, hw, hexpands⟩ := hfollow _ _ hu
        exact .reference hs hw hexpands
    · rw [not_exists] at hcites
      cases a with
      | none =>
        cases hu
        exact .atom hcites
      | int n =>
        cases hu
        exact .atom hcites
      | text s =>
        rw [mapReferences] at hu
        split at hu
        · next cs hs => exact (hcites _ (.reference hs)).elim
        · cases hu
          exact .atom hcites
  | record fields =>
    intro u hu
    cases hu
    exact .record fields
  | list ts ih =>
    intro u hu
    obtain ⟨us, rfl, hus⟩ := mapReferences_list_eq_ok_iff.mp hu
    refine .list hus.length_eq fun p hp => ?_
    exact ih p.1 (List.of_mem_zip hp).1 p.2 ((List.forall₂_iff_zip.mp hus).2 hp)

/-- **An answer is the unfolding.** -/
theorem resolve_eq_ok_iff_expands : ids.resolve t = .ok u ↔ ids.Expands t u := by
  rw [resolve_eq_ok_iff]
  refine ⟨?_, Expands.unfolds⟩
  rintro ⟨d, hd⟩
  induction d generalizing t u with
  | zero =>
    refine expands_of_mapReferences (fun id v hv => ?_) t u hd
    cases hv
  | succ d ih =>
    refine expands_of_mapReferences (fun id v hv => ?_) t u hd
    rcases hget : ids.get id with e | w
    · simp only [hget] at hv
      cases hv
    · simp only [hget] at hv
      exact ⟨w, get_eq_ok_iff.mp hget, ih hv⟩

end IdTable

/-! ## Closed types -/

/-- No text that is reached through lists is a reference. -/
def IsClosed (t : TypeExpr) : Prop := ∀ id, ¬ Cites t id

section Closed

variable {ids : IdTable} {t u : TypeExpr}

theorem isClosed_list {ts : List TypeExpr} : IsClosed (.list ts) ↔ ∀ t ∈ ts, IsClosed t := by
  constructor
  · intro h t ht id hid
    exact h id (.item ht hid)
  · intro h id hid
    cases hid with
    | item mem cites => exact h _ mem id cites

/-- **An unfolding is closed.** -/
theorem IdTable.Expands.isClosed (h : ids.Expands t u) : IsClosed u := by
  induction h with
  | reference _ _ _ ih => exact ih
  | atom h => exact h
  | record fields => intro id hid; cases hid
  | @list ts us length _ ih =>
    have hzip : List.Forall₂ (fun t u => (t, u) ∈ ts.zip us) ts us :=
      List.forall₂_iff_zip.mpr ⟨length, fun hp => hp⟩
    refine isClosed_list.mpr fun u hu => ?_
    obtain ⟨t, -, htu⟩ := exists_mem_of_forall₂ hzip.flip hu
    exact ih _ htu

theorem IsClosed.expands (h : IsClosed t) (ids : IdTable) : ids.Expands t t := by
  induction t using TypeExpr.induction with
  | atom a => exact .atom h
  | record fields => exact .record fields
  | list ts ih =>
    have hitems : List.Forall₂ ids.Expands ts ts :=
      List.forall₂_same.mpr fun t ht => ih t ht (isClosed_list.mp h t ht)
    exact .list rfl fun p hp => (List.forall₂_iff_zip.mp hitems).2 hp

/-- **A closed type stays as it is**, whatever ids stand for. -/
theorem resolve_of_closed (h : IsClosed t) (ids : IdTable) : ids.resolve t = .ok t :=
  IdTable.resolve_eq_ok_iff_expands.mpr (h.expands ids)

/-- What references have been followed in is closed. -/
theorem isClosed_of_resolve (h : ids.resolve t = .ok u) : IsClosed u :=
  (IdTable.resolve_eq_ok_iff_expands.mp h).isClosed

end Closed

/-- **References are unfolded to their ends.** Take any table of ids and any type. Following the
references of the type gives an answer exactly if every id that they reach has been declared, and none
leads back to itself. Otherwise an id that is reached and has not been declared is named, or there is
a cycle, and then no number of steps is enough. The answer is the unfolding of the type: nothing in it
is a reference, and with any table of ids it stays as it is. -/
theorem resolve_eq_unfolding (ids : IdTable) (t : TypeExpr) :
    ((∃ u, ids.resolve t = .ok u) ↔
      ∀ id, ids.Reaches t id → id ∈ ids.keys ∧ ¬ Relation.TransGen ids.LeadsTo id id) ∧
    (∀ e, ids.resolve t = .error e →
      (∃ id, e = .missingName id ∧ ids.Reaches t id ∧ id ∉ ids.keys) ∨
      e = .endless ∧ (∃ id, ids.Reaches t id ∧ Relation.TransGen ids.LeadsTo id id) ∧
        ∀ depth, ids.resolveWithin depth t = .error .endless) ∧
    (∀ u, ids.resolve t = .ok u ↔ ids.Expands t u) ∧
    ∀ u, ids.resolve t = .ok u → IsClosed u ∧ ∀ ids' : IdTable, ids'.resolve u = .ok u := by
  refine ⟨⟨?_, fun h => ?_⟩, fun e => IdTable.fault_of_resolve,
    fun u => IdTable.resolve_eq_ok_iff_expands, fun u hu => ?_⟩
  · rintro ⟨u, hu⟩ id hid
    exact hid.of_resolve hu
  · rcases hresolve : ids.resolve t with e | u
    · -- either fault contradicts what is known of the ids that are reached
      rcases IdTable.fault_of_resolve hresolve with ⟨id, -, hid, hkey⟩ | ⟨-, ⟨id, hid, hcycle⟩, -⟩
      · exact (hkey (h id hid).1).elim
      · exact ((h id hid).2 hcycle).elim
    · exact ⟨u, rfl⟩
  · have hclosed := isClosed_of_resolve hu
    exact ⟨hclosed, resolve_of_closed hclosed⟩

/-- A pointer to an array of numbers, by way of two references with leading zeros, a pointer to itself,
and a name for something that is not declared. -/
def linkedIds : IdTable := .ofList
  [("0x2d", .pointer (.text "<0x031")), ("0x31", .array 3 (.text "<0x0040")),
    ("0x40", .named "int"), ("0x50", .pointer (.text "<0x050")), ("0x58", .text "<0x99")]

theorem resolve_linkedIds :
    linkedIds.resolve (.list [.text "<0x2d", .record [(.text "k", .text "<0x50")]]) =
        .ok (.list [.pointer (.array 3 (.named "int")), .record [(.text "k", .text "<0x50")]]) ∧
      (∀ ids : IdTable,
        ids.resolve (.list [.pointer (.array 3 (.named "int")), .record [(.text "k", .text "<0x50")]]) =
          .ok (.list [.pointer (.array 3 (.named "int")), .record [(.text "k", .text "<0x50")]])) ∧
      (∀ depth, linkedIds.resolveWithin depth (.text "<0x50") = .error .endless) ∧
      ∃ id, linkedIds.Reaches (.text "<0x58") id ∧ id ∉ linkedIds.keys := by
  have hok : linkedIds.resolve (.list [.text "<0x2d", .record [(.text "k", .text "<0x50")]]) =
      .ok (.list [.pointer (.array 3 (.named "int")), .record [(.text "k", .text "<0x50")]]) := by cbv
  have hendless : linkedIds.resolve (.text "<0x50") = .error .endless := by cbv
  have hmissing : linkedIds.resolve (.text "<0x58") = .error (.missingName "0x99") := by cbv
  obtain ⟨-, -, -, hclosed⟩ :=
    resolve_eq_unfolding linkedIds (.list [.text "<0x2d", .record [(.text "k", .text "<0x50")]])
  obtain ⟨-, hcycle, -, -⟩ := resolve_eq_unfolding linkedIds (.text "<0x50")
  obtain ⟨-, hfault, -, -⟩ := resolve_eq_unfolding linkedIds (.text "<0x58")
  refine ⟨hok, (hclosed _ hok).2, ?_, ?_⟩
  · rcases hcycle _ hendless with ⟨id, he, -⟩ | ⟨-, -, hdepth⟩
    · cases he
    · exact hdepth
  · rcases hfault _ hmissing with ⟨id, -, hid⟩ | ⟨he, -⟩
    · exact ⟨id, hid⟩
    · cases he

end CpuTrace.Dump
