import CpuTrace.Dump.Line
import CpuTrace.Proofs.Table
import CpuTrace.Text.Words
import Mathlib

/-!
# Written lines

A line is written as a header (`headerChars`) and attributes (`Attribute.chars`): each attribute
stands after at least one blank, with its value in brackets, and a second closing bracket may
follow. `Line.parse?_of_written` says that reading gets back what was written. The value of an
attribute may be any text without a closing bracket; blanks, opening brackets and words in it do not
matter.

Main statements: `header?_headerChars` for the header, `attributes_chars_append` for one attribute,
`attributes_flatMap_chars` for all of them, and `lines_unlines` for the lines of a text.
-/

namespace CpuTrace.Dump

/-! ## Brackets -/

theorem takeWhile_append_cons {p : Char → Bool} {cs ds : List Char} {d : Char}
    (hcs : ∀ c ∈ cs, p c = true) (hd : p d = false) : (cs ++ d :: ds).takeWhile p = cs := by
  rw [List.takeWhile_append_of_pos hcs]
  simp [hd]

theorem dropWhile_append_cons {p : Char → Bool} {cs ds : List Char} {d : Char}
    (hcs : ∀ c ∈ cs, p c = true) (hd : p d = false) :
    (cs ++ d :: ds).dropWhile p = d :: ds := by
  rw [List.dropWhile_append_of_pos hcs]
  simp [hd]

theorem ne_close_of_not_mem {cs : List Char} (h : '>' ∉ cs) : ∀ c ∈ cs, (c != '>') = true := by
  intro c hc
  exact bne_iff_ne.mpr fun he => h (he ▸ hc)

/-- What stands in brackets, up to the first that closes. -/
theorem bracketed?_append {cs rest : List Char} (h : '>' ∉ cs) :
    bracketed? ('<' :: (cs ++ '>' :: rest)) = some (cs, rest) := by
  simp only [bracketed?, dropWhile_append_cons (ne_close_of_not_mem h) (bne_self_eq_false _),
    takeWhile_append_cons (ne_close_of_not_mem h) (bne_self_eq_false _)]

theorem isRunOf_iff {p : Char → Bool} {cs : List Char} :
    isRunOf p cs = true ↔ cs ≠ [] ∧ ∀ c ∈ cs, p c = true := by
  rw [isRunOf, Bool.and_eq_true, Bool.not_eq_true', List.isEmpty_eq_false_iff, List.all_eq_true]

/-! ## Attributes -/

/-- An attribute as it is written. -/
structure Attribute where
  /-- the number of blanks before it, beyond the first -/
  blanks : Nat
  /-- the word before the value -/
  key : String
  /-- the text in brackets -/
  value : String
  /-- whether a second bracket closes it, as it does after a reference -/
  doubled : Bool

namespace Attribute

/-- The key is a word and the value contains no bracket that closes. -/
def IsWritten (a : Attribute) : Prop :=
  isRunOf isWordChar a.key.toList = true ∧ '>' ∉ a.value.toList

instance (a : Attribute) : Decidable a.IsWritten := inferInstanceAs (Decidable (_ ∧ _))

/-- The characters of an attribute. -/
def chars (a : Attribute) : List Char :=
  List.replicate (a.blanks + 1) ' ' ++
    (a.key.toList ++ '<' :: (a.value.toList ++ '>' :: if a.doubled then ['>'] else []))

/-- The key with its value. -/
def entry (a : Attribute) : String × String := (a.key, a.value)

end Attribute

/-- What is no part of a word is passed over. -/
theorem attributes_of_not_word {c : Char} {cs : List Char} (h : isWordChar c = false) :
    attributes (c :: cs) = attributes cs := by
  rw [attributes, h, if_neg Bool.false_ne_true]

/-- **A key with its value in brackets** is the next attribute. -/
theorem attributes_key_append {key value rest : List Char} (hkey : isRunOf isWordChar key = true)
    (hvalue : '>' ∉ value) :
    attributes (key ++ '<' :: (value ++ '>' :: rest)) =
      (String.ofList key, String.ofList value) :: attributes rest := by
  obtain ⟨hne, hall⟩ := isRunOf_iff.mp hkey
  obtain ⟨c, key, rfl⟩ := List.exists_cons_of_ne_nil hne
  obtain ⟨hc, hkey⟩ := List.forall_mem_cons.mp hall
  have hvalue' := ne_close_of_not_mem hvalue
  rw [List.cons_append, attributes, if_pos hc]
  split
  · next h => simp [dropWhile_append_cons hkey (by decide : isWordChar '<' = false)] at h
  · next d after h =>
    rw [dropWhile_append_cons hkey (by decide)] at h
    obtain ⟨rfl, rfl⟩ := List.cons.inj h
    rw [if_pos rfl]
    split
    · next h => simp [dropWhile_append_cons hvalue' (bne_self_eq_false _)] at h
    · next d rest' h =>
      rw [dropWhile_append_cons hvalue' (bne_self_eq_false _)] at h
      obtain ⟨rfl, rfl⟩ := List.cons.inj h
      rw [takeWhile_append_cons hkey (by decide),
        takeWhile_append_cons hvalue' (bne_self_eq_false _)]

/-- **One attribute** is read as its key and value, and reading goes on behind it. -/
theorem attributes_chars_append {a : Attribute} (h : a.IsWritten) (rest : List Char) :
    attributes (a.chars ++ rest) = a.entry :: attributes rest := by
  have hblanks : ∀ (n : Nat) (cs : List Char),
      attributes (List.replicate n ' ' ++ cs) = attributes cs := by
    intro n cs
    induction n with
    | zero => rfl
    | succ n ih => rw [List.replicate_succ, List.cons_append, attributes_of_not_word (by decide), ih]
  have hend : attributes ((if a.doubled then ['>'] else []) ++ rest) = attributes rest := by
    split
    · exact attributes_of_not_word (by decide)
    · rfl
  rw [Attribute.chars, List.append_assoc, hblanks, List.append_assoc, List.cons_append,
    List.append_assoc, List.cons_append, attributes_key_append h.1 h.2, hend,
    String.ofList_toList, String.ofList_toList]
  rfl

/-- **All attributes** are read, in order, and nothing else. -/
theorem attributes_flatMap_chars {as : List Attribute} (h : ∀ a ∈ as, a.IsWritten) :
    attributes (as.flatMap Attribute.chars) = as.map Attribute.entry := by
  induction as with
  | nil => rw [List.flatMap_nil, attributes, List.map_nil]
  | cons a as ih =>
    obtain ⟨ha, has⟩ := List.forall_mem_cons.mp h
    rw [List.flatMap_cons, attributes_chars_append ha, ih has, List.map_cons]

/-! ## Headers -/

/-- The characters of a header. -/
def headerChars (level id kind : List Char) : List Char :=
  '<' :: (level ++ '>' :: '<' :: (id ++ '>' :: '<' :: (kind ++ ['>'])))

theorem not_mem_of_isRunOf {p : Char → Bool} {cs : List Char} (h : isRunOf p cs = true)
    (hclose : p '>' = false) : '>' ∉ cs := by
  intro hmem
  rw [(isRunOf_iff.mp h).2 _ hmem] at hclose
  cases hclose

/-- A marked numeral is a hexadecimal id. -/
theorem isHexId_of_isRunOf {digits : List Char} (h : isRunOf isHexDigit digits = true) :
    isHexId ('0' :: 'x' :: digits) = true := by
  obtain ⟨hne, hall⟩ := isRunOf_iff.mp h
  have htake : digits.takeWhile isHexDigit = digits := List.takeWhile_eq_self_iff.mpr hall
  have hdrop : digits.dropWhile isHexDigit = [] := List.dropWhile_eq_nil_iff.mpr hall
  rw [isHexId]
  simp [htake, hdrop, hne]

/-- **The header** is read as its three fields. -/
theorem header?_headerChars {level id kind : List Char} (hlevel : isRunOf Char.isDigit level = true)
    (hid : (isDecimalId id || isHexId id) = true) (hclose : '>' ∉ id)
    (hkind : isRunOf isWordChar kind = true) (rest : List Char) :
    header? (headerChars level id kind ++ rest) =
      some (⟨String.ofList level, String.ofList id, String.ofList kind, isHexId id⟩, rest) := by
  have hlevel' := not_mem_of_isRunOf hlevel (by decide)
  have hkind' := not_mem_of_isRunOf hkind (by decide)
  rw [header?, headerChars]
  simp only [List.cons_append, List.append_assoc, List.nil_append, bracketed?_append hlevel',
    bracketed?_append hclose, bracketed?_append hkind', hlevel, hkind, hid, Bool.and_self, if_true,
    Option.bind_eq_bind, Option.bind_some]

/-- The characters of a line. -/
def lineChars (level id kind : List Char) (as : List Attribute) : List Char :=
  headerChars level id kind ++ as.flatMap Attribute.chars

/-- **A written line** is read as what was written: of two values of a key, the later. -/
theorem Line.parse?_of_written {s : String} {level id kind : List Char} {as : List Attribute}
    (hlevel : isRunOf Char.isDigit level = true) (hid : (isDecimalId id || isHexId id) = true)
    (hclose : '>' ∉ id) (hkind : isRunOf isWordChar kind = true) (has : ∀ a ∈ as, a.IsWritten)
    (hs : s.toList = lineChars level id kind as) :
    Line.parse? s = some ⟨⟨String.ofList level, String.ofList id, String.ofList kind, isHexId id⟩,
      .ofList (as.map Attribute.entry)⟩ := by
  rw [Line.parse?, hs, lineChars, header?_headerChars hlevel hid hclose hkind]
  simp only [attributes_flatMap_chars has]

/-! ## Texts -/

/-- The characters of lines. -/
def textOfLines (ls : List String) : List Char := ls.flatMap fun l => l.toList ++ ['\n']

/-- Lines are put together with a line break after each. -/
theorem toList_unlines (ls : List String) : (Text.unlines ls).toList = textOfLines ls := by
  rw [Text.unlines, String.toList_join, textOfLines, List.flatMap_map]
  simp only [String.toList_append]
  rfl

/-- A line goes on up to the first character that breaks it. -/
theorem linesFrom_append {cs : List Char} (h : cs.all (!Text.isLineBreak ·) = true)
    (line rest : List Char) :
    Text.linesFrom Text.isLineBreak line (cs ++ '\n' :: rest) =
      (line.reverse ++ cs) :: Text.linesFrom Text.isLineBreak [] rest := by
  induction cs generalizing line with
  | nil => simp [Text.linesFrom, Text.isLineBreak]
  | cons c cs ih =>
    rw [List.all_cons, Bool.and_eq_true] at h
    have hc : Text.isLineBreak c = false := by simpa using h.1
    have hne : c ≠ '\r' := by
      rintro rfl
      cases hc
    rw [List.cons_append, Text.linesFrom, if_neg (by simp [hc]), ih h.2]
    · simp
    · exact fun _ heq _ => hne heq

/-- A text that is made of lines has these lines. -/
theorem lines_unlines {ls : List String}
    (h : ls.all (·.toList.all (!Text.isLineBreak ·)) = true) :
    Text.lines Text.isLineBreak (Text.unlines ls) = ls := by
  rw [Text.lines, toList_unlines]
  induction ls with
  | nil => rfl
  | cons l ls ih =>
    rw [List.all_cons, Bool.and_eq_true] at h
    rw [textOfLines, List.flatMap_cons, List.append_assoc, List.singleton_append, linesFrom_append h.1]
    rw [List.map_cons, List.reverse_nil, List.nil_append, String.ofList_toList]
    exact congrArg _ (ih h.2)

end CpuTrace.Dump
