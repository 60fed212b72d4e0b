import CpuTrace.Dump.Statement
import Mathlib

/-!
# Written numbers and names

What the texts of a dump are read as: digits (`Numeral.digits?_toDigits`), numerals in either radix
with zeros or a mark in front (`Numeral.read?_of_hex`, `Numeral.read?_of_nat`,
`Numeral.read?_toString`), names between quotes (`Text.strip_of_quotes`), and the three ways to
write the location of a member (`Dump.memberOffset_of_location`).
-/

namespace CpuTrace

/-! ## Pieces of text -/

namespace Text

variable {p : Char → Bool} {cs ds : List Char}

/-- What stands between runs of a class is left when they are trimmed off. -/
theorem trim_append (as bs : List Char) (ha : ∀ c ∈ as, p c = true) (hb : ∀ c ∈ bs, p c = true)
    (h : ∀ c ∈ cs, p c = false) : trim p (as ++ cs ++ bs) = cs := by
  rcases List.eq_nil_or_concat cs with rfl | ⟨init, last, rfl⟩
  · have hall : ∀ c ∈ as ++ [] ++ bs, p c = true := by
      intro c hc
      rw [List.append_nil, List.mem_append] at hc
      exact hc.elim (ha c) (hb c)
    rw [trim, List.dropWhile_eq_nil_iff.mpr hall]
    rfl
  · have hfront : (as ++ (init ++ [last]) ++ bs).dropWhile p = init ++ [last] ++ bs := by
      rw [List.append_assoc, List.dropWhile_append_of_pos ha]
      rcases init with _ | ⟨c, init⟩
      · simp [h last (by simp)]
      · simp [h c (by simp)]
    rw [trim, List.concat_eq_append, hfront, List.reverse_append,
      List.dropWhile_append_of_pos fun c hc => hb c (List.mem_reverse.mp hc), List.reverse_append]
    simp [h last (by simp)]

theorem trim_of_none (h : ∀ c ∈ cs, p c = false) : trim p cs = cs := by
  simpa using trim_append [] [] (by simp) (by simp) h

/-- A name, as it stands or between quotes. -/
def Quotes (name value : String) : Prop :=
  ∃ n, value.toList = List.replicate n '"' ++ name.toList ++ List.replicate n '"'

/-- A name loses the quotes that stand around it. -/
theorem strip_of_quotes {name value : String} (h : Quotes name value) (hname : '"' ∉ name.toList) :
    strip '"' value = name := by
  obtain ⟨n, hn⟩ := h
  have hquote : ∀ c ∈ List.replicate n '"', (c == '"') = true := by
    intro c hc
    rw [List.eq_of_mem_replicate hc]
    rfl
  have hnone : ∀ c ∈ name.toList, (c == '"') = false := by
    intro c hc
    exact beq_eq_false_iff_ne.mpr fun he => hname (he ▸ hc)
  rw [strip, hn, trim_append _ _ hquote hquote hnone, String.ofList_toList]

/-- A word goes on as long as no blank comes. -/
theorem wordsFrom_append (word : List Char) (h : ∀ c ∈ cs, isBlank c = false) :
    wordsFrom word (cs ++ ds) = wordsFrom (word ++ cs) ds := by
  induction cs generalizing word with
  | nil => rw [List.nil_append, List.append_nil]
  | cons c cs ih =>
    obtain ⟨hc, hcs⟩ := List.forall_mem_cons.mp h
    rw [List.cons_append, wordsFrom, hc, if_neg Bool.false_ne_true, ih _ hcs, List.append_assoc]
    rfl

/-- No character is blank, as a test over the text. -/
theorem isBlank_of_all {cs : List Char} (h : cs.all (fun c => !isBlank c) = true) :
    ∀ c ∈ cs, isBlank c = false := by
  intro c hc
  simpa using List.all_eq_true.mp h c hc

/-- Two words with a blank between them. -/
theorem words_two {v w : List Char} {s : String} (hs : s.toList = v ++ ' ' :: w)
    (hv : ∀ c ∈ v, isBlank c = false) (hw : ∀ c ∈ w, isBlank c = false) (hv' : v ≠ [])
    (hw' : w ≠ []) : words s = [String.ofList v, String.ofList w] := by
  have hlast : wordsFrom [] w = [w] := by
    have h : wordsFrom [] (w ++ []) = wordsFrom ([] ++ w) [] := wordsFrom_append [] hw
    rw [List.append_nil, List.nil_append] at h
    rw [h, wordsFrom]
    simp [hw']
  rw [words, hs, wordsFrom_append [] hv, List.nil_append, wordsFrom]
  simp [hlast, hv', isBlank]

/-- One word. -/
theorem words_one {s : String} (h : ∀ c ∈ s.toList, isBlank c = false) :
    (words s)[1]? = none := by
  have hwords : wordsFrom [] (s.toList ++ []) = wordsFrom ([] ++ s.toList) [] :=
    wordsFrom_append [] h
  rw [List.append_nil, List.nil_append] at hwords
  rw [words, hwords, wordsFrom]
  split <;> rfl

end Text

/-! ## Digits -/

namespace Numeral

variable {base : Nat}

/-- A digit that has been written is read back. -/
theorem digit?_digitChar (hbase : base ≤ 16) {d : Nat} (hd : d < base) :
    digit? base d.digitChar = some d := by
  have hcases : ∀ d < 16, ∀ base ≤ 16, d < base → digit? base d.digitChar = some d := by decide
  exact hcases d (by omega) base hbase hd

/-- Digits are read from the first on. -/
theorem digitsFrom?_append (n : Nat) (cs ds : List Char) :
    digitsFrom? base n (cs ++ ds) = (digitsFrom? base n cs).bind fun m => digitsFrom? base m ds := by
  induction cs generalizing n with
  | nil => rfl
  | cons c cs ih =>
    rw [List.cons_append, digitsFrom?, digitsFrom?]
    rcases digit? base c with _ | d
    · rfl
    · exact ih _

/-- The digits of a number are read as the number. -/
theorem digitsFrom?_toDigits (hbase : 1 < base) (hbase' : base ≤ 16) (n : Nat) :
    digitsFrom? base 0 (Nat.toDigits base n) = some n := by
  induction n using Nat.strongRecOn with
  | ind n ih =>
    rw [Nat.toDigits_eq_if hbase]
    split
    · next h => simp [digitsFrom?, digit?_digitChar hbase' h]
    · next h =>
      have hlt : n / base < n := Nat.div_lt_self (by omega) hbase
      have hmod : n % base < base := Nat.mod_lt n (by omega)
      rw [digitsFrom?_append, ih _ hlt]
      simp [digitsFrom?, digit?_digitChar hbase' hmod, Nat.div_add_mod]

/-- Zeros in front do not matter. -/
theorem digitsFrom?_zeros (hbase : 1 < base) (zeros : Nat) (cs : List Char) :
    digitsFrom? base 0 (List.replicate zeros '0' ++ cs) = digitsFrom? base 0 cs := by
  have hzero : digit? base '0' = some 0 := by
    have : 0 < base := by omega
    simp [digit?, this]
  induction zeros with
  | zero => rfl
  | succ zeros ih => rw [List.replicate_succ, List.cons_append, digitsFrom?, hzero]; exact ih

theorem digits?_of_ne_nil {cs : List Char} (h : cs ≠ []) :
    digits? base cs = digitsFrom? base 0 cs := by
  cases cs with
  | nil => exact (h rfl).elim
  | cons c cs => rfl

/-- **A run of digits is read back**, whatever zeros stand before it. -/
theorem digits?_toDigits (hbase : 1 < base) (hbase' : base ≤ 16) (zeros n : Nat) :
    digits? base (List.replicate zeros '0' ++ Nat.toDigits base n) = some n := by
  rw [digits?_of_ne_nil (by simp [Nat.toDigits_ne_nil]), digitsFrom?_zeros hbase,
    digitsFrom?_toDigits hbase hbase']

/-- What can be a digit. -/
theorem mem_digits_of_mem_toDigits (hbase : 1 < base) (hbase' : base ≤ 16) {n : Nat} {c : Char}
    (h : c ∈ Nat.toDigits base n) : ∃ d < 16, c = d.digitChar := by
  induction n using Nat.strongRecOn with
  | ind n ih =>
    rw [Nat.toDigits_eq_if hbase] at h
    split at h
    · next hlt => exact ⟨n, by omega, List.mem_singleton.mp h⟩
    · next hle =>
      have hlt : n / base < n := Nat.div_lt_self (by omega) hbase
      have hmod : n % base < base := Nat.mod_lt n (by omega)
      rcases List.mem_append.mp h with h | h
      · exact ih _ hlt h
      · exact ⟨n % base, by omega, List.mem_singleton.mp h⟩

/-- Digits start with a zero only if the number is zero. -/
theorem head?_toDigits_ne (hbase : 1 < base) (hbase' : base ≤ 16) {n : Nat} (h : n ≠ 0) :
    (Nat.toDigits base n).head? ≠ some '0' := by
  induction n using Nat.strongRecOn with
  | ind n ih =>
    rw [Nat.toDigits_eq_if hbase]
    split
    · next hlt =>
      have hdigit : ∀ d < 16, d ≠ 0 → Nat.digitChar d ≠ '0' := by decide
      exact fun hc => hdigit n (by omega) h (Option.some.inj hc)
    · next hle =>
      have hlt : n / base < n := Nat.div_lt_self (by omega) hbase
      have hdiv : n / base ≠ 0 := Nat.div_ne_zero_iff.mpr ⟨by omega, by omega⟩
      obtain ⟨c, cs, hcs⟩ := List.exists_cons_of_ne_nil (@Nat.toDigits_ne_nil (n / base) base)
      have hhead := ih (n / base) hlt hdiv
      rw [hcs] at hhead ⊢
      exact hhead

/-! ## Numerals -/

/-- A number in hexadecimal, with zeros and a mark in front or without. -/
def HexText (n : Nat) (s : String) : Prop :=
  ∃ (mark : List Char) (zeros : Nat), (mark = [] ∨ mark = ['0', 'x']) ∧
    s.toList = mark ++ (List.replicate zeros '0' ++ Nat.toDigits 16 n)

theorem signed?_of_head {r : Radix} {cs : List Char} (hminus : ∀ ds, cs ≠ '-' :: ds)
    (hplus : ∀ ds, cs ≠ '+' :: ds) : signed? r cs = (unsigned? r cs).map fun n : Nat => (n : Int) := by
  rw [signed?.eq_def]
  split
  · next ds => exact (hminus ds rfl).elim
  · next ds => exact (hplus ds rfl).elim
  · cases unsigned? r cs <;> rfl

/-- A text of digits, possibly marked, is read without a sign. -/
theorem read?_eq_unsigned? {r : Radix} {s : String}
    (hs : ∀ c ∈ s.toList, c = 'x' ∨ ∃ d < 16, c = Nat.digitChar d) :
    read? r s = (unsigned? r s.toList).map fun n : Nat => (n : Int) := by
  have hdigit : ∀ d < 16, isPadding (Nat.digitChar d) = false ∧ Nat.digitChar d ≠ '-' ∧
      Nat.digitChar d ≠ '+' := by decide
  have hchar : ∀ c ∈ s.toList, isPadding c = false ∧ c ≠ '-' ∧ c ≠ '+' := by
    intro c hc
    rcases hs c hc with rfl | ⟨d, hd, rfl⟩
    · decide
    · exact hdigit d hd
  have hhead : ∀ c ds, s.toList = c :: ds → c ≠ '-' ∧ c ≠ '+' := by
    intro c ds hc
    exact (hchar c (hc ▸ List.mem_cons_self ..)).2
  rw [read?, Text.trim_of_none fun c hc => (hchar c hc).1,
    signed?_of_head (fun ds hds => (hhead _ ds hds).1 rfl) (fun ds hds => (hhead _ ds hds).2 rfl)]

/-- A text of digits has neither blanks nor a sign. -/
theorem read?_of_digitChars {r : Radix} {s : String} {n : Nat}
    (hs : ∀ c ∈ s.toList, c = 'x' ∨ ∃ d < 16, c = Nat.digitChar d)
    (h : unsigned? r s.toList = some n) : read? r s = some (n : Int) := by
  rw [read?_eq_unsigned? hs, h]
  rfl

theorem unsigned?_hexadecimal_of_digits {zeros n : Nat} :
    unsigned? .hexadecimal (List.replicate zeros '0' ++ Nat.toDigits 16 n) = some n := by
  have hdigits := digits?_toDigits (by decide : 1 < 16) (by decide) zeros n
  -- a second character that is a digit is no mark
  have hmark : ∀ d < 16, ¬ markBase? (Nat.digitChar d) = some 16 := by decide
  have hmem : ∀ c ∈ List.replicate zeros '0' ++ Nat.toDigits 16 n, ∃ d < 16, c = Nat.digitChar d := by
    intro c hc
    rcases List.mem_append.mp hc with hc | hc
    · exact ⟨0, by decide, List.eq_of_mem_replicate hc⟩
    · exact mem_digits_of_mem_toDigits (by decide) (by decide) hc
  rw [unsigned?.eq_def]
  split
  · contradiction
  · next c ds _ hcs =>
    rw [hcs] at hdigits hmem
    obtain ⟨d, hd, rfl⟩ := hmem c (by simp)
    rw [if_neg (hmark d hd)]
    exact hdigits
  · exact hdigits
  · contradiction
  · contradiction

/-- **Hexadecimal numerals** are read as what they stand for. -/
theorem read?_of_hex {n : Nat} {s : String} (h : HexText n s) :
    read? .hexadecimal s = some (n : Int) := by
  obtain ⟨mark, zeros, hmark, hs⟩ := h
  have hmem : ∀ c ∈ s.toList, c = 'x' ∨ ∃ d < 16, c = Nat.digitChar d := by
    rw [hs]
    intro c hc
    rcases List.mem_append.mp hc with hc | hc
    · rcases hmark with rfl | rfl
      · cases hc
      · rcases List.mem_cons.mp hc with rfl | hc
        · exact Or.inr ⟨0, by decide, rfl⟩
        · exact Or.inl (List.mem_singleton.mp hc)
    · rcases List.mem_append.mp hc with hc | hc
      · exact Or.inr ⟨0, by decide, List.eq_of_mem_replicate hc⟩
      · exact Or.inr (mem_digits_of_mem_toDigits (by decide) (by decide) hc)
  refine read?_of_digitChars hmem ?_
  rw [hs]
  rcases hmark with rfl | rfl
  · exact unsigned?_hexadecimal_of_digits
  · exact digits?_toDigits (by decide) (by decide) zeros n

/-- **Decimal numerals** are read as what they stand for. -/
theorem read?_of_nat {n : Nat} {s : String} (h : s.toList = Nat.toDigits 10 n) :
    read? .decimal s = some (n : Int) := by
  refine read?_of_digitChars (fun c hc => Or.inr ?_) ?_
  · rw [h] at hc
    exact mem_digits_of_mem_toDigits (by decide) (by decide) hc
  · rw [h]
    exact digits?_toDigits (by decide) (by decide) 0 n

/-- **An integer is read back** from its decimal numeral. -/
theorem read?_toString (n : Int) : read? .decimal (toString n) = some n := by
  cases n with
  | ofNat n => exact read?_of_nat Nat.toList_repr
  | negSucc n =>
    have hlist : (toString (Int.negSucc n)).toList = '-' :: Nat.toDigits 10 (n + 1) := by
      rw [show toString (Int.negSucc n) = "-" ++ (n + 1).repr from rfl, String.toList_append,
        Nat.toList_repr]
      rfl
    have hdigit : ∀ d < 16, isPadding (Nat.digitChar d) = false := by decide
    have hnone : ∀ c ∈ '-' :: Nat.toDigits 10 (n + 1), isPadding c = false := by
      intro c hc
      rcases List.mem_cons.mp hc with rfl | hc
      · decide
      · obtain ⟨d, hd, rfl⟩ := mem_digits_of_mem_toDigits (by decide) (by decide) hc
        exact hdigit d hd
    have hdigits : unsigned? .decimal (Nat.toDigits 10 (n + 1)) = some (n + 1) :=
      digits?_toDigits (by decide) (by decide) 0 (n + 1)
    rw [read?, hlist, Text.trim_of_none hnone, signed?, hdigits]
    rfl

/-- Digits with something behind them that is no digit are no numeral. -/
theorem read?_toDigits_append {n : Nat} {c : Char} {s : String}
    (hs : s.toList = Nat.toDigits 10 n ++ [c]) (hc : isPadding c = false)
    (hc' : digit? 10 c = none) : read? .decimal s = none := by
  have hdigit : ∀ d < 16, isPadding (Nat.digitChar d) = false ∧ Nat.digitChar d ≠ '-' ∧
      Nat.digitChar d ≠ '+' := by decide
  have hmem : ∀ c ∈ Nat.toDigits 10 n, ∃ d < 16, c = Nat.digitChar d := fun c h =>
    mem_digits_of_mem_toDigits (by decide) (by decide) h
  have hpadding : ∀ c ∈ s.toList, isPadding c = false := by
    rw [hs]
    intro c' hc''
    rcases List.mem_append.mp hc'' with h | h
    · obtain ⟨d, hd, rfl⟩ := hmem c' h
      exact (hdigit d hd).1
    · rw [List.mem_singleton.mp h]
      exact hc
  have hhead : ∀ c' ds, s.toList = c' :: ds → c' ≠ '-' ∧ c' ≠ '+' := by
    intro c' ds h
    obtain ⟨c'', cs, hcs⟩ := List.exists_cons_of_ne_nil (@Nat.toDigits_ne_nil n 10)
    rw [hs, hcs, List.cons_append] at h
    obtain ⟨d, hd, hd'⟩ := hmem c'' (hcs ▸ List.mem_cons_self ..)
    rw [← (List.cons.inj h).1, hd']
    exact (hdigit d hd).2
  have hnone : digits? 10 (Nat.toDigits 10 n ++ [c]) = none := by
    rw [digits?_of_ne_nil (by simp), digitsFrom?_append,
      digitsFrom?_toDigits (by decide) (by decide)]
    simp [digitsFrom?, hc']
  rw [read?, Text.trim_of_none hpadding,
    signed?_of_head (fun ds h => (hhead _ ds h).1 rfl) (fun ds h => (hhead _ ds h).2 rfl),
    unsigned?, hs, hnone]
  rfl

end Numeral

/-! ## Locations -/

namespace Dump

/-- The location of a member: its offset alone, or the operation that adds it, or both. -/
def LocationText (n : Nat) (s : String) : Prop :=
  s.toList = Nat.toDigits 10 n ∨
    s.toList = Nat.toDigits 10 n ++ ("(DW_OP_plus_uconst ".toList ++ (Nat.toDigits 10 n ++ [')'])) ∨
    s.toList = "DW_OP_plus_uconst ".toList ++ Nat.toDigits 10 n

/-- **Locations.** In each of the three forms the offset is found. -/
theorem memberOffset_of_location {n : Nat} {s : String} (h : LocationText n s) :
    memberOffset s = .ok (n : Int) := by
  have hmem : ∀ c ∈ Nat.toDigits 10 n, ∃ d < 16, c = Nat.digitChar d := fun c h =>
    Numeral.mem_digits_of_mem_toDigits (by decide) (by decide) h
  have hdigit : ∀ d < 16, Text.isBlank (Nat.digitChar d) = false ∧
      ((Nat.digitChar d != '(') = true) := by decide
  have hblank : ∀ c ∈ Nat.toDigits 10 n, Text.isBlank c = false := by
    intro c hc
    obtain ⟨d, hd, rfl⟩ := hmem c hc
    exact (hdigit d hd).1
  have hparen : ∀ c ∈ Nat.toDigits 10 n, (c != '(') = true := by
    intro c hc
    obtain ⟨d, hd, rfl⟩ := hmem c hc
    exact (hdigit d hd).2
  have hread : Numeral.read? .decimal (String.ofList (Nat.toDigits 10 n)) = some (n : Int) :=
    Numeral.read?_of_nat String.toList_ofList
  rcases h with h | h | h
  · have hbefore : Text.before '(' s = String.ofList (Nat.toDigits 10 n) := by
      rw [Text.before, h, ← List.append_nil (Nat.toDigits 10 n),
        List.takeWhile_append_of_pos hparen, List.takeWhile_nil]
    rw [memberOffset, Text.words_one (by rw [h]; exact hblank), Option.bind_none]
    simp only [Numeral.read, hbefore, hread]
  · have hwords := Text.words_two (v := Nat.toDigits 10 n ++ "(DW_OP_plus_uconst".toList)
      (w := Nat.toDigits 10 n ++ [')']) (s := s) (by rw [h]; simp) ?_ ?_ (by simp) (by simp)
    · have hbefore : Text.before '(' s = String.ofList (Nat.toDigits 10 n) := by
        rw [Text.before, h, List.takeWhile_append_of_pos hparen]
        simp
      have hnone := Numeral.read?_toDigits_append (s := String.ofList (Nat.toDigits 10 n ++ [')']))
        String.toList_ofList (by decide) (by decide)
      simp only [memberOffset, hwords, List.getElem?_cons_succ, List.getElem?_cons_zero,
        Option.bind_some, hnone, Numeral.read, hbefore, hread]
    · intro c hc
      rcases List.mem_append.mp hc with hc | hc
      · exact hblank c hc
      · exact @Text.isBlank_of_all "(DW_OP_plus_uconst".toList (by decide) c hc
    · intro c hc
      rcases List.mem_append.mp hc with hc | hc
      · exact hblank c hc
      · rw [List.mem_singleton.mp hc]
        decide
  · have hwords := Text.words_two (v := "DW_OP_plus_uconst".toList) (w := Nat.toDigits 10 n)
      (s := s) (by rw [h]; rfl) (Text.isBlank_of_all (by decide)) hblank (by decide)
      Nat.toDigits_ne_nil
    simp only [memberOffset, hwords, List.getElem?_cons_succ, List.getElem?_cons_zero,
      Option.bind_some, hread]

theorem enumeratorValue_toString (radix : Radix) (n : Int) :
    enumeratorValue radix (toString n) = .ok n := by
  simp only [enumeratorValue, Numeral.read?_toString]

theorem boundValue_toString (n : Int) : boundValue (toString n) = n := by
  simp only [boundValue, Numeral.read?_toString]

end Dump

end CpuTrace
