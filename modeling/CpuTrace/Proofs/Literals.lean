import CpuTrace.Proofs.Numerals
import CpuTrace.TypeExpr.Printer
import Mathlib

/-!
# Reading literals back

Printed type expressions are literals, and this is a reader for them, in two layers:

* the **scanner** (`step`, `scan`) goes through the characters one by one and gives tokens: marks,
  quoted texts, and words, which are numbers and the word for no value;
* the **reader** (`value`) goes through the tokens and gives the expression that they spell. After the
  last item of a list or a record a comma may stand, as it does in a listing.

A scanner in the middle of a word has not given it yet, so what is printed is scanned together with
the mark after it (`scan_render`). The reader is bounded by a number, and as many as there are tokens
is enough (`Spells`). Both together: a printed expression is read as what it was (`spells_tokens`).
-/

namespace CpuTrace.Literal

/-! ## Tokens -/

/-- A token of a literal. -/
inductive Token where
  /-- a bracket, a brace, or what separates -/
  | mark (c : Char)
  /-- a text, without its quotes -/
  | text (s : String)
  /-- a name or a number -/
  | word (s : String)
deriving DecidableEq, Repr

/-- Whether a character belongs to a word. -/
def isWordChar (c : Char) : Bool := c.isAlphanum || c == '_' || c == '-'

/-- The characters that are tokens of their own. -/
def marks : List Char := ['[', ']', '\x7b', '\x7d', ',', ':', '=']

/-- Whether a character is a token of its own. -/
def isMark (c : Char) : Bool := marks.contains c

/-- Whether a character starts a quoted text. -/
def isQuote (c : Char) : Bool := c == '\x27' || c == '"'

/-- Whether a character separates tokens and is none. -/
def isGap (c : Char) : Bool := c == ' ' || c == '\n'

/-- The character that a letter stands for after a backslash. -/
def escaped? (c : Char) : Option Char :=
  if c = 'n' then some '\n'
  else if c = 'r' then some '\r'
  else if c = 't' then some '\t'
  else if c = '\\' ∨ isQuote c then some c
  else none

/-- How many digits follow a letter that announces the number of a character. -/
def codeLength? (c : Char) : Option Nat :=
  if c = 'x' then some 2
  else if c = 'u' then some 4
  else if c = 'U' then some 8
  else none

/-- The character of a number in hexadecimal digits. -/
def coded? (digits : List Char) : Option Char :=
  match Numeral.digits? 16 digits with
  | some n => if n.isValidChar then some (Char.ofNat n) else none
  | none => none

/-! ## The scanner -/

/-- What a scanner is in the middle of. -/
inductive Scan where
  /-- a word; an empty one between tokens -/
  | word (cs : List Char)
  /-- a quoted text -/
  | text (quote : Char) (cs : List Char)
  /-- the character after a backslash -/
  | escape (quote : Char) (cs : List Char)
  /-- the number of a character, with so many digits left -/
  | code (quote : Char) (cs digits : List Char) (left : Nat)

/-- The word that a scanner has read, if any. -/
def flush (cs : List Char) : List Token :=
  if cs = [] then [] else [.word (String.ofList cs)]

/-- Takes one character: the tokens that it ends, and what the scanner is in the middle of then. -/
def step : Scan → Char → Option (List Token × Scan)
  | .word cs, c =>
    if isWordChar c then some ([], .word (cs ++ [c]))
    else if isQuote c then some (flush cs, .text c [])
    else if isMark c then some (flush cs ++ [.mark c], .word [])
    else if isGap c then some (flush cs, .word [])
    else none
  | .text quote cs, c =>
    if c = quote then some ([.text (String.ofList cs)], .word [])
    else if c = '\\' then some ([], .escape quote cs)
    else if Text.isLineEnd c then none
    else some ([], .text quote (cs ++ [c]))
  | .escape quote cs, c =>
    match escaped? c, codeLength? c with
    | some d, _ => some ([], .text quote (cs ++ [d]))
    | none, some left => some ([], .code quote cs [] left)
    | none, none => none
  | .code quote cs digits left, c =>
    if left = 1 then (coded? (digits ++ [c])).map fun d => ([], .text quote (cs ++ [d]))
    else some ([], .code quote cs (digits ++ [c]) (left - 1))

/-- Takes characters one after the other. -/
def scan (s : Scan) : List Char → Option (List Token × Scan)
  | [] => some ([], s)
  | c :: cs =>
    match step s c with
    | none => none
    | some (ts, s) => (scan s cs).map fun r => (ts ++ r.1, r.2)

/-- The tokens of a text. -/
def tokens? (cs : List Char) : Option (List Token) :=
  match scan (.word []) cs with
  | some (ts, .word w) => some (ts ++ flush w)
  | _ => none

section Scanning

variable {s s' s'' : Scan} {cs ds : List Char} {ts us : List Token}

/-- What follows is scanned from where the scanner has come to. -/
theorem scan_append (h : scan s cs = some (ts, s')) (h' : scan s' ds = some (us, s'')) :
    scan s (cs ++ ds) = some (ts ++ us, s'') := by
  induction cs generalizing s ts with
  | nil =>
    obtain ⟨rfl, rfl⟩ := Prod.mk.inj (Option.some.inj h)
    exact h'
  | cons c cs ih =>
    rw [scan] at h
    rw [List.cons_append, scan]
    split at h
    · cases h
    · next rs s₁ hstep =>
      obtain ⟨⟨rs', s₂⟩, hrest, heq⟩ := Option.map_eq_some_iff.mp h
      obtain ⟨rfl, rfl⟩ := Prod.mk.inj heq
      simp only [ih hrest, Option.map_some, List.append_assoc]

/-- Characters are scanned one after the other. -/
theorem scan_cons {c : Char} (h : step s c = some (ts, s')) (h' : scan s' ds = some (us, s'')) :
    scan s (c :: ds) = some (ts ++ us, s'') := by
  rw [scan, h]
  simp only [h', Option.map_some]

theorem scan_singleton {c : Char} (h : step s c = some (ts, s')) : scan s [c] = some (ts, s') := by
  simp [scan, h]

/-! ### Words -/

/-- Letters and digits make a word longer. -/
theorem scan_word (w : List Char) (h : ∀ c ∈ ds, isWordChar c = true) :
    scan (.word w) ds = some ([], .word (w ++ ds)) := by
  induction ds generalizing w with
  | nil => rw [scan, List.append_nil]
  | cons c ds ih =>
    obtain ⟨hc, hds⟩ := List.forall_mem_cons.mp h
    have hstep : step (.word w) c = some ([], .word (w ++ [c])) := by rw [step, if_pos hc]
    simpa using scan_cons hstep (ih (w ++ [c]) hds)

/-- A mark ends a word and is no part of one. -/
theorem step_mark (w : List Char) {c : Char} (hc : isMark c = true) :
    step (.word w) c = some (flush w ++ [.mark c], .word []) := by
  have hother : marks.all (fun c => !isWordChar c && !isQuote c) = true := by decide
  have hc' := List.all_eq_true.mp hother c (List.contains_iff_mem.mp hc)
  obtain ⟨hword, hquote⟩ : isWordChar c = false ∧ isQuote c = false := by simpa using hc'
  simp only [step, hword, hquote, hc, Bool.false_eq_true, if_false, if_true]

/-- A word up to a mark is one token, and the mark is another. -/
theorem scan_word_mark (hds : ds ≠ []) (h : ∀ c ∈ ds, isWordChar c = true) {c : Char}
    (hc : isMark c = true) :
    scan (.word []) (ds ++ [c]) = some ([.word (String.ofList ds), .mark c], .word []) := by
  have hmark := scan_singleton (step_mark ds hc)
  rw [flush, if_neg hds] at hmark
  exact scan_append (scan_word [] h) hmark

theorem scan_mark {c : Char} (hc : isMark c = true) :
    scan (.word []) [c] = some ([.mark c], .word []) :=
  scan_singleton (step_mark [] hc)

/-! ### Quoted texts -/

/-- A text whose characters stand for themselves. -/
theorem scan_plain {quote : Char} (w : List Char)
    (h : ∀ c ∈ ds, c ≠ quote ∧ c ≠ '\\' ∧ Text.isLineEnd c = false) :
    scan (.text quote w) ds = some ([], .text quote (w ++ ds)) := by
  induction ds generalizing w with
  | nil => rw [scan, List.append_nil]
  | cons c ds ih =>
    obtain ⟨⟨hquote, hslash, hend⟩, hds⟩ := List.forall_mem_cons.mp h
    have hstep : step (.text quote w) c = some ([], .text quote (w ++ [c])) := by
      simp only [step, hquote, hslash, hend, Bool.false_eq_true, if_false]
    simpa using scan_cons hstep (ih (w ++ [c]) hds)

/-- A code of the length that its letter asks for is read as one character. -/
theorem scan_code {quote : Char} (w digits : List Char) {d : Char}
    (hcode : coded? (digits ++ ds) = some d) (hds : ds ≠ []) :
    scan (.code quote w digits ds.length) ds = some ([], .text quote (w ++ [d])) := by
  induction ds generalizing digits with
  | nil => exact (hds rfl).elim
  | cons c ds ih =>
    cases ds with
    | nil =>
      refine scan_singleton ?_
      rw [step, List.length_singleton, if_pos rfl, hcode, Option.map_some]
    | cons c' ds =>
      have hstep : step (.code quote w digits (c :: c' :: ds).length) c =
          some ([], .code quote w (digits ++ [c]) (c' :: ds).length) := by
        rw [step, if_neg (by simp)]
        rfl
      exact scan_cons hstep (ih (digits ++ [c]) (by simpa using hcode) (by simp))

/-- The digits of a character that has a number of at most so many digits. -/
theorem coded?_hexDigits {width : Nat} (c : Char) :
    coded? (Numeral.hexDigits width c.toNat) = some c := by
  have hdigits : Numeral.digits? 16 (Numeral.hexDigits width c.toNat) = some c.toNat :=
    Numeral.digits?_toDigits (by decide) (by decide) _ _
  rw [coded?, hdigits]
  simp only [Char.ofNat_toNat]
  exact if_pos c.valid

theorem length_hexDigits {width n : Nat} (hwidth : 0 < width) (h : n < 16 ^ width) :
    (Numeral.hexDigits width n).length = width := by
  have hlength : (Nat.toDigits 16 n).length ≤ width :=
    (Nat.length_toDigits_le_iff (by decide) hwidth).mpr h
  rw [Numeral.hexDigits, List.length_append, List.length_replicate]
  omega

/-- A character that is written as its number. -/
theorem scan_numbered {quote : Char} (w : List Char) (c : Char) (hquote : isQuote quote = true) :
    scan (.text quote w) (Text.Quoted.numbered c) = some ([], .text quote (w ++ [c])) := by
  have hslash : step (.text quote w) '\\' = some ([], .escape quote w) := by
    have hne : '\\' ≠ quote := by rintro rfl; exact absurd hquote (by decide)
    rw [step, if_neg hne, if_pos rfl]
  have hcode : ∀ (letter : Char) (width : Nat), escaped? letter = none →
      codeLength? letter = some width → 0 < width → c.toNat < 16 ^ width →
      scan (.text quote w) ('\\' :: letter :: Numeral.hexDigits width c.toNat) =
        some ([], .text quote (w ++ [c])) := by
    intro letter width hletter hwidth hpos hlt
    have hlength := length_hexDigits hpos hlt
    have hstep : step (.escape quote w) letter = some ([], .code quote w [] width) := by
      simp only [step, hletter, hwidth]
    have hdigits : scan (.code quote w [] (Numeral.hexDigits width c.toNat).length)
        (Numeral.hexDigits width c.toNat) = some ([], .text quote (w ++ [c])) :=
      scan_code w [] (coded?_hexDigits c) (List.ne_nil_of_length_pos (by omega))
    rw [hlength] at hdigits
    exact scan_cons hslash (scan_cons hstep hdigits)
  rw [Text.Quoted.numbered]
  split
  · exact hcode 'x' 2 (by decide) (by decide) (by decide) (by omega)
  · split
    · exact hcode 'u' 4 (by decide) (by decide) (by decide) (by omega)
    · refine hcode 'U' 8 (by decide) (by decide) (by decide) ?_
      exact lt_of_le_of_lt c.toNat_le_max (by decide)

/-- A character as it is written inside quotes. -/
theorem scan_escape {quote : Char} (w : List Char) (c : Char) (hquote : isQuote quote = true) :
    scan (.text quote w) (Text.Quoted.escape quote c) = some ([], .text quote (w ++ [c])) := by
  have hletter : ∀ letter d, escaped? letter = some d →
      scan (.text quote w) ['\\', letter] = some ([], .text quote (w ++ [d])) := by
    intro letter d hd
    have hne : '\\' ≠ quote := by rintro rfl; exact absurd hquote (by decide)
    have hslash : step (.text quote w) '\\' = some ([], .escape quote w) := by
      rw [step, if_neg hne, if_pos rfl]
    refine scan_cons hslash (scan_singleton ?_)
    simp only [step, hd]
  rw [Text.Quoted.escape]
  split
  · next h =>
    -- the quote in use, or a backslash
    refine hletter c c ?_
    rcases h with rfl | rfl
    · have hplain : c ≠ 'n' ∧ c ≠ 'r' ∧ c ≠ 't' := by
        refine ⟨?_, ?_, ?_⟩ <;> (rintro rfl; exact absurd hquote (by decide))
      simp only [escaped?, hplain, hquote, if_false, or_true, if_true]
    · decide
  · next h =>
    split
    · next hc => exact hc ▸ hletter 'n' '\n' (by decide)
    · split
      · next hc => exact hc ▸ hletter 'r' '\r' (by decide)
      · split
        · next hc => exact hc ▸ hletter 't' '\t' (by decide)
        · split
          · next hlf hcr _ _ =>
            refine scan_plain w fun d hd => ?_
            obtain rfl := List.mem_singleton.mp hd
            exact ⟨fun hc => h (.inl hc), fun hc => h (.inr hc), by simp [Text.isLineEnd, hlf, hcr]⟩
          · exact scan_numbered w c hquote

/-- **Escaped characters are scanned back** inside a text. -/
theorem scan_escapes {quote : Char} (w ds : List Char) (hquote : isQuote quote = true) :
    scan (.text quote w) (ds.flatMap (Text.Quoted.escape quote)) =
      some ([], .text quote (w ++ ds)) := by
  induction ds generalizing w with
  | nil => rw [List.flatMap_nil, scan, List.append_nil]
  | cons c ds ih =>
    rw [List.flatMap_cons]
    simpa using scan_append (scan_escape w c hquote) (ih (w ++ [c]))

/-- What is scanned between two quotes is one text. -/
theorem scan_between {quote : Char} (hquote : isQuote quote = true) {w : List Char}
    (h : scan (.text quote []) ds = some ([], .text quote w)) :
    scan (.word []) (quote :: ds ++ [quote]) = some ([.text (String.ofList w)], .word []) := by
  have hopen : step (.word []) quote = some ([], .text quote []) := by
    have hword : isWordChar quote = false := by
      have hcases : quote = '\x27' ∨ quote = '"' := by simpa [isQuote] using hquote
      rcases hcases with rfl | rfl <;> decide
    simp only [step, hword, hquote, Bool.false_eq_true, if_false, if_true]
    rfl
  have hclose : step (.text quote w) quote = some ([.text (String.ofList w)], .word []) := by
    rw [step, if_pos rfl]
  exact scan_append (scan_cons hopen h) (scan_singleton hclose)

/-- **A quoted text is one token**, the text itself. -/
theorem scan_quote (s : String) :
    scan (.word []) (Text.Quoted.quote s).toList = some ([.text s], .word []) := by
  have hmark : isQuote (Text.Quoted.mark s.toList) = true := by
    rw [Text.Quoted.mark]
    split <;> decide
  have h := scan_between hmark (scan_escapes [] s.toList hmark)
  rw [List.nil_append, String.ofList_toList] at h
  rw [Text.Quoted.quote, String.toList_ofList]
  exact h

end Scanning

/-! ## Printed expressions -/

/-- The token of an atom. -/
def ofAtom : Atom → Token
  | .none => .word "None"
  | .int n => .word (toString n)
  | .text s => .text s

mutual

/-- The tokens of a type expression. -/
def tokens : TypeExpr → List Token
  | .atom a => [ofAtom a]
  | .list ts => .mark '[' :: [Token.mark ','].intercalate (itemTokens ts) ++ [.mark ']']
  | .record fs => .mark '\x7b' :: [Token.mark ','].intercalate (fieldTokens fs) ++ [.mark '\x7d']

/-- The tokens of each item of a list. -/
def itemTokens : List TypeExpr → List (List Token)
  | [] => []
  | t :: ts => tokens t :: itemTokens ts

/-- The tokens of each field of a record. -/
def fieldTokens : List (Atom × TypeExpr) → List (List Token)
  | [] => []
  | (k, t) :: fs => (ofAtom k :: .mark ':' :: tokens t) :: fieldTokens fs

end

/-- Characters that are scanned as some tokens once a mark follows. -/
def Scans (cs : List Char) (ts : List Token) : Prop :=
  ∀ c, isMark c = true → scan (.word []) (cs ++ [c]) = some (ts ++ [.mark c], .word [])

theorem Scans.of_closed {cs : List Char} {ts : List Token}
    (h : scan (.word []) cs = some (ts, .word [])) : Scans cs ts :=
  fun _ hc => scan_append h (scan_mark hc)

/-! ### Numbers -/

/-- A word that is a number. -/
structure IsNumeral (w : String) (n : Int) : Prop where
  /-- it is not empty -/
  nonempty : w.toList ≠ []
  /-- it is a word -/
  chars : ∀ c ∈ w.toList, isWordChar c = true
  /-- it is read as the number -/
  value : Numeral.signed? .marked w.toList = some n

theorem isWordChar_toDigits {base n : Nat} (hbase : 1 < base) (hbase' : base ≤ 16) :
    ∀ c ∈ Nat.toDigits base n, isWordChar c = true := by
  have hdigit : ∀ d < 16, isWordChar d.digitChar = true := by decide
  intro c hc
  obtain ⟨d, hd, rfl⟩ := Numeral.mem_digits_of_mem_toDigits hbase hbase' hc
  exact hdigit d hd

theorem unsigned?_toDigits (n : Nat) : Numeral.unsigned? .marked (Nat.toDigits 10 n) = some n := by
  have hdigits : Numeral.digits? 10 (Nat.toDigits 10 n) = some n :=
    Numeral.digits?_toDigits (by decide) (by decide) 0 n
  by_cases hzero : n = 0
  · rw [hzero]
    rfl
  · have hhead := Numeral.head?_toDigits_ne (by decide : 1 < 10) (by decide) hzero
    rw [Numeral.unsigned?.eq_def]
    split
    · next h => cases h
    · next h _ => cases h
    · next h _ => cases h
    · next h => rw [h] at hhead; exact (hhead rfl).elim
    · exact hdigits

/-- A number in decimal is a numeral. -/
theorem isNumeral_toString (n : Int) : IsNumeral (toString n) n := by
  have hsign : ∀ m : Nat, ∀ c ∈ Nat.toDigits 10 m, c ≠ '-' ∧ c ≠ '+' := by
    have hdigit : ∀ d < 16, Nat.digitChar d ≠ '-' ∧ Nat.digitChar d ≠ '+' := by decide
    intro m c hc
    obtain ⟨d, hd, rfl⟩ := Numeral.mem_digits_of_mem_toDigits (by decide) (by decide) hc
    exact hdigit d hd
  cases n with
  | ofNat n =>
    have hlist : (toString (Int.ofNat n)).toList = Nat.toDigits 10 n := Nat.toList_repr
    refine ⟨?_, ?_, ?_⟩ <;> rw [hlist]
    · exact Nat.toDigits_ne_nil
    · exact isWordChar_toDigits (by decide) (by decide)
    · rw [Numeral.signed?_of_head, unsigned?_toDigits, Option.map_some]
      · rfl
      · intro ds h
        exact (hsign n '-' (h ▸ List.mem_cons_self)).1 rfl
      · intro ds h
        exact (hsign n '+' (h ▸ List.mem_cons_self)).2 rfl
  | negSucc n =>
    have hlist : (toString (Int.negSucc n)).toList = '-' :: Nat.toDigits 10 (n + 1) := by
      rw [show toString (Int.negSucc n) = "-" ++ (n + 1).repr from rfl, String.toList_append,
        Nat.toList_repr]
      rfl
    refine ⟨?_, ?_, ?_⟩ <;> rw [hlist]
    · exact List.cons_ne_nil _ _
    · exact List.forall_mem_cons.mpr ⟨by decide, isWordChar_toDigits (by decide) (by decide)⟩
    · rw [Numeral.signed?, unsigned?_toDigits]
      rfl

/-- So is one in hexadecimal, of any width. -/
theorem isNumeral_hex (width : Nat) (n : Int) : IsNumeral (Numeral.hex width n) n := by
  have hchars : ∀ width m, ∀ c ∈ '0' :: 'x' :: Numeral.hexDigits width m, isWordChar c = true := by
    intro width m c hc
    rw [Numeral.hexDigits] at hc
    simp only [List.mem_cons, List.mem_append, List.mem_replicate] at hc
    rcases hc with rfl | rfl | ⟨-, rfl⟩ | hc
    · decide
    · decide
    · decide
    · exact isWordChar_toDigits (by decide) (by decide) c hc
  have hvalue : ∀ width m,
      Numeral.unsigned? .marked ('0' :: 'x' :: Numeral.hexDigits width m) = some m :=
    fun width m => Numeral.digits?_toDigits (by decide) (by decide) _ m
  rw [Numeral.hex]
  split
  · next hneg =>
    have hlist : ("-0x" ++ String.ofList (Numeral.hexDigits (width - 3) n.natAbs)).toList =
        '-' :: '0' :: 'x' :: Numeral.hexDigits (width - 3) n.natAbs := by
      simp
    refine ⟨?_, ?_, ?_⟩ <;> rw [hlist]
    · exact List.cons_ne_nil _ _
    · exact List.forall_mem_cons.mpr ⟨by decide, hchars _ _⟩
    · rw [Numeral.signed?, hvalue]
      exact congrArg some (by omega : -(n.natAbs : Int) = n)
  · next hneg =>
    have hlist : ("0x" ++ String.ofList (Numeral.hexDigits (width - 2) n.natAbs)).toList =
        '0' :: 'x' :: Numeral.hexDigits (width - 2) n.natAbs := by
      simp
    refine ⟨?_, ?_, ?_⟩ <;> rw [hlist]
    · exact List.cons_ne_nil _ _
    · exact hchars _ _
    · rw [Numeral.signed?_of_head (by simp) (by simp), hvalue]
      exact congrArg some (by omega : (n.natAbs : Int) = n)

/-- A numeral is one word, with or without a sign. -/
theorem IsNumeral.scans {w : String} {n : Int} (h : IsNumeral w n) : Scans w.toList [.word w] := by
  intro c hc
  simpa using scan_word_mark h.nonempty h.chars hc

/-! ### Lists and records -/

theorem scans_atom (a : Atom) : Scans a.render.toList [ofAtom a] := by
  cases a with
  | none => exact fun c hc => scan_word_mark (by decide) (List.all_eq_true.mp (by decide)) hc
  | int n => exact (isNumeral_toString n).scans
  | text s => exact .of_closed (scan_quote s)

/-- What stands between brackets: items with a comma and a blank between them. -/
theorem scan_items {xs : List (List Char)} {ts : List (List Token)} (h : List.Forall₂ Scans xs ts)
    {close : Char} (hclose : isMark close = true) :
    scan (.word []) (", ".toList.intercalate xs ++ [close]) =
      some ([Token.mark ','].intercalate ts ++ [.mark close], .word []) := by
  induction h with
  | nil => exact scan_mark hclose
  | @cons x t xs ts hx hxs ih =>
    cases hxs with
    | nil => simpa using hx close hclose
    | @cons y u ys us hy hys =>
      have hcomma : scan (.word []) (x ++ [',']) = some (t ++ [.mark ','], .word []) :=
        hx ',' (by decide)
      have hgap : scan (.word []) [' '] = some ([], .word []) := rfl
      have hscan := scan_append (scan_append hcomma hgap) ih
      simpa [List.intercalate_cons_cons] using hscan

/-- The whole of a list or a record. -/
theorem Scans.enclosed (opening close : Char) {xs : List (List Char)} {ts : List (List Token)}
    (h : List.Forall₂ Scans xs ts) (hopening : isMark opening = true)
    (hclose : isMark close = true) :
    Scans (opening :: ", ".toList.intercalate xs ++ [close])
      (.mark opening :: [Token.mark ','].intercalate ts ++ [.mark close]) := by
  have hscan := scan_append (scan_mark hopening) (scan_items h hclose)
  exact .of_closed (by simpa using hscan)

theorem Scans.field {ks xs : List Char} {us ts : List Token} (hk : Scans ks us) (hx : Scans xs ts) :
    Scans (ks ++ ": ".toList ++ xs) (us ++ .mark ':' :: ts) := by
  intro c hc
  have hcolon : scan (.word []) (ks ++ [':']) = some (us ++ [.mark ':'], .word []) :=
    hk ':' (by decide)
  have hgap : scan (.word []) [' '] = some ([], .word []) := rfl
  have hscan := scan_append (scan_append hcolon hgap) (hx c hc)
  simpa using hscan

mutual

/-- **A printed expression** is scanned as its tokens. -/
theorem scan_render (t : TypeExpr) : Scans t.render.toList (tokens t) := by
  cases t with
  | atom a => exact scans_atom a
  | list ts =>
    have hscans := Scans.enclosed '[' ']' (scan_renderItems ts) (by decide) (by decide)
    simpa [TypeExpr.render, tokens, String.toList_intercalate] using hscans
  | record fs =>
    have hscans := Scans.enclosed '\x7b' '\x7d' (scan_renderFields fs) (by decide) (by decide)
    simpa [TypeExpr.render, tokens, String.toList_intercalate] using hscans

/-- The items of a printed list are scanned each by itself. -/
theorem scan_renderItems (ts : List TypeExpr) :
    List.Forall₂ Scans ((TypeExpr.renderItems ts).map String.toList) (itemTokens ts) := by
  cases ts with
  | nil => exact .nil
  | cons t ts => exact .cons (scan_render t) (scan_renderItems ts)

/-- So are the fields of a printed record. -/
theorem scan_renderFields (fs : List (Atom × TypeExpr)) :
    List.Forall₂ Scans ((TypeExpr.renderFields fs).map String.toList) (fieldTokens fs) := by
  cases fs with
  | nil => exact .nil
  | cons f fs =>
    obtain ⟨k, t⟩ := f
    refine .cons ?_ (scan_renderFields fs)
    simpa using Scans.field (scans_atom k) (scan_render t)

end

/-! ## The reader -/

/-- The atom of a token. -/
def Token.atom? : Token → Option Atom
  | .mark _ => none
  | .text s => some (.text s)
  | .word w => if w = "None" then some .none else (Numeral.signed? .marked w.toList).map .int

/-- Entries up to a closing mark, each read by `entry`, with commas between them. -/
def sequence {α : Type} (close : Char) (entry : List Token → Option (α × List Token)) :
    Nat → List Token → Option (List α × List Token)
  | 0, _ => none
  | n + 1, ts =>
    if ts.head? = some (.mark close) then some ([], ts.tail)
    else
      match entry ts with
      | some (x, .mark c :: rest) =>
        if c = close then some ([x], rest)
        else if c = ',' then (sequence close entry n rest).map fun r => (x :: r.1, r.2)
        else none
      | _ => none

/-- A field of a record, its value read by `value`. -/
def field (value : List Token → Option (TypeExpr × List Token)) :
    List Token → Option ((Atom × TypeExpr) × List Token)
  | k :: .mark c :: ts =>
    if c = ':' then
      match k.atom?, value ts with
      | some a, some (t, rest) => some ((a, t), rest)
      | _, _ => none
    else none
  | _ => none

/-- The expression that tokens start with, and the tokens after it, going in at most so deep. -/
def value : Nat → List Token → Option (TypeExpr × List Token)
  | n + 1, .mark c :: ts =>
    if c = '[' then (sequence ']' (value n) n ts).map fun r => (.list r.1, r.2)
    else if c = '\x7b' then (sequence '\x7d' (field (value n)) n ts).map fun r => (.record r.1, r.2)
    else none
  | _ + 1, t :: ts => t.atom?.map fun a => (.atom a, ts)
  | _, _ => none

/-- No entry starts with a mark that closes. -/
def IsOpen (ts : List Token) : Prop :=
  ts ≠ [] ∧ ts.head? ≠ some (.mark ']') ∧ ts.head? ≠ some (.mark '\x7d')

section Sequences

variable {α : Type} {close : Char} {entry : List Token → Option (α × List Token)} {x : α}
  {ts rest : List Token} {n bound : Nat}

theorem head?_append_ne (hts : IsOpen ts) (hclose : close = ']' ∨ close = '\x7d') :
    (ts ++ rest).head? ≠ some (.mark close) := by
  obtain ⟨hne, hlist, hrecord⟩ := hts
  rw [List.head?_append_of_ne_nil _ hne]
  rcases hclose with rfl | rfl
  · exact hlist
  · exact hrecord

theorem sequence_close : sequence close entry (n + 1) (.mark close :: rest) = some ([], rest) := by
  simp [sequence]

/-- An entry before the closing mark is the last one. -/
theorem sequence_last (hts : IsOpen ts) (hclose : close = ']' ∨ close = '\x7d')
    (h : entry (ts ++ .mark close :: rest) = some (x, .mark close :: rest)) :
    sequence close entry (n + 1) (ts ++ .mark close :: rest) = some ([x], rest) := by
  rw [sequence, if_neg (head?_append_ne hts hclose), h]
  simp

/-- After an entry and a comma, the others are read. -/
theorem sequence_comma (hts : IsOpen ts) (hclose : close = ']' ∨ close = '\x7d')
    (h : entry (ts ++ .mark ',' :: rest) = some (x, .mark ',' :: rest)) :
    sequence close entry (n + 1) (ts ++ .mark ',' :: rest) =
      (sequence close entry n rest).map fun r => (x :: r.1, r.2) := by
  have hcomma : ',' ≠ close := by rcases hclose with rfl | rfl <;> decide
  rw [sequence, if_neg (head?_append_ne hts hclose), h]
  simp [hcomma]

/-- What an entry is read from, whatever follows it, if it is not longer than a bound. -/
structure Reads (entry : List Token → Option (α × List Token)) (bound : Nat) (ts : List Token)
    (x : α) : Prop where
  /-- it cannot be taken for the end -/
  isOpen : IsOpen ts
  /-- it is read, and nothing more -/
  read : ∀ rest, ts.length ≤ bound → entry (ts ++ rest) = some (x, rest)

/-- Entries with commas between them. -/
theorem sequence_separated {pieces : List (List Token)} {xs : List α}
    (hclose : close = ']' ∨ close = '\x7d') (h : List.Forall₂ (Reads entry bound) pieces xs)
    (hbound : ([Token.mark ','].intercalate pieces).length ≤ bound)
    (hn : ([Token.mark ','].intercalate pieces).length < n) (rest : List Token) :
    sequence close entry n ([Token.mark ','].intercalate pieces ++ .mark close :: rest) =
      some (xs, rest) := by
  induction h generalizing n with
  | nil =>
    obtain ⟨n, rfl⟩ := Nat.exists_eq_add_of_lt hn
    simpa using sequence_close
  | @cons piece x pieces xs hx hxs ih =>
    cases hxs with
    | nil =>
      obtain ⟨n, rfl⟩ := Nat.exists_eq_add_of_lt hn
      simpa using sequence_last hx.isOpen hclose (hx.read _ (by simpa using hbound))
    | @cons piece' y pieces ys hy hys =>
      obtain ⟨n, rfl⟩ : ∃ m, n = m + 1 := ⟨n - 1, by omega⟩
      rw [List.intercalate_cons_cons] at hbound hn ⊢
      simp only [List.length_append, List.length_singleton] at hbound hn
      have hrest := ih (n := n) (by omega) (by omega)
      rw [List.append_assoc, List.append_assoc, List.singleton_append,
        sequence_comma hx.isOpen hclose (hx.read _ (by omega)), hrest, Option.map_some]

/-- Entries with a comma after each of them. -/
theorem sequence_terminated {pieces : List (List Token)} {xs : List α}
    (hclose : close = ']' ∨ close = '\x7d') (h : List.Forall₂ (Reads entry bound) pieces xs)
    (hbound : (pieces.flatMap (· ++ [Token.mark ','])).length ≤ bound)
    (hn : (pieces.flatMap (· ++ [Token.mark ','])).length < n) (rest : List Token) :
    sequence close entry n (pieces.flatMap (· ++ [Token.mark ',']) ++ .mark close :: rest) =
      some (xs, rest) := by
  induction h generalizing n with
  | nil =>
    obtain ⟨n, rfl⟩ := Nat.exists_eq_add_of_lt hn
    simpa using sequence_close
  | @cons piece x pieces xs hx hxs ih =>
    obtain ⟨n, rfl⟩ : ∃ m, n = m + 1 := ⟨n - 1, by omega⟩
    rw [List.flatMap_cons] at hbound hn ⊢
    simp only [List.length_append, List.length_singleton] at hbound hn
    have hrest := ih (n := n) (by omega) (by omega)
    rw [List.append_assoc, List.append_assoc, List.singleton_append,
      sequence_comma hx.isOpen hclose (hx.read _ (by omega)), hrest, Option.map_some]

end Sequences

/-! ## Spelling -/

/-- **Tokens that spell an expression.** They are read as it with any bound that is not below their
number. -/
def Spells (ts : List Token) (t : TypeExpr) : Prop := ∀ n, Reads (value n) n ts t

/-- Tokens that spell a field of a record. -/
def SpellsField (ts : List Token) (f : Atom × TypeExpr) : Prop :=
  ∀ n, Reads (field (value n)) n ts f

theorem isOpen_of_atom {k : Token} {a : Atom} (h : k.atom? = some a) (ts : List Token) :
    IsOpen (k :: ts) := by
  cases k with
  | mark c => cases h
  | text s => exact ⟨by simp, by simp, by simp⟩
  | word w => exact ⟨by simp, by simp, by simp⟩

theorem Spells.atom {k : Token} {a : Atom} (h : k.atom? = some a) : Spells [k] (.atom a) := by
  refine fun n => ⟨isOpen_of_atom h [], fun rest hn => ?_⟩
  obtain ⟨n, rfl⟩ := Nat.exists_eq_add_of_le' hn
  cases k with
  | mark c => cases h
  | text s => simp [value, h]
  | word w => simp [value, h]

theorem Spells.field {k : Token} {a : Atom} (hk : k.atom? = some a) {ts : List Token}
    {t : TypeExpr} (h : Spells ts t) : SpellsField (k :: .mark ':' :: ts) (a, t) := by
  refine fun n => ⟨isOpen_of_atom hk _, fun rest hn => ?_⟩
  have hread := (h n).read rest (by simp at hn; omega)
  simp [Literal.field, hk, hread]

/-- What stands between an opening and a closing mark is read one deeper. -/
theorem Spells.enclosed {inner : List Token} {opening close : Char} {t : TypeExpr}
    (hopening : opening = '[' ∨ opening = '\x7b')
    (h : ∀ n rest, inner.length < n →
      value (n + 1) (.mark opening :: (inner ++ .mark close :: rest)) = some (t, rest)) :
    Spells (.mark opening :: inner ++ [.mark close]) t := by
  have hopen : IsOpen (.mark opening :: inner ++ [.mark close]) := by
    rcases hopening with rfl | rfl <;> exact ⟨by simp, by simp, by simp⟩
  refine fun n => ⟨hopen, fun rest hn => ?_⟩
  have hlength : inner.length + 1 < n := by simpa using hn
  obtain ⟨n, rfl⟩ : ∃ m, n = m + 1 := ⟨n - 1, by omega⟩
  simpa using h n rest (by omega)

/-- Tokens of items with commas between them, in brackets, are those of a list. -/
theorem Spells.list {pieces : List (List Token)} {ts : List TypeExpr}
    (h : List.Forall₂ Spells pieces ts) :
    Spells (.mark '[' :: [Token.mark ','].intercalate pieces ++ [.mark ']']) (.list ts) := by
  refine .enclosed (.inl rfl) fun n rest hn => ?_
  have hread := sequence_separated (.inl rfl) (h.imp fun _ _ h => h n) hn.le hn rest
  simp [value, hread]

/-- Tokens of fields with commas between them, in braces, are those of a record. -/
theorem Spells.record {pieces : List (List Token)} {fs : List (Atom × TypeExpr)}
    (h : List.Forall₂ SpellsField pieces fs) :
    Spells (.mark '\x7b' :: [Token.mark ','].intercalate pieces ++ [.mark '\x7d']) (.record fs) := by
  refine .enclosed (.inr rfl) fun n rest hn => ?_
  have hread := sequence_separated (.inr rfl) (h.imp fun _ _ h => h n) hn.le hn rest
  simp [value, hread]

/-- A record with a comma after each field. -/
theorem Spells.recordLines {pieces : List (List Token)} {fs : List (Atom × TypeExpr)}
    (h : List.Forall₂ SpellsField pieces fs) :
    Spells (.mark '\x7b' :: pieces.flatMap (· ++ [.mark ',']) ++ [.mark '\x7d']) (.record fs) := by
  refine .enclosed (.inr rfl) fun n rest hn => ?_
  have hread := sequence_terminated (.inr rfl) (h.imp fun _ _ h => h n) hn.le hn rest
  simp [value, hread]

theorem IsNumeral.atom? {w : String} {n : Int} (h : IsNumeral w n) :
    (Token.word w).atom? = some (.int n) := by
  have hne : w ≠ "None" := by
    rintro rfl
    have hnone : Numeral.signed? .marked "None".toList = none := by decide
    rw [h.value] at hnone
    cases hnone
  rw [Token.atom?, if_neg hne, h.value, Option.map_some]

/-- The token of an atom is read back as the atom. -/
theorem atom?_ofAtom (a : Atom) : (ofAtom a).atom? = some a := by
  cases a with
  | none => rfl
  | int n => exact (isNumeral_toString n).atom?
  | text s => rfl

mutual

/-- **The tokens of an expression** spell it. -/
theorem spells_tokens (t : TypeExpr) : Spells (tokens t) t := by
  cases t with
  | atom a =>
    rw [tokens]
    exact .atom (atom?_ofAtom a)
  | list ts =>
    rw [tokens]
    exact .list (spells_itemTokens ts)
  | record fs =>
    rw [tokens]
    exact .record (spells_fieldTokens fs)

theorem spells_itemTokens (ts : List TypeExpr) : List.Forall₂ Spells (itemTokens ts) ts := by
  cases ts with
  | nil => exact .nil
  | cons t ts => exact .cons (spells_tokens t) (spells_itemTokens ts)

theorem spells_fieldTokens (fs : List (Atom × TypeExpr)) :
    List.Forall₂ SpellsField (fieldTokens fs) fs := by
  cases fs with
  | nil => exact .nil
  | cons f fs =>
    obtain ⟨k, t⟩ := f
    exact .cons ((spells_tokens t).field (atom?_ofAtom k)) (spells_fieldTokens fs)

end

end CpuTrace.Literal
