import TestLanes.Json.Token
import TestLanes.Json.Writer
import TestLanes.Proofs.Text.Numeral

/-!
# Reading the tokens that were written

What the writer gives for a number or a string is one token again: the digits of a number below 2^64
are read as that number (`readNumber_toDigits`), and the characters of a string, escaped or not, as
those of that string (`readPieces_escaped`, `join_map_pieceOf`).  A number is the only token that
does not tell where it ends, so what follows it must not go on with it (`EndsNumber`).
-/

namespace TestLanes.Json

open Decimal (takeDigits)
open Text (digit? digit?_eq_some digitValue eq_nil_of_toDigits_eq_zero_cons eq_zero_of_digitValue
  isDigit_toDigits le_ofDigitChars wordBound)

/-! ## 1. Numbers

The digits of a number go through three readers, for the whole part, the fraction and the exponent.
What ends a number is neither a point nor the letter of an exponent, so the last two find nothing;
and a numeral has a zero in front only if it is zero.
-/

/-- What a number cannot go on with. -/
def EndsNumber (rest : List Char) : Prop :=
  ∀ c cs, rest = c :: cs → digit? c = none ∧ c ≠ '.' ∧ c ≠ 'e' ∧ c ≠ 'E'

theorem endsNumber_nil : EndsNumber [] := fun _ _ h => nomatch h

/-- All digits in front are taken. -/
theorem takeDigits_append {ds rest : List Char} (hds : ∀ c ∈ ds, c.isDigit = true)
    (hrest : EndsNumber rest) : takeDigits (ds ++ rest) = (ds.map digitValue, rest) := by
  induction ds with
  | nil =>
    cases rest with
    | nil => rfl
    | cons c cs => simp [takeDigits, (hrest c cs rfl).1]
  | cons d ds ih =>
    have hd := digit?_eq_some (hds d List.mem_cons_self)
    simp [takeDigits, hd, ih fun c hc => hds c (List.mem_cons_of_mem d hc)]

/-- Digits whose number is a word are all counted. -/
theorem leadingWord_eq (cs : List Char) {n : Nat} (h : Nat.ofDigitChars 10 cs n < wordBound) :
    leadingWord n (cs.map digitValue) = (Nat.ofDigitChars 10 cs n, 0) := by
  induction cs generalizing n with
  | nil => simp [leadingWord]
  | cons c cs ih =>
    rw [Nat.ofDigitChars_cons, Nat.mul_comm 10 n] at h ⊢
    have hstep : n * 10 + digitValue c < Nat.pow 2 64 :=
      Nat.lt_of_le_of_lt (le_ofDigitChars cs _) h
    rw [List.map_cons, leadingWord, if_pos hstep]
    exact ih h

theorem readWhole_toDigits (n : Nat) {rest : List Char} (hrest : EndsNumber rest) :
    readWhole (Nat.toDigits 10 n ++ rest) = some ((Nat.toDigits 10 n).map digitValue, rest) := by
  have hdigits := isDigit_toDigits n
  rw [readWhole, takeDigits_append hdigits hrest]
  cases hn : Nat.toDigits 10 n with
  | nil => exact absurd hn Nat.toDigits_ne_nil
  | cons c cs =>
    cases cs with
    | nil => simp
    | cons d cs =>
      have hc : digitValue c ≠ 0 := by
        intro hzero
        rw [eq_zero_of_digitValue (hdigits c (hn ▸ List.mem_cons_self)) hzero] at hn
        cases eq_nil_of_toDigits_eq_zero_cons hn
      simp [hc]

theorem readFraction_eq {rest : List Char} (h : EndsNumber rest) :
    readFraction rest = some (none, rest) := by
  cases rest with
  | nil => rfl
  | cons c cs =>
    rw [readFraction]
    intro cs' heq
    exact (h c cs rfl).2.1 (List.cons.inj heq).1

theorem readExponent_eq {rest : List Char} (h : EndsNumber rest) :
    readExponent rest = some (none, rest) := by
  cases rest with
  | nil => rfl
  | cons c cs =>
    obtain ⟨-, -, he, hE⟩ := h c cs rfl
    simp [readExponent, he, hE]

theorem readUnsigned_toDigits (negative : Bool) (n : Nat) {rest : List Char}
    (hrest : EndsNumber rest) : readUnsigned negative (Nat.toDigits 10 n ++ rest)
      = some (numberOf negative ((Nat.toDigits 10 n).map digitValue) none none, rest) := by
  simp [readUnsigned, readWhole_toDigits n hrest, readFraction_eq hrest, readExponent_eq hrest]

theorem leadingWord_toDigits {n : Nat} (hn : n < wordBound) :
    leadingWord 0 ((Nat.toDigits 10 n).map digitValue) = (n, 0) := by
  have hvalue := leadingWord_eq (Nat.toDigits 10 n) (n := 0)
  rw [Nat.ofDigitChars_ten_toDigits] at hvalue
  exact hvalue hn

/-- The integers that are written as they are read: words, and negative ones of 64 bits. -/
def Number.IsWhole : Number → Prop
  | .natural n => n < wordBound
  | .negative n => 0 < n ∧ n ≤ Nat.pow 2 63
  | .real _ => False

/-- **An integer is read as itself.** -/
theorem readNumber_text {n : Number} (hn : n.IsWhole) {rest : List Char} (hrest : EndsNumber rest) :
    readNumber (n.text ++ rest) = some (some n, rest) := by
  cases n with
  | natural n =>
    have hsign : ∀ cs, Nat.toDigits 10 n ++ rest ≠ '-' :: cs := by
      intro cs h
      cases hd : Nat.toDigits 10 n with
      | nil => exact absurd hd Nat.toDigits_ne_nil
      | cons c ds =>
        rw [hd] at h
        have hminus := isDigit_toDigits n c (hd ▸ List.mem_cons_self)
        rw [(List.cons.inj h).1] at hminus
        exact absurd hminus (by decide)
    rw [Number.text, readNumber, readUnsigned_toDigits false n hrest]
    · simp [numberOf, leadingWord_toDigits hn]
    · exact hsign
  | negative n =>
    have hword : n < wordBound := Nat.lt_of_le_of_lt hn.2 (by decide)
    rw [Number.text, List.cons_append, readNumber, readUnsigned_toDigits true n hrest]
    simp [numberOf, leadingWord_toDigits hword, hn.1, hn.2]
  | real x => exact hn.elim

/-! ## 2. Strings

A character is written in one of three ways, by a letter behind a backslash, by its code, or as it
is.  Each of them is read as one piece, and the pieces of a string denote its characters: the codes
that are written are those of controls, and no control is half of a pair.
-/

/-- The piece that a character is read as: controls without a letter of their own are given by their
code. -/
def pieceOf (c : Char) : Piece :=
  if c.toNat < 0x20 ∧ c ∉ ['\x08', '\x0c', '\n', '\r', '\t'] then .unit c.toNat else .char c

/-- Four hexadecimal digits give the code that they were made from. -/
theorem codeUnit?_hexDigit : ∀ n < 0x20,
    codeUnit? '0' '0' (hexDigit (n / 16)) (hexDigit (n % 16)) = some n := by decide

/-- A character is written by a letter, by its code or as it is. -/
theorem escape_cases (c : Char) :
    (∃ e, escape c = ['\\', e] ∧ escaped? e = some c ∧ pieceOf c = .char c) ∨
    (c.toNat < 0x20 ∧ pieceOf c = .unit c.toNat ∧
      escape c = ['\\', 'u', '0', '0', hexDigit (c.toNat / 16), hexDigit (c.toNat % 16)]) ∨
    (escape c = [c] ∧ pieceOf c = .char c ∧ c ≠ '"' ∧ c ≠ '\\' ∧ 0x20 ≤ c.toNat) := by
  by_cases hletter : c ∈ ['"', '\\', '\x08', '\x0c', '\n', '\r', '\t']
  · simp only [List.mem_cons, List.not_mem_nil, or_false] at hletter
    rcases hletter with rfl | rfl | rfl | rfl | rfl | rfl | rfl <;> exact .inl ⟨_, rfl, rfl, rfl⟩
  · simp only [List.mem_cons, List.not_mem_nil, or_false, not_or] at hletter
    obtain ⟨hquote, hslash, hb, hf, hn, hr, ht⟩ := hletter
    by_cases hlow : c.toNat < 0x20
    · exact .inr (.inl ⟨hlow, by simp [pieceOf, *], by simp [escape, *]⟩)
    · exact .inr (.inr ⟨by simp [escape, *], by simp [pieceOf, *], hquote, hslash, by omega⟩)

theorem readPieces_letter {e c : Char} (h : escaped? e = some c) (rest : List Char) :
    readPieces ('\\' :: e :: rest) = (readPieces rest).map fun q => (.char c :: q.1, q.2) := by
  have hu : e ≠ 'u' := by
    rintro rfl
    cases h
  rw [readPieces]
  · rw [h]
    cases readPieces rest <;> rfl
  · rintro a b c d rest' he rfl
    exact hu he

theorem readPieces_code {n : Nat} (h : n < 0x20) (rest : List Char) :
    readPieces (['\\', 'u', '0', '0', hexDigit (n / 16), hexDigit (n % 16)] ++ rest)
      = (readPieces rest).map fun q => (.unit n :: q.1, q.2) := by
  simp only [List.cons_append, List.nil_append]
  rw [readPieces, codeUnit?_hexDigit n h]
  cases readPieces rest <;> rfl

theorem readPieces_plain {c : Char} (hquote : c ≠ '"') (hslash : c ≠ '\\') (hlow : 0x20 ≤ c.toNat)
    (rest : List Char) :
    readPieces (c :: rest) = (readPieces rest).map fun q => (.char c :: q.1, q.2) := by
  rw [readPieces]
  · rw [if_neg (by simp only [not_or]; exact ⟨hslash, by omega⟩)]
    cases readPieces rest <;> rfl
  · exact hquote
  · exact fun _ _ _ _ _ h _ => hslash h
  · exact fun _ _ h _ => hslash h

/-- **A character as it is written is read as one piece.** -/
theorem readPieces_escape (c : Char) (rest : List Char) :
    readPieces (escape c ++ rest) = (readPieces rest).map fun q => (pieceOf c :: q.1, q.2) := by
  rcases escape_cases c with ⟨e, hwritten, he, hpiece⟩ | ⟨hlow, hpiece, hwritten⟩ |
    ⟨hwritten, hpiece, hquote, hslash, hlow⟩
  · rw [hwritten, hpiece]
    exact readPieces_letter he rest
  · rw [hwritten, hpiece]
    exact readPieces_code hlow rest
  · rw [hwritten, hpiece]
    exact readPieces_plain hquote hslash hlow rest

/-- **A string is read up to its closing quote.** -/
theorem readPieces_escaped (cs rest : List Char) :
    readPieces (cs.flatMap escape ++ '"' :: rest) = some (cs.map pieceOf, rest) := by
  induction cs with
  | nil => rfl
  | cons c cs ih =>
    rw [List.flatMap_cons, List.append_assoc, readPieces_escape, ih]
    rfl

theorem join_unit {n : Nat} (h : n < 0x20) (ps : List Piece) :
    join (.unit n :: ps) = (Char.ofNat n :: ·) <$> join ps := by
  have hlead : isLead n = false := by simp [isLead]; omega
  have htrail : isTrail n = false := by simp [isTrail]; omega
  cases ps with
  | nil => simp [join, hlead, htrail]
  | cons p ps => cases p <;> simp [join, hlead, htrail]

/-- **The pieces of a string denote its characters.** -/
theorem join_map_pieceOf (cs : List Char) : join (cs.map pieceOf) = some cs := by
  induction cs with
  | nil => rfl
  | cons c cs ih =>
    rw [List.map_cons, pieceOf]
    split
    · next hlow =>
      rw [join_unit hlow.1, ih, Char.ofNat_toNat]
      rfl
    · rw [join, ih]
      rfl

/-! ## 3. Tokens

`Begins cs ts rest` says that scanning `cs` gives the tokens `ts` and then whatever scanning `rest`
gives.  It composes (`Begins.trans`), so the text of a value is scanned part by part, and what
stands behind a part is a variable.
-/

/-- The text `cs` begins with the tokens `ts`, and what follows them is read like `rest`. -/
def Begins (cs : List Char) (ts : List Token) (rest : List Char) : Prop :=
  scan cs = (ts ++ ·) <$> scan rest

theorem Begins.trans {cs mid rest : List Char} {ts us : List Token} (h : Begins cs ts mid)
    (h' : Begins mid us rest) : Begins cs (ts ++ us) rest := by
  rw [Begins, h, h']
  simp only [Option.map_eq_map, Option.map_map, Function.comp_def, List.append_assoc]

/-- Blanks are no tokens. -/
theorem begins_spaces {blanks : List Char} (h : ∀ c ∈ blanks, isSpace c = true) (rest : List Char) :
    Begins (blanks ++ rest) [] rest := by
  have hskip : scan (blanks ++ rest) = scan rest := by
    induction blanks with
    | nil => rfl
    | cons c blanks ih =>
      rw [List.cons_append, scan, if_pos (h c List.mem_cons_self)]
      exact ih fun d hd => h d (List.mem_cons_of_mem c hd)
  rw [Begins, hskip]
  cases scan rest <;> rfl

/-- What is read in front is the first token. -/
theorem begins_token {c : Char} {cs rest : List Char} {t : Token} (hc : isSpace c = false)
    (h : readToken c cs = some (t, rest)) : Begins (c :: cs) [t] rest := by
  rw [Begins, scan, if_neg (by simp [hc])]
  split
  · next hnone =>
    rw [h] at hnone
    cases hnone
  · next t' rest' hsome =>
    rw [h] at hsome
    cases hsome
    rfl

/-- **A string is one token.** -/
theorem begins_quote (s : String) (rest : List Char) :
    Begins (quote s ++ rest) [.text (some s)] rest := by
  rw [quote, List.cons_append, List.append_assoc]
  refine begins_token (by decide) ?_
  rw [readToken, List.cons_append, List.nil_append, readPieces_escaped]
  simp only [Option.map_some, join_map_pieceOf, String.ofList_toList]

/-- What begins with a digit or a minus sign is read as a number. -/
theorem readToken_number {c : Char} (hc : c.isDigit = true ∨ c = '-') (cs : List Char) :
    readToken c cs = (readNumber (c :: cs)).map fun q => (.number q.1, q.2) := by
  unfold readToken
  split
  case h_11 => rfl
  all_goals exact absurd hc (by decide)

theorem isSpace_eq_false_of_number {c : Char} (hc : c.isDigit = true ∨ c = '-') :
    isSpace c = false := by
  refine Bool.eq_false_iff.mpr fun h => ?_
  simp only [isSpace, Bool.or_eq_true, decide_eq_true_eq] at h
  rcases h with ((rfl | rfl) | rfl) | rfl <;> exact absurd hc (by decide)

theorem exists_text_eq_cons {n : Number} (hn : n.IsWhole) :
    ∃ c cs, n.text = c :: cs ∧ (c.isDigit = true ∨ c = '-') := by
  cases n with
  | natural n =>
    cases hd : Nat.toDigits 10 n with
    | nil => exact absurd hd Nat.toDigits_ne_nil
    | cons c cs => exact ⟨c, cs, hd, .inl (isDigit_toDigits n c (hd ▸ List.mem_cons_self))⟩
  | negative n => exact ⟨'-', _, rfl, .inr rfl⟩
  | real x => exact hn.elim

/-- **An integer is one token.** -/
theorem begins_number {n : Number} (hn : n.IsWhole) {rest : List Char} (hrest : EndsNumber rest) :
    Begins (n.text ++ rest) [.number (some n)] rest := by
  obtain ⟨c, cs, htext, hc⟩ := exists_text_eq_cons hn
  have hread := readNumber_text hn hrest
  rw [htext, List.cons_append] at hread ⊢
  refine begins_token (isSpace_eq_false_of_number hc) ?_
  rw [readToken_number hc, hread]
  rfl

end TestLanes.Json
