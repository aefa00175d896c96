import TestLanes.Proofs.Steps
import TestLanes.Text.Numeral

/-!
# Which texts are numerals

A number below 2^64 is read from its decimal digits, with any number of zeros and at most one plus
sign in front of them (`numeral`), and from no other text (`readNumeral?_eq_some_iff`).  So a number
has many spellings, of which the one without sign and zeros is the one that it is written with
(`numeral_eq_toString_iff`).
-/

namespace TestLanes.Text

/-! ## 1. Digits

The library writes a number by `Nat.toDigits` and reads digits by `Nat.ofDigitChars`.  What is
needed beyond it is the other direction: every row of digits is the numeral of its number behind
some zeros.  The induction is on the row.  A zero in front is one zero more, unless it is the whole
row and so the numeral of zero; another digit in front begins the numeral, and all digits behind it
belong to it (`toDigits_append_of_pos`).
-/

/-- The value of a digit. -/
def digitValue (c : Char) : Nat := c.toNat - '0'.toNat

theorem digit?_eq_some {c : Char} (h : c.isDigit = true) : digit? c = some (digitValue c) := by
  simp only [Char.isDigit, Bool.and_eq_true, decide_eq_true_eq] at h
  exact if_pos h

theorem digit?_eq_none {c : Char} (h : ¬ c.isDigit = true) : digit? c = none := by
  simp only [Char.isDigit, Bool.and_eq_true, decide_eq_true_eq] at h
  exact if_neg h

theorem eq_zero_of_digitValue {c : Char} (hc : c.isDigit = true) (h : digitValue c = 0) : c = '0' := by
  simp only [Char.isDigit, Bool.and_eq_true, decide_eq_true_eq] at hc
  have hlow : '0'.toNat ≤ c.toNat := hc.1
  refine Char.ext (UInt32.toNat_inj.mp ?_)
  change c.toNat = '0'.toNat
  unfold digitValue at h
  omega

/-- A digit is what its value is written with. -/
theorem toDigits_digitValue {c : Char} (hc : c.isDigit = true) :
    digitValue c < 10 ∧ Nat.toDigits 10 (digitValue c) = [c] := by
  simp only [Char.isDigit, Bool.and_eq_true, decide_eq_true_eq] at hc
  have hlow : '0'.toNat ≤ c.toNat := hc.1
  have hhigh : c.toNat ≤ '9'.toNat := hc.2
  have hzero : '0'.toNat = 48 := rfl
  have hnine : '9'.toNat = 57 := rfl
  have hlt : digitValue c < 10 := by
    unfold digitValue
    omega
  refine ⟨hlt, ?_⟩
  rw [Nat.toDigits_of_lt_base hlt]
  refine congrArg (fun c => [c]) (Char.toNat_inj.mp ?_)
  rw [Nat.toNat_digitChar_of_lt_ten hlt]
  unfold digitValue
  omega

theorem isDigit_toDigits (n : Nat) : ∀ c ∈ Nat.toDigits 10 n, c.isDigit = true :=
  fun _ hc => Nat.isDigit_of_mem_toDigits (by decide) (by decide) hc

theorem notMem_toDigits {c : Char} (h : c.isDigit = false) (n : Nat) : c ∉ Nat.toDigits 10 n := by
  intro hc
  rw [isDigit_toDigits n c hc] at h
  cases h

theorem le_ofDigitChars (cs : List Char) (n : Nat) : n ≤ Nat.ofDigitChars 10 cs n := by
  induction cs generalizing n with
  | nil => simp
  | cons c cs ih =>
    rw [Nat.ofDigitChars_cons]
    exact Nat.le_trans (by omega) (ih _)

/-- A numeral begins with a zero only if that is all of it. -/
theorem eq_nil_of_toDigits_eq_zero_cons {n : Nat} {ds : List Char}
    (h : Nat.toDigits 10 n = '0' :: ds) : ds = [] := by
  induction n using Nat.base_induction 10 (by decide) generalizing ds with
  | single m hm =>
    rw [Nat.toDigits_of_lt_base hm] at h
    exact (List.cons.inj h).2.symm
  | digit m k hk hm ih =>
    rw [← Nat.toDigits_append_toDigits (by decide) hm hk] at h
    cases hfront : Nat.toDigits 10 m with
    | nil => exact absurd hfront Nat.toDigits_ne_nil
    | cons c front =>
      rw [hfront, List.cons_append] at h
      obtain ⟨rfl, -⟩ := List.cons.inj h
      rw [ih hfront] at hfront
      have hzero : Nat.ofDigitChars 10 (Nat.toDigits 10 m) 0 = 0 := by rw [hfront]; rfl
      rw [Nat.ofDigitChars_ten_toDigits] at hzero
      omega

theorem toDigits_append_of_pos {cs : List Char} (hcs : ∀ c ∈ cs, c.isDigit = true) {n : Nat}
    (hn : 0 < n) : Nat.toDigits 10 n ++ cs = Nat.toDigits 10 (Nat.ofDigitChars 10 cs n) := by
  induction cs generalizing n with
  | nil => simp
  | cons c cs ih =>
    obtain ⟨hlt, hdigit⟩ := toDigits_digitValue (hcs c List.mem_cons_self)
    have hlast := Nat.toDigits_append_toDigits (b := 10) (by decide) hn hlt
    have hrest := ih (fun d hd => hcs d (List.mem_cons_of_mem c hd))
      (n := 10 * n + digitValue c) (by omega)
    rw [Nat.ofDigitChars_cons, ← List.singleton_append, ← List.append_assoc, ← hdigit, hlast]
    exact hrest

/-- **Digits are the numeral of their number behind some zeros.** -/
theorem exists_eq_replicate_append {cs : List Char} (hcs : ∀ c ∈ cs, c.isDigit = true)
    (hne : cs ≠ []) :
    ∃ zeros, cs = List.replicate zeros '0' ++ Nat.toDigits 10 (Nat.ofDigitChars 10 cs 0) := by
  induction cs with
  | nil => exact absurd rfl hne
  | cons c cs ih =>
    have hrest : ∀ d ∈ cs, d.isDigit = true := fun d hd => hcs d (List.mem_cons_of_mem c hd)
    have hc := hcs c List.mem_cons_self
    rw [Nat.ofDigitChars_cons, Nat.mul_zero, Nat.zero_add]
    rcases Nat.eq_zero_or_pos (digitValue c) with hzero | hpos
    · obtain rfl := eq_zero_of_digitValue hc hzero
      cases cs with
      | nil => exact ⟨0, rfl⟩
      | cons d ds =>
        obtain ⟨zeros, heq⟩ := ih hrest (List.cons_ne_nil d ds)
        exact ⟨zeros + 1, congrArg ('0' :: ·) heq⟩
    · refine ⟨0, ?_⟩
      have hnumeral := toDigits_append_of_pos hrest hpos
      rw [(toDigits_digitValue hc).2] at hnumeral
      exact hnumeral

/-- Zeros in front do not count. -/
theorem ofDigitChars_replicate_append (zeros n : Nat) :
    Nat.ofDigitChars 10 (List.replicate zeros '0' ++ Nat.toDigits 10 n) 0 = n := by
  induction zeros with
  | zero => exact Nat.ofDigitChars_ten_toDigits
  | succ zeros ih =>
    rw [List.replicate_succ, List.cons_append, Nat.ofDigitChars_cons]
    exact ih

/-! ## 2. Reading

The reader keeps the number below 2^64 at every digit.  Digits that follow only make a number larger
(`le_ofDigitChars`), so a number that is below the bound at the end has been so all the time, and no
digit in the middle is refused.
-/

/-- Digits are read as their number, if it is below 2^64, and nothing else is read. -/
theorem readDigits_eq_ok_iff {cs : List Char} {value n : Nat} (hvalue : value < wordBound) :
    readDigits value cs = .ok n
      ↔ (∀ c ∈ cs, c.isDigit = true) ∧ Nat.ofDigitChars 10 cs value = n ∧ n < wordBound := by
  induction cs generalizing value with
  | nil =>
    simp only [readDigits, Except.ok.injEq, List.not_mem_nil, false_imp_iff, implies_true, true_and,
      Nat.ofDigitChars_nil]
    exact ⟨fun h => ⟨h, h ▸ hvalue⟩, And.left⟩
  | cons c cs ih =>
    rw [readDigits, List.forall_mem_cons]
    by_cases hc : c.isDigit = true
    · simp only [digit?_eq_some hc, hc, true_and, Nat.ofDigitChars_cons, Nat.mul_comm 10 value]
      split
      · next hfits => exact ih hfits
      · next hover =>
        refine iff_of_false (fun h => nomatch h) fun ⟨_, heq, hn⟩ => hover ?_
        exact Nat.lt_of_le_of_lt (le_ofDigitChars cs _) (heq ▸ hn)
    · simp only [digit?_eq_none hc, hc, false_and, reduceCtorEq]

theorem readDigits_zero_eq_ok_iff {cs : List Char} {n : Nat} (hne : cs ≠ []) :
    readDigits 0 cs = .ok n
      ↔ n < wordBound ∧ ∃ zeros, cs = List.replicate zeros '0' ++ Nat.toDigits 10 n := by
  rw [readDigits_eq_ok_iff (by decide)]
  constructor
  · rintro ⟨hcs, rfl, hn⟩
    exact ⟨hn, exists_eq_replicate_append hcs hne⟩
  · rintro ⟨hn, zeros, rfl⟩
    refine ⟨fun c hc => ?_, ofDigitChars_replicate_append zeros n, hn⟩
    rcases List.mem_append.mp hc with hc | hc
    · rw [List.eq_of_mem_replicate hc]
      decide
    · exact isDigit_toDigits n c hc

/-- The spelling of a number with or without a sign and with some zeros. -/
def numeral (signed : Bool) (zeros n : Nat) : String :=
  (if signed then "+" else "") ++ String.ofList (List.replicate zeros '0') ++ toString n

theorem toList_numeral (signed : Bool) (zeros n : Nat) : (numeral signed zeros n).toList
    = (if signed then ['+'] else []) ++ (List.replicate zeros '0' ++ Nat.toDigits 10 n) := by
  simp only [numeral, String.toList_append, String.toList_ofList, Nat.toString_eq_repr,
    Nat.toList_repr, List.append_assoc]
  cases signed <;> rfl

theorem notMem_numeral {c : Char} (hdigit : c.isDigit = false) (hsign : c ≠ '+') (signed : Bool)
    (zeros n : Nat) : c ∉ (numeral signed zeros n).toList := by
  rw [toList_numeral, List.mem_append, List.mem_append, not_or, not_or]
  refine ⟨?_, fun hc => ?_, notMem_toDigits hdigit n⟩
  · cases signed with
    | true => exact fun hc => hsign (List.mem_singleton.mp hc)
    | false => exact List.not_mem_nil
  · rw [List.eq_of_mem_replicate hc] at hdigit
    cases hdigit

theorem numeral_ne_empty (signed : Bool) (zeros n : Nat) : numeral signed zeros n ≠ "" := by
  intro h
  have hdigits := congrArg String.toList h
  rw [toList_numeral] at hdigits
  have hrow := (List.append_eq_nil_iff.mp hdigits).2
  exact Nat.toDigits_ne_nil (List.append_eq_nil_iff.mp hrow).2

/-- A numeral is a row of digits, with or without a sign in front of it. -/
theorem readNumeral_eq_ok_iff {cs : List Char} {n : Nat} : readNumeral cs = .ok n
    ↔ ∃ (signed : Bool) (ds : List Char), cs = (if signed then ['+'] else []) ++ ds ∧ ds ≠ [] ∧
      readDigits 0 ds = .ok n := by
  constructor
  · intro h
    unfold readNumeral at h
    split at h
    · cases h
    · cases h
    · next ds hds => exact ⟨true, ds, rfl, fun hnil => hds (hnil ▸ rfl), h⟩
    · next hne _ _ => exact ⟨false, cs, rfl, hne, h⟩
  · rintro ⟨signed, ds, rfl, hne, hread⟩
    obtain ⟨d, ds, rfl⟩ := List.exists_cons_of_ne_nil hne
    cases signed with
    | true => exact hread
    | false =>
      -- a plus sign is no digit, so the row does not begin with one
      have hsign : d ≠ '+' := by
        rintro rfl
        cases hread
      show readNumeral (d :: ds) = .ok n
      unfold readNumeral
      split
      · next hnil => cases hnil
      · next hplus => exact absurd (List.cons.inj hplus).1 hsign
      · next hplus => exact absurd (List.cons.inj hplus).1 hsign
      · exact hread

/-- **Numerals**: a text is read as a number if it is one of its spellings, and the number is below
2^64. -/
theorem readNumeral?_eq_some_iff {s : String} {n : Nat} :
    readNumeral? s = some n ↔ n < wordBound ∧ ∃ signed zeros, s = numeral signed zeros n := by
  rw [readNumeral?, toOption_eq_some_iff, readNumeral_eq_ok_iff]
  constructor
  · rintro ⟨signed, ds, hs, hne, hread⟩
    obtain ⟨hn, zeros, hds⟩ := (readDigits_zero_eq_ok_iff hne).mp hread
    refine ⟨hn, signed, zeros, String.toList_inj.mp ?_⟩
    rw [toList_numeral, hs, hds]
  · rintro ⟨hn, signed, zeros, rfl⟩
    have hne : List.replicate zeros '0' ++ Nat.toDigits 10 n ≠ [] :=
      List.append_ne_nil_of_right_ne_nil _ Nat.toDigits_ne_nil
    exact ⟨signed, _, toList_numeral signed zeros n, hne,
      (readDigits_zero_eq_ok_iff hne).mpr ⟨hn, zeros, rfl⟩⟩

/-- Of the spellings of a number one is the number as it is written. -/
theorem numeral_eq_toString_iff {signed : Bool} {zeros n : Nat} :
    numeral signed zeros n = toString n ↔ signed = false ∧ zeros = 0 := by
  constructor
  · intro h
    have hlength := congrArg (fun s => s.toList.length) h
    simp only [toList_numeral, List.length_append, List.length_replicate, Nat.toString_eq_repr,
      Nat.toList_repr] at hlength
    cases signed with
    | true =>
      simp only [if_true, List.length_singleton] at hlength
      omega
    | false =>
      simp only [Bool.false_eq_true, if_false, List.length_nil] at hlength
      exact ⟨rfl, by omega⟩
  · rintro ⟨rfl, rfl⟩
    simp [numeral]

end TestLanes.Text
