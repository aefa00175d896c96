import Mathlib.Algebra.Order.Ring.Int
import TestLanes.Proofs.Text.Numeral
import TestLanes.Settings.Decode

/-!
# What spells a parallelism

A parallelism can be given as a text, and in data also as an integer, which stands for a count.  The
texts are described by `Spells`, without reading them; these texts are read and no others
(`read_eq_ok_iff`), a parallelism that is read is read again from its own text (`read_text_iff`),
and an integer is as good as the text of its count (`toOption_ofGiven_integer`).
-/

namespace TestLanes.Parallelism

open Text (readNumeral wordBound)

/-! ## 1. Spellings

`Spells` speaks of characters only: a beginning, perhaps a sign, and digits with their number.
-/

def Form.front : Form → String
  | .count => "count:"
  | .time => "time:"

/-- A text spells a parallelism: after the beginning of its form come at most one plus sign and one
or more decimal digits, which are a positive number below 2^64. -/
def Spells (s : String) (p : Parallelism) : Prop :=
  ∃ (form : Form) (signed : Bool) (digits : List Char),
    s = form.front ++ (if signed then "+" else "") ++ String.ofList digits ∧
    digits ≠ [] ∧ (∀ c ∈ digits, '0' ≤ c ∧ c ≤ '9') ∧
    0 < Nat.ofDigitChars 10 digits 0 ∧ Nat.ofDigitChars 10 digits 0 < 2 ^ 64 ∧
    p = form.make (Nat.ofDigitChars 10 digits 0)

/-! ## 2. Reading a text

The two forms begin differently, so a text is of one form at most, and reading it comes down to
reading the numeral behind the beginning.  The number of a numeral was described when numerals were
(`Text.readNumeral_eq_ok_iff`); zero is the only one that a form refuses.
-/

theorem front_append_inj {form form' : Form} {input input' : List Char}
    (h : form.front.toList ++ input = form'.front.toList ++ input') :
    form = form' ∧ input = input' := by
  cases form <;> cases form' <;> simp_all [Form.front]

/-- A text is read by what it begins with. -/
theorem read_eq_ok_iff_readForm {s : String} {p : Parallelism} : read s = .ok p
    ↔ ∃ (form : Form) (input : List Char), s.toList = form.front.toList ++ input ∧
      readForm form input = .ok p := by
  have hcount : ∀ input, Text.dropPrefix? "count:".toList s.toList = some input ↔
      s.toList = Form.count.front.toList ++ input := fun _ => Text.dropPrefix?_eq_some_iff
  have htime : ∀ input, Text.dropPrefix? "time:".toList s.toList = some input ↔
      s.toList = Form.time.front.toList ++ input := fun _ => Text.dropPrefix?_eq_some_iff
  rw [read]
  constructor
  · intro h
    split at h
    · next input hinput => exact ⟨.count, input, (hcount input).mp hinput, h⟩
    · split at h
      · next input hinput => exact ⟨.time, input, (htime input).mp hinput, h⟩
      · cases h
  · rintro ⟨form, input, hs, hread⟩
    cases form with
    | count =>
      rw [(hcount input).mpr hs]
      exact hread
    | time =>
      have hnone : Text.dropPrefix? "count:".toList s.toList = none := by
        refine Option.eq_none_iff_forall_ne_some.mpr fun input' hinput' => ?_
        have hforms := (front_append_inj (((hcount input').mp hinput').symm.trans hs)).1
        cases hforms
      rw [hnone, (htime input).mpr hs]
      exact hread

theorem readForm_eq_ok_iff {form : Form} {input : List Char} {p : Parallelism} :
    readForm form input = .ok p ↔ ∃ n, readNumeral input = .ok n ∧ 0 < n ∧ p = form.make n := by
  unfold readForm
  split
  · next cause hcause => simp [hcause]
  · next hzero => simp [hzero]
  · next n hn => simp [hn, eq_comm]

theorem readNumeral_eq_ok_iff_digits {input : List Char} {n : Nat} : readNumeral input = .ok n
    ↔ ∃ (signed : Bool) (digits : List Char), input = (if signed then ['+'] else []) ++ digits ∧
      digits ≠ [] ∧ (∀ c ∈ digits, '0' ≤ c ∧ c ≤ '9') ∧ Nat.ofDigitChars 10 digits 0 = n ∧
      n < 2 ^ 64 := by
  have hdigit : ∀ c : Char, c.isDigit = true ↔ '0' ≤ c ∧ c ≤ '9' := by
    intro c
    simp only [Char.isDigit, Bool.and_eq_true, decide_eq_true_eq]
    exact Iff.rfl
  rw [Text.readNumeral_eq_ok_iff]
  refine exists_congr fun signed => exists_congr fun digits => and_congr_right fun _ =>
    and_congr_right fun _ => ?_
  rw [Text.readDigits_eq_ok_iff (by decide)]
  simp only [hdigit]
  exact Iff.rfl

/-- **The texts that are read** are those that spell a parallelism, which is what they are read
as. -/
theorem read_eq_ok_iff {s : String} {p : Parallelism} : read s = .ok p ↔ Spells s p := by
  have htext : ∀ (form : Form) (signed : Bool) (digits : List Char),
      s = form.front ++ (if signed then "+" else "") ++ String.ofList digits ↔
        s.toList = form.front.toList ++ ((if signed then ['+'] else []) ++ digits) := by
    intro form signed digits
    rw [← String.toList_inj]
    cases signed <;> simp [String.toList_append]
  simp only [read_eq_ok_iff_readForm, readForm_eq_ok_iff, readNumeral_eq_ok_iff_digits]
  constructor
  · rintro ⟨form, input, hs, n, ⟨signed, digits, rfl, hne, hdigits, rfl, hlt⟩, hpos, rfl⟩
    exact ⟨form, signed, digits, (htext form signed digits).mpr hs, hne, hdigits, hpos, hlt, rfl⟩
  · rintro ⟨form, signed, digits, hs, hne, hdigits, hpos, hlt, rfl⟩
    exact ⟨form, _, (htext form signed digits).mp hs, _, ⟨signed, digits, rfl, hne, hdigits, rfl, hlt⟩,
      hpos, rfl⟩

/-! ## 3. Writing a text

A parallelism holds any natural number, also zero and numbers beyond 64 bits, and these have a text
as well.  Their texts are not read, and no text is read as one of them.
-/

def number : Parallelism → Nat
  | .count n | .time n => n

theorem toList_text (form : Form) (n : Nat) :
    (form.make n).text.toList = form.front.toList ++ Nat.toDigits 10 n := by
  cases form <;> simp [Form.make, text, Form.front, String.toList_append]

theorem readNumeral_toDigits {n : Nat} (h : n < 2 ^ 64) :
    readNumeral (Nat.toDigits 10 n) = .ok n := by
  have hnumeral := Text.readNumeral?_eq_some_iff.mpr ⟨h, false, 0, rfl⟩
  rwa [Text.readNumeral?, toOption_eq_some_iff, Text.toList_numeral] at hnumeral

/-- **A text is read as what it is the text of** exactly if the number is positive and has 64
bits. -/
theorem read_text_iff (p : Parallelism) : read p.text = .ok p ↔ 0 < p.number ∧ p.number < 2 ^ 64 := by
  obtain ⟨form, n, rfl⟩ : ∃ (form : Form) (n : Nat), p = form.make n := by
    cases p with
    | count n => exact ⟨.count, n, rfl⟩
    | time n => exact ⟨.time, n, rfl⟩
  have hnumber : (form.make n).number = n := by cases form <;> rfl
  have hmake : ∀ {form' : Form} {k : Nat}, form.make n = form'.make k → n = k := by
    intro form' k h
    cases form <;> cases form' <;> simp_all [Form.make]
  rw [hnumber, read_eq_ok_iff_readForm]
  constructor
  · rintro ⟨form', input, hs, hread⟩
    obtain ⟨k, hk, hpos, hp⟩ := readForm_eq_ok_iff.mp hread
    obtain ⟨-, -, -, -, -, -, hlt⟩ := readNumeral_eq_ok_iff_digits.mp hk
    obtain rfl := hmake hp
    exact ⟨hpos, hlt⟩
  · rintro ⟨hpos, hlt⟩
    exact ⟨form, _, toList_text form n, readForm_eq_ok_iff.mpr
      ⟨n, readNumeral_toDigits hlt, hpos, rfl⟩⟩

/-- What is read can be written and read again. -/
theorem read_text_of_read {s : String} {p : Parallelism} (h : read s = .ok p) :
    read p.text = .ok p := by
  obtain ⟨form, -, digits, -, -, -, hpos, hlt, rfl⟩ := read_eq_ok_iff.mp h
  refine (read_text_iff _).mpr ?_
  cases form <;> exact ⟨hpos, hlt⟩

/-! ## 4. Values of data

JSON and settings take over their values into `Given`; each loses nothing that matters here, so the
values that are accepted are described once, for `Given`, and the other two follow.
-/

/-- **The values that give a parallelism** are the texts that spell it and the positive integers. -/
theorem ofGiven_eq_ok_iff {v : Given} {p : Parallelism} : ofGiven v = .ok p
    ↔ (∃ s, v = .text s ∧ Spells s p) ∨ ∃ n : Nat, 0 < n ∧ v = .integer n ∧ p = .count n := by
  cases v with
  | text s =>
    have htext : (read s).mapError GivenError.text = .ok p ↔ read s = .ok p := by
      cases read s <;> simp [Except.mapError]
    simp [ofGiven, htext, read_eq_ok_iff]
  | integer n =>
    have hcount : ∀ k : Nat, Given.integer n = .integer k ↔ n = k := by simp
    simp only [hcount, reduceCtorEq, false_and, exists_false, false_or]
    match n with
    | .ofNat 0 =>
      refine iff_of_false nofun ?_
      rintro ⟨k, hk, heq, -⟩
      exact absurd (Int.ofNat.inj heq) (Nat.ne_of_lt hk)
    | .ofNat (n + 1) =>
      constructor
      · intro h
        cases h
        exact ⟨n + 1, Nat.succ_pos n, rfl, rfl⟩
      · rintro ⟨k, -, heq, rfl⟩
        obtain rfl : n + 1 = k := Int.ofNat.inj heq
        rfl
    | .negSucc n =>
      refine iff_of_false nofun ?_
      rintro ⟨k, -, heq, -⟩
      cases heq
  | _ => simp [ofGiven]

theorem ofJson_eq_ok_iff {v : Json.Value} {p : Parallelism} : ofJson v = .ok p
    ↔ (∃ s, v = .string s ∧ Spells s p) ∨
      ∃ n : Nat, 0 < n ∧ v = .number (.natural n) ∧ p = .count n := by
  rw [ofJson, ofGiven_eq_ok_iff]
  cases v with
  | string s => simp [Given.ofJson]
  | number n =>
    cases n with
    | natural n => simp [Given.ofJson]
    | negative n =>
      simp only [Given.ofJson, reduceCtorEq, false_and, exists_false, and_false, or_false, false_or,
        Json.Value.number.injEq, iff_false, Given.integer.injEq]
      rintro ⟨k, hk, heq, -⟩
      omega
    | real x => simp [Given.ofJson]
  | _ => simp [Given.ofJson]

theorem decodeParallelism_eq_ok_iff {place : Settings.Place} {p : Parallelism} :
    Settings.decodeParallelism place = .ok p
      ↔ (∃ s, place.value = .text s ∧ Spells s p) ∨
        ∃ n : Nat, 0 < n ∧ place.value = .integer n ∧ p = .count n := by
  have hgiven : Settings.decodeParallelism place = .ok p
      ↔ ofGiven (Settings.givenOf place.value) = .ok p := by
    unfold Settings.decodeParallelism
    split
    · next a ha => simp [ha]
    · next cause hcause => simp [hcause]
    · next e _ he => simp [he, Settings.Place.fail]
  rw [hgiven, ofGiven_eq_ok_iff]
  cases place.value <;> simp [Settings.givenOf]

theorem readNumeral_minus_ne_ok (cs : List Char) (n : Nat) : readNumeral ('-' :: cs) ≠ .ok n := by
  intro h
  obtain ⟨signed, digits, hcs, hne, hdigits, -, -⟩ := readNumeral_eq_ok_iff_digits.mp h
  cases signed with
  | true => cases hcs
  | false =>
    obtain rfl : '-' :: cs = digits := hcs
    exact absurd (hdigits '-' List.mem_cons_self) (by decide)

/-- The text of a count spells it, if it is one. -/
theorem spells_count_iff {n : Int} (hn : n < 2 ^ 64) {p : Parallelism} :
    Spells ("count:" ++ toString n) p ↔ ∃ k : Nat, 0 < k ∧ n = k ∧ p = .count k := by
  rw [← read_eq_ok_iff]
  constructor
  · intro h
    obtain ⟨form, input, hs, hread⟩ := read_eq_ok_iff_readForm.mp h
    rw [String.toList_append] at hs
    obtain ⟨rfl, rfl⟩ : Form.count = form ∧ _ = input := front_append_inj hs
    obtain ⟨k, hk, hpos, rfl⟩ := readForm_eq_ok_iff.mp hread
    refine ⟨k, hpos, ?_, rfl⟩
    cases n with
    | ofNat n =>
      have hdigits : (toString (Int.ofNat n)).toList = Nat.toDigits 10 n := Nat.toList_repr
      rw [Int.ofNat_eq_natCast] at hn
      rw [hdigits, readNumeral_toDigits (by omega)] at hk
      rw [Except.ok.inj hk]
      rfl
    | negSucc n =>
      have hminus : (toString (Int.negSucc n)).toList = '-' :: (Nat.repr (n + 1)).toList :=
        String.toList_append
      rw [hminus] at hk
      exact absurd hk (readNumeral_minus_ne_ok _ k)
  · rintro ⟨k, hpos, rfl, rfl⟩
    exact (read_text_iff (.count k)).mpr ⟨hpos, by exact_mod_cast hn⟩

/-! ## 5. Texts and values -/

/-- **Texts and values correspond.**

* A text is read exactly if it spells a parallelism, and it is read as that one.
* What a text is read as is read again from its own text.
* A value of JSON or of settings gives a parallelism exactly if it is a text that spells it, or a
  positive integer, which gives that count; nothing else gives any.
* An integer gives what the text of its count gives, if it has 64 bits as all integers of data do;
  so zero and negative integers give nothing, like the texts `count:0` and `count:-1`. -/
theorem texts_and_values :
    (∀ s p, read s = .ok p ↔ Spells s p) ∧
    (∀ s p, read s = .ok p → read p.text = .ok p) ∧
    (∀ v p, ofJson v = .ok p ↔ (∃ s, v = .string s ∧ Spells s p) ∨
      ∃ n : Nat, 0 < n ∧ v = .number (.natural n) ∧ p = .count n) ∧
    (∀ place p, Settings.decodeParallelism place = .ok p ↔
      (∃ s, place.value = .text s ∧ Spells s p) ∨
        ∃ n : Nat, 0 < n ∧ place.value = .integer n ∧ p = .count n) ∧
    ∀ (n : Int) (p : Parallelism), n < 2 ^ 64 →
      (∀ path, Settings.decodeParallelism ⟨path, .integer n⟩ = .ok p ↔
        read ("count:" ++ toString n) = .ok p) ∧
      ∀ k : Nat, n = k →
        (ofJson (.number (.natural k)) = .ok p ↔ read ("count:" ++ toString n) = .ok p) := by
  refine ⟨fun s p => read_eq_ok_iff, fun s p => read_text_of_read, fun v p => ofJson_eq_ok_iff,
    fun place p => decodeParallelism_eq_ok_iff, fun n p hn => ⟨fun path => ?_, ?_⟩⟩
  · rw [read_eq_ok_iff, spells_count_iff hn, decodeParallelism_eq_ok_iff]
    simp
  · rintro k rfl
    rw [read_eq_ok_iff, spells_count_iff hn, ofJson_eq_ok_iff]
    simp

/-- The largest count, as an integer and as a text with a sign and zeros. -/
theorem texts_and_values_largestCount :
    (18446744073709551615 : Int) < 2 ^ 64 ∧
      Spells "count:+0018446744073709551615" (.count 18446744073709551615) ∧
      read "count:18446744073709551615" = .ok (.count 18446744073709551615) ∧
      ofJson (.number (.natural 18446744073709551615)) = .ok (.count 18446744073709551615) ∧
      Settings.decodeParallelism ⟨"profile.ci.parallelism", .integer 18446744073709551615⟩
        = .ok (.count 18446744073709551615) := by
  obtain ⟨hread, htext, -, -, hinteger⟩ := texts_and_values
  have hlarge : (18446744073709551615 : Int) < 2 ^ 64 := by decide
  have hlong : read "count:+0018446744073709551615" = .ok (.count 18446744073709551615) :=
    toOption_eq_some_iff.mp (by decide +kernel)
  have hspelled := (hread _ _).mp hlong
  have hplain : read ("count:" ++ toString (18446744073709551615 : Int))
      = .ok (.count 18446744073709551615) := htext _ _ hlong
  obtain ⟨hsettings, hjson⟩ := hinteger 18446744073709551615 (.count 18446744073709551615) hlarge
  exact ⟨hlarge, hspelled, hplain, (hjson 18446744073709551615 rfl).mpr hplain,
    (hsettings _).mpr hplain⟩

example : (read "count:18446744073709551616").isOk = false ∧ (read "time:-0").isOk = false ∧
    (read "count: 1").isOk = false ∧ (read "Count:1").isOk = false := by decide

end TestLanes.Parallelism
