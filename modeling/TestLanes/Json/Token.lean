import TestLanes.Decimal.Reader
import TestLanes.Json.Value
import TestLanes.Text.Blank

/-!
# JSON tokens

A JSON text is a sequence of tokens with blanks between them.  `scan` finds the tokens; what they
mean together is told in `TestLanes.Json.Reader`.

Each reader takes a token or a part of one off the front and gives what follows it.  A lemma beside
it says that what follows is no longer than the whole, or shorter where at least one character is
read; together they show that `scan` ends.
-/

namespace TestLanes.Json

open Text (dropPrefix? hexDigit? digit?)
open Decimal (takeDigits ofDigits Magnitude)

/-- The smallest parts of a JSON text.  `text none` is a string that denotes nothing, and
`number none` a number out of range. -/
inductive Token where
  | openArray
  | closeArray
  | openObject
  | closeObject
  | comma
  | colon
  | null
  | boolean (b : Bool)
  | number (n : Option Number)
  | text (s : Option String)
deriving Repr, DecidableEq

/-! ## 1. Strings

A string is read in two steps.  First its pieces are found, up to the closing quote: characters, the
characters of short escapes, and the code units of `\u` escapes.  Then units are joined to
characters, a leading half with the trailing half behind it.  Only the first step can fail for the
text as a whole; a half that stands alone makes the string denote nothing.
-/

def codeUnit? (a b c d : Char) : Option Nat := do
  let a ← hexDigit? a
  let b ← hexDigit? b
  let c ← hexDigit? c
  let d ← hexDigit? d
  some (((a * 16 + b) * 16 + c) * 16 + d)

def escaped? (c : Char) : Option Char :=
  if c = '"' ∨ c = '\\' ∨ c = '/' then some c
  else if c = 'b' then some '\x08'
  else if c = 'f' then some '\x0c'
  else if c = 'n' then some '\n'
  else if c = 'r' then some '\r'
  else if c = 't' then some '\t'
  else none

/-- A piece of a string: a character or a code unit that is half of one. -/
inductive Piece where
  | char (c : Char)
  | unit (n : Nat)
deriving Repr, DecidableEq

/-- The pieces up to the closing quote, and what follows it. -/
def readPieces : List Char → Option (List Piece × List Char)
  | [] => none
  | '"' :: rest => some ([], rest)
  | '\\' :: 'u' :: a :: b :: c :: d :: rest => do
    let n ← codeUnit? a b c d
    let (ps, rest) ← readPieces rest
    some (.unit n :: ps, rest)
  | '\\' :: e :: rest => do
    let c ← escaped? e
    let (ps, rest) ← readPieces rest
    some (.char c :: ps, rest)
  | c :: rest =>
    if c = '\\' ∨ c.toNat < 0x20 then none
    else do
      let (ps, rest) ← readPieces rest
      some (.char c :: ps, rest)

theorem length_le_of_readPieces {cs rest : List Char} {ps : List Piece}
    (h : readPieces cs = some (ps, rest)) : rest.length ≤ cs.length := by
  fun_induction readPieces cs generalizing ps with
  | case1 => simp at h
  | case2 r => simp at h; simp [h]
  | case3 a b c d r ih =>
    simp only [Option.bind_eq_bind, Option.bind_eq_some_iff] at h
    obtain ⟨_, _, ⟨_, _⟩, hr, h⟩ := h
    simp only [Option.some.injEq, Prod.mk.injEq] at h
    have := ih (h.2 ▸ hr)
    simp only [List.length_cons]; omega
  | case4 e r _ ih =>
    simp only [Option.bind_eq_bind, Option.bind_eq_some_iff] at h
    obtain ⟨_, _, ⟨_, _⟩, hr, h⟩ := h
    simp only [Option.some.injEq, Prod.mk.injEq] at h
    have := ih (h.2 ▸ hr)
    simp only [List.length_cons]; omega
  | case5 => simp at h
  | case6 c r _ _ _ _ ih =>
    simp only [Option.bind_eq_bind, Option.bind_eq_some_iff] at h
    obtain ⟨⟨_, _⟩, hr, h⟩ := h
    simp only [Option.some.injEq, Prod.mk.injEq] at h
    have := ih (h.2 ▸ hr)
    simp only [List.length_cons]; omega

def isLead (n : Nat) : Bool := 0xD800 ≤ n && n < 0xDC00

def isTrail (n : Nat) : Bool := 0xDC00 ≤ n && n < 0xE000

/-- The characters that pieces denote, if every half has its other half. -/
def join : List Piece → Option (List Char)
  | [] => some []
  | .char c :: ps => (c :: ·) <$> join ps
  | .unit n :: .unit k :: ps =>
    if isLead n then
      if isTrail k then
        (Char.ofNat (0x10000 + (n - 0xD800) * 0x400 + (k - 0xDC00)) :: ·) <$> join ps
      else none
    else if isTrail n then none
    else (Char.ofNat n :: ·) <$> join (.unit k :: ps)
  | .unit n :: ps =>
    if isLead n || isTrail n then none else (Char.ofNat n :: ·) <$> join ps

/-! ## 2. Numbers

A number without fraction and exponent is an integer if it fits in 64 bits.  Any other number is
taken in the 64-bit format, from the leading digits that fit in a word and the power of ten they are
to be scaled by.  The result of that one operation, and not the nearest number of the format, is
what is read.
-/

/-- `10 ^ n` in the 64-bit format, for `n ≤ 308`. -/
def powerOfTen (n : Nat) : Magnitude :=
  ((⟨false, 1, (n : Int)⟩ : Decimal.Numeral).magnitude).getD ⟨0, -1074⟩

/-- A number scaled down by a power of ten, in steps of at most 308 places. -/
def scaleDown : Nat → Magnitude → Nat → Magnitude
  | 0, x, _ => x
  | fuel + 1, x, places =>
    if x.m = 0 then x
    else if places ≤ 308 then (x.div (powerOfTen places)).getD x
    else scaleDown fuel ((x.div (powerOfTen 308)).getD x) (places - 308)

/-- `digits * 10 ^ exponent` by one multiplication or by divisions in the 64-bit format. -/
def realOf (digits : Nat) (exponent : Int) : Option Magnitude := do
  let x ← Magnitude.ofNat digits
  if exponent < 0 then
    let places := (-exponent).toNat
    some (scaleDown (if places < 1000 then 4 else 0) (if places < 1000 then x else ⟨0, -1074⟩) places)
  else if exponent ≤ 308 then x.mul (powerOfTen exponent.toNat)
  else if x.m = 0 then some x else none

/-- As many leading digits as fit in 64 bits, and how many are left over. -/
def leadingWord (value : Nat) : List Nat → Nat × Nat
  | [] => (value, 0)
  | d :: ds =>
    if value * 10 + d < Nat.pow 2 64 then leadingWord (value * 10 + d) ds else (value, ds.length + 1)

/-- The number of these parts.  Digits beyond 64 bits count by their place only. -/
def numberOf (negative : Bool) (whole : List Nat) (fraction : Option (List Nat))
    (exponent : Option Int) : Option Number :=
  let (value, left) := leadingWord 0 whole
  if fraction.isNone && exponent.isNone && left == 0 && !negative then some (.natural value)
  else if fraction.isNone && exponent.isNone && left == 0 && 0 < value && value ≤ Nat.pow 2 63 then
    some (.negative value)
  else
    let places := fraction.getD []
    let (value, unread) := if left = 0 then leadingWord value places else (value, places.length)
    let used := places.length - unread
    let e : Int := (exponent.getD 0) + (left : Int) - (used : Int)
    (realOf value e).map fun x => .real (.finite negative x)

/-- The exponent in front, if there is one; fails on an exponent without digits. -/
def readExponent : List Char → Option (Option Int × List Char)
  | [] => some (none, [])
  | c :: cs =>
    if c = 'e' ∨ c = 'E' then
      let signed := Decimal.takeSign cs
      match takeDigits signed.2 with
      | ([], _) => none
      | (ds, rest) =>
        some (some (if signed.1 then -(ofDigits ds : Int) else (ofDigits ds : Int)), rest)
    else some (none, c :: cs)

theorem length_le_of_readExponent {cs rest : List Char} {e : Option Int}
    (h : readExponent cs = some (e, rest)) : rest.length ≤ cs.length := by
  unfold readExponent at h
  split at h
  · simp_all
  · next c cs =>
    have hs := Decimal.length_takeSign_le cs
    have hd := Decimal.length_takeDigits (Decimal.takeSign cs).2
    dsimp only at h
    split at h
    · split at h
      · contradiction
      · next heq =>
        simp only [Option.some.injEq, Prod.mk.injEq] at h
        rw [heq, h.2] at hd
        simp only [List.length_cons] at hd ⊢
        omega
    · simp_all

/-- The fraction in front, if there is one; fails on a point without digits. -/
def readFraction : List Char → Option (Option (List Nat) × List Char)
  | '.' :: cs =>
    match takeDigits cs with
    | ([], _) => none
    | (ds, rest) => some (some ds, rest)
  | cs => some (none, cs)

theorem length_le_of_readFraction {cs rest : List Char} {ds : Option (List Nat)}
    (h : readFraction cs = some (ds, rest)) : rest.length ≤ cs.length := by
  unfold readFraction at h
  split at h
  · next cs =>
    have hd := Decimal.length_takeDigits cs
    split at h
    · contradiction
    · next heq =>
      simp only [Option.some.injEq, Prod.mk.injEq] at h
      rw [heq, h.2] at hd
      simp only [List.length_cons] at hd ⊢
      omega
  · simp_all

/-- The digits of an integer in front: a zero, or digits that begin with none. -/
def readWhole (cs : List Char) : Option (List Nat × List Char) :=
  match takeDigits cs with
  | ([], _) => none
  | (0 :: _ :: _, _) => none
  | (ds, rest) => some (ds, rest)

theorem length_lt_of_readWhole {cs rest : List Char} {ds : List Nat}
    (h : readWhole cs = some (ds, rest)) : rest.length < cs.length := by
  have hd := Decimal.length_takeDigits cs
  unfold readWhole at h
  split at h
  · contradiction
  · contradiction
  · next ds' r hne _ heq =>
    simp only [Option.some.injEq, Prod.mk.injEq] at h
    rw [heq, h.2] at hd
    have : ds'.length ≠ 0 := fun h0 => hne (List.length_eq_zero_iff.1 h0)
    dsimp only at hd
    omega

/-- The number in front, behind its sign. -/
def readUnsigned (negative : Bool) (cs : List Char) : Option (Option Number × List Char) := do
  let (whole, cs) ← readWhole cs
  let (fraction, cs) ← readFraction cs
  let (exponent, cs) ← readExponent cs
  some (numberOf negative whole fraction exponent, cs)

theorem length_lt_of_readUnsigned {negative : Bool} {cs rest : List Char} {n : Option Number}
    (h : readUnsigned negative cs = some (n, rest)) : rest.length < cs.length := by
  simp only [readUnsigned, Option.bind_eq_bind, Option.bind_eq_some_iff] at h
  obtain ⟨⟨_, cs₁⟩, hw, ⟨_, cs₂⟩, hf, ⟨_, cs₃⟩, he, h⟩ := h
  have hw := length_lt_of_readWhole hw
  have hf := length_le_of_readFraction hf
  have he := length_le_of_readExponent he
  simp only [Option.some.injEq, Prod.mk.injEq] at h
  rw [← h.2]
  exact Nat.lt_of_le_of_lt he (Nat.lt_of_le_of_lt hf hw)

def readNumber : List Char → Option (Option Number × List Char)
  | '-' :: cs => readUnsigned true cs
  | cs => readUnsigned false cs

theorem length_lt_of_readNumber {cs rest : List Char} {n : Option Number}
    (h : readNumber cs = some (n, rest)) : rest.length < cs.length := by
  unfold readNumber at h
  split at h
  · exact Nat.lt_succ_of_lt (length_lt_of_readUnsigned h)
  · exact length_lt_of_readUnsigned h

/-! ## 3. Texts

The first character of a token tells its kind.
-/

def isSpace (c : Char) : Bool := c = ' ' || c = '\n' || c = '\t' || c = '\r'

def readToken (c : Char) (rest : List Char) : Option (Token × List Char) :=
  match c with
  | '[' => some (.openArray, rest)
  | ']' => some (.closeArray, rest)
  | '{' => some (.openObject, rest)
  | '}' => some (.closeObject, rest)
  | ',' => some (.comma, rest)
  | ':' => some (.colon, rest)
  | 'n' => (dropPrefix? "ull".toList rest).map (Token.null, ·)
  | 't' => (dropPrefix? "rue".toList rest).map (Token.boolean true, ·)
  | 'f' => (dropPrefix? "alse".toList rest).map (Token.boolean false, ·)
  | '"' => (readPieces rest).map fun (ps, rest) => (.text ((join ps).map String.ofList), rest)
  | c => (readNumber (c :: rest)).map fun (n, rest) => (.number n, rest)

theorem length_le_of_readToken {c : Char} {cs rest : List Char} {t : Token}
    (h : readToken c cs = some (t, rest)) : rest.length ≤ cs.length := by
  have word {start : List Char} {t' : Token}
      (h : (dropPrefix? start cs).map (t', ·) = some (t, rest)) : rest.length ≤ cs.length := by
    obtain ⟨r, hr, h⟩ := Option.map_eq_some_iff.1 h
    rw [← (Prod.mk.inj h).2]
    exact Text.length_le_of_dropPrefix? hr
  unfold readToken at h
  split at h
  case h_7 | h_8 | h_9 => exact word h
  case h_10 =>
    obtain ⟨⟨ps, r⟩, hr, h⟩ := Option.map_eq_some_iff.1 h
    rw [← (Prod.mk.inj h).2]
    exact length_le_of_readPieces hr
  case h_11 =>
    obtain ⟨⟨n, r⟩, hr, h⟩ := Option.map_eq_some_iff.1 h
    rw [← (Prod.mk.inj h).2]
    exact Nat.le_of_lt_succ (length_lt_of_readNumber hr)
  all_goals exact (Prod.mk.inj (Option.some.inj h)).2 ▸ Nat.le_refl _

def scan (cs : List Char) : Option (List Token) :=
  match cs with
  | [] => some []
  | c :: rest =>
    if isSpace c then scan rest
    else match _h : readToken c rest with
      | none => none
      | some (t, rest') => (t :: ·) <$> scan rest'
termination_by cs.length
decreasing_by
  · exact Nat.lt_succ_self _
  · exact Nat.lt_succ_of_le (length_le_of_readToken (by assumption))

end TestLanes.Json
