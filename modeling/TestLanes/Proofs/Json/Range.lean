import TestLanes.Json.Reader
import TestLanes.Proofs.Json.Decode
import TestLanes.Text.Numeral

/-!
# Numbers that are read fit in a word

A text may write a number with any number of digits, but what is read as a natural number is below
2^64: the digits that would go beyond it make a fraction of it instead (`inRange_numberOf`).  So no
value that is read holds a larger one (`inRange_of_parse`): reading a value of tokens in range
leaves only such tokens behind, whatever the depth (`keepsRange`).
-/

namespace TestLanes.Json

open Text (wordBound)

/-! ## 1. Numbers in range

Digits are counted as long as the number stays below 2^64.  If some are left over, the number is
taken in the 64-bit format, so it is no natural number any more; if none are, it is in range.
-/

/-- A natural number of 64 bits, or none. -/
def Number.InRange : Number → Prop
  | .natural n => n < wordBound
  | _ => True

/-- All natural numbers in a value have 64 bits. -/
inductive Value.InRange : Value → Prop where
  | null : InRange .null
  | boolean (b : Bool) : InRange (.boolean b)
  | number {n : Number} (h : n.InRange) : InRange (.number n)
  | string (s : String) : InRange (.string s)
  | array {items : List Value} (h : ∀ v ∈ items, v.InRange) : InRange (.array items)
  | object {fields : List (String × Value)} (h : ∀ f ∈ fields, f.2.InRange) :
      InRange (.object fields)
  | unreadable : InRange .unreadable

/-- The value that a token stands for is in range. -/
def Token.InRange (t : Token) : Prop := ∀ v, t.value? = some v → v.InRange

/-- Only as many digits count as fit in a word. -/
theorem leadingWord_lt {value : Nat} (h : value < wordBound) (ds : List Nat) :
    (leadingWord value ds).1 < wordBound := by
  induction ds generalizing value with
  | nil => exact h
  | cons d ds ih =>
    rw [leadingWord]
    split
    · next hd => exact ih hd
    · exact h

/-- **What is read as a natural number has 64 bits.** -/
theorem inRange_numberOf {negative : Bool} {whole : List Nat} {fraction : Option (List Nat)}
    {exponent : Option Int} {n : Number} (h : numberOf negative whole fraction exponent = some n) :
    n.InRange := by
  have hword := leadingWord_lt (show 0 < wordBound by decide) whole
  unfold numberOf at h
  rcases leadingWord 0 whole with ⟨value, left⟩
  dsimp only at h hword
  split at h
  · cases h
    exact hword
  · split at h
    · cases h
      trivial
    · obtain ⟨x, -, rfl⟩ := Option.map_eq_some_iff.mp h
      trivial

theorem inRange_readUnsigned {negative : Bool} {cs rest : List Char} {n : Number}
    (h : readUnsigned negative cs = some (some n, rest)) : n.InRange := by
  simp only [readUnsigned, Option.bind_eq_bind, Option.bind_eq_some_iff, Option.some.injEq,
    Prod.mk.injEq] at h
  obtain ⟨_, -, _, -, _, -, hn, -⟩ := h
  exact inRange_numberOf hn

theorem inRange_readNumber {cs rest : List Char} {n : Number}
    (h : readNumber cs = some (some n, rest)) : n.InRange := by
  unfold readNumber at h
  split at h
  · exact inRange_readUnsigned h
  · exact inRange_readUnsigned h

/-! ## 2. Tokens

Of all tokens only numbers stand for a number, so the range is a matter of the one reader of
numbers.
-/

/-- Only the numbers among tokens can be out of range. -/
theorem Token.inRange_of_number {t : Token} (h : ∀ n, t = .number (some n) → n.InRange) :
    t.InRange := by
  intro v hv
  cases t with
  | null =>
    cases hv
    exact .null
  | boolean b =>
    cases hv
    exact .boolean b
  | number n =>
    cases n with
    | none =>
      cases hv
      exact .unreadable
    | some n =>
      cases hv
      exact .number (h n rfl)
  | text s =>
    cases s with
    | none =>
      cases hv
      exact .unreadable
    | some s =>
      cases hv
      exact .string s
  | _ => cases hv

/-- **Every token that is read is in range.** -/
theorem inRange_readToken {c : Char} {cs rest : List Char} {t : Token}
    (h : readToken c cs = some (t, rest)) : t.InRange := by
  refine Token.inRange_of_number fun n hn => ?_
  subst hn
  unfold readToken at h
  split at h
  case h_11 =>
    obtain ⟨⟨n', rest'⟩, hread, heq⟩ := Option.map_eq_some_iff.mp h
    cases heq
    exact inRange_readNumber hread
  all_goals simp at h

theorem inRange_scan {cs : List Char} {ts : List Token} (h : scan cs = some ts) :
    ∀ t ∈ ts, t.InRange := by
  fun_induction scan cs generalizing ts with
  | case1 =>
    cases h
    exact fun t ht => absurd ht List.not_mem_nil
  | case2 c rest hc ih => exact ih h
  | case3 => cases h
  | case4 c rest hc t rest' hread ih =>
    obtain ⟨us, hus, rfl⟩ := Option.map_eq_some_iff.mp h
    intro u hu
    rcases List.mem_cons.mp hu with rfl | hu
    · exact inRange_readToken hread
    · exact ih hus u hu

/-! ## 3. Values

The three readers call each other with one step of fuel less.  The invariant is about a reader with
some fuel: from tokens in range it reads a value in range and leaves tokens in range.  One lemma for
each reader gives it for one step more, and the induction on the fuel is over all three at once.
-/

theorem inRange_objectOf {fields : List (Option String × Value)} (h : ∀ f ∈ fields, f.2.InRange) :
    (objectOf fields).InRange := by
  unfold objectOf
  split
  · next fs hfs =>
    refine .object fun f hf => ?_
    obtain ⟨⟨k, v⟩, hmem, heq⟩ := exists_of_mem_mapM hfs hf
    obtain ⟨name, -, rfl⟩ := Option.map_eq_some_iff.mp heq
    exact h (k, v) hmem
  · exact .unreadable

theorem forall_mem_of_cons {p : Token → Prop} {t : Token} {ts : List Token}
    (h : ∀ u ∈ t :: ts, p u) : ∀ u ∈ ts, p u := fun u hu => h u (List.mem_cons_of_mem t hu)

/-- From tokens in range this reads what has the property, and leaves tokens in range. -/
def KeepsRange (read : List Token → Option (α × List Token)) (p : α → Prop) : Prop :=
  ∀ ts a us, read ts = some (a, us) → (∀ t ∈ ts, t.InRange) → p a ∧ ∀ t ∈ us, t.InRange

theorem KeepsRange.of_none {read : List Token → Option (α × List Token)} {p : α → Prop}
    (h : ∀ ts, read ts = none) : KeepsRange read p := by
  intro ts a us hread
  rw [h ts] at hread
  cases hread

variable {n : Nat}

/-- A value, if its parts keep the range. -/
theorem keepsRange_readValue_succ (hitems : KeepsRange (readItems n) fun vs => ∀ v ∈ vs, v.InRange)
    (hfields : KeepsRange (readFields n) fun fs => ∀ f ∈ fs, f.2.InRange) :
    KeepsRange (readValue (n + 1)) Value.InRange := by
  intro ts v us h hts
  unfold readValue at h
  split at h
  · cases h
  · cases h
  · cases h
    exact ⟨.array fun v hv => absurd hv List.not_mem_nil,
      forall_mem_of_cons (forall_mem_of_cons hts)⟩
  · next heq =>
    cases heq
    obtain ⟨⟨vs, us'⟩, hread, heq⟩ := Option.bind_eq_some_iff.mp h
    cases heq
    obtain ⟨hvs, hus⟩ := hitems _ _ _ hread (forall_mem_of_cons hts)
    exact ⟨.array hvs, hus⟩
  · cases h
    exact ⟨.object fun f hf => absurd hf List.not_mem_nil,
      forall_mem_of_cons (forall_mem_of_cons hts)⟩
  · next heq =>
    cases heq
    obtain ⟨⟨fs, us'⟩, hread, heq⟩ := Option.bind_eq_some_iff.mp h
    cases heq
    obtain ⟨hfs, hus⟩ := hfields _ _ _ hread (forall_mem_of_cons hts)
    exact ⟨inRange_objectOf hfs, hus⟩
  · obtain ⟨v', hv', heq⟩ := Option.map_eq_some_iff.mp h
    cases heq
    exact ⟨hts _ List.mem_cons_self _ hv', forall_mem_of_cons hts⟩

theorem keepsRange_readItems_succ (hvalue : KeepsRange (readValue n) Value.InRange)
    (hitems : KeepsRange (readItems n) fun vs => ∀ v ∈ vs, v.InRange) :
    KeepsRange (readItems (n + 1)) fun vs => ∀ v ∈ vs, v.InRange := by
  intro ts vs us h hts
  obtain ⟨⟨v, mid⟩, hread, h⟩ := Option.bind_eq_some_iff.mp h
  obtain ⟨hv, hmid⟩ := hvalue _ _ _ hread hts
  dsimp only at h
  split at h
  · obtain ⟨⟨vs', us'⟩, hrest, heq⟩ := Option.bind_eq_some_iff.mp h
    cases heq
    obtain ⟨hvs, hus⟩ := hitems _ _ _ hrest (forall_mem_of_cons hmid)
    exact ⟨List.forall_mem_cons.mpr ⟨hv, hvs⟩, hus⟩
  · cases h
    exact ⟨List.forall_mem_singleton.mpr hv, forall_mem_of_cons hmid⟩
  · cases h

theorem keepsRange_readFields_succ (hvalue : KeepsRange (readValue n) Value.InRange)
    (hfields : KeepsRange (readFields n) fun fs => ∀ f ∈ fs, f.2.InRange) :
    KeepsRange (readFields (n + 1)) fun fs => ∀ f ∈ fs, f.2.InRange := by
  intro ts fs us h hts
  unfold readFields at h
  split at h
  · obtain ⟨⟨v, mid⟩, hread, h⟩ := Option.bind_eq_some_iff.mp h
    obtain ⟨hv, hmid⟩ := hvalue _ _ _ hread (forall_mem_of_cons (forall_mem_of_cons hts))
    dsimp only at h
    split at h
    · obtain ⟨⟨fs', us'⟩, hrest, heq⟩ := Option.bind_eq_some_iff.mp h
      cases heq
      obtain ⟨hfs, hus⟩ := hfields _ _ _ hrest (forall_mem_of_cons hmid)
      exact ⟨List.forall_mem_cons.mpr ⟨hv, hfs⟩, hus⟩
    · cases h
      exact ⟨List.forall_mem_singleton.mpr hv, forall_mem_of_cons hmid⟩
    · cases h
  · cases h

/-- **What is read from tokens in range is in range**, however deep it is nested. -/
theorem keepsRange (n : Nat) : KeepsRange (readValue n) Value.InRange ∧
    KeepsRange (readItems n) (fun vs => ∀ v ∈ vs, v.InRange) ∧
    KeepsRange (readFields n) fun fs => ∀ f ∈ fs, f.2.InRange := by
  induction n with
  | zero => exact ⟨.of_none fun _ => rfl, .of_none fun _ => rfl, .of_none fun _ => rfl⟩
  | succ n ih =>
    obtain ⟨hvalue, hitems, hfields⟩ := ih
    exact ⟨keepsRange_readValue_succ hitems hfields, keepsRange_readItems_succ hvalue hitems,
      keepsRange_readFields_succ hvalue hfields⟩

/-- **Every value that a text has is in range.** -/
theorem inRange_of_parse {text : String} {v : Value} (h : parse text = some v) : v.InRange := by
  obtain ⟨ts, hscan, htokens⟩ := Option.bind_eq_some_iff.mp h
  unfold ofTokens at htokens
  split at htokens
  · next w hread =>
    cases htokens
    exact ((keepsRange _).1 _ _ _ hread (inRange_scan hscan)).1
  · cases htokens

end TestLanes.Json
