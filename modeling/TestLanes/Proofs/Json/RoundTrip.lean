import TestLanes.Json.Reader
import TestLanes.Proofs.Json.Decode
import TestLanes.Proofs.Json.Scan

/-!
# Values are read as they were written

Any layout that puts nothing but blanks between the parts of a value gives a text whose tokens are
those of the value (`scan_writeValue`), and from the tokens of a value the reader makes that value
(`readValue_tokens`).  So a text of one line and a text of many lines are both read back
(`parse_compact`, `parse_pretty`).  What is excepted are values that say less than they hold:
fractions, of which the text is not exact, and parts that denote nothing.
-/

namespace TestLanes.Json

open Text (digit?)

/-! ## 1. Values and their tokens

The tokens of a value do not depend on a layout.  They cut the proof in two: the scanner finds them
in the text, and the reader makes the value of them.  `IsPlain` is an inductive predicate so that
both halves can go by induction on the way in which a value is plain, with hypotheses for all its
parts; the induction principle of the type, which is nested in lists, would give none.
-/

/-- The values whose text tells all about them. -/
inductive Value.IsPlain : Value → Prop where
  | null : IsPlain .null
  | boolean (b : Bool) : IsPlain (.boolean b)
  | number {n : Number} (h : n.IsWhole) : IsPlain (.number n)
  | string (s : String) : IsPlain (.string s)
  | array {items : List Value} (h : ∀ v ∈ items, v.IsPlain) : IsPlain (.array items)
  | object {fields : List (String × Value)} (h : ∀ f ∈ fields, f.2.IsPlain) :
      IsPlain (.object fields)

mutual

/-- The tokens of a value. -/
def Value.tokens : Value → List Token
  | .null => [.null]
  | .boolean b => [.boolean b]
  | .number n => [.number (some n)]
  | .string s => [.text (some s)]
  | .unreadable => [.null]
  | .array [] => [.openArray, .closeArray]
  | .array (v :: vs) => .openArray :: (v.tokens ++ itemTokens vs)
  | .object [] => [.openObject, .closeObject]
  | .object ((k, v) :: fs) => .openObject :: .text (some k) :: .colon :: (v.tokens ++ fieldTokens fs)

def itemTokens : List Value → List Token
  | [] => [.closeArray]
  | v :: vs => .comma :: (v.tokens ++ itemTokens vs)

def fieldTokens : List (String × Value) → List Token
  | [] => [.closeObject]
  | (k, v) :: fs => .comma :: .text (some k) :: .colon :: (v.tokens ++ fieldTokens fs)

end

/-! ## 2. From values to tokens

The text of a number ends only where something stands that a number cannot go on with, so the
statement about a value is about its text with anything behind it that ends a number.  Inside an
array or an object that is a blank, a comma or a bracket; the layouts are needed only for this and
for blanks being skipped.
-/

/-- A layout that puts nothing but blanks between parts, and a colon behind a name. -/
structure Layout.IsBlank (l : Layout) : Prop where
  beforeItem : ∀ level, ∀ c ∈ l.beforeItem level, isSpace c = true
  beforeEnd : ∀ level, ∀ c ∈ l.beforeEnd level, isSpace c = true
  afterName : ∃ blanks, l.afterName = ':' :: blanks ∧ ∀ c ∈ blanks, isSpace c = true

theorem isBlank_compact : Layout.compact.IsBlank where
  beforeItem _ := List.forall_mem_nil _
  beforeEnd _ := List.forall_mem_nil _
  afterName := ⟨[], rfl, List.forall_mem_nil _⟩

theorem isSpace_of_mem_newLine {level : Nat} {c : Char} (h : c ∈ Layout.newLine level) :
    isSpace c = true := by
  rcases List.mem_cons.mp h with rfl | hblank
  · rfl
  · rw [List.eq_of_mem_replicate hblank]
    rfl

theorem isBlank_pretty : Layout.pretty.IsBlank where
  beforeItem _ _ hc := isSpace_of_mem_newLine hc
  beforeEnd _ _ hc := isSpace_of_mem_newLine hc
  afterName := ⟨[' '], rfl, List.forall_mem_singleton.mpr rfl⟩

theorem endsNumber_cons {c : Char} (hc : isSpace c = true ∨ c ∈ [',', ']', '}']) (cs : List Char) :
    EndsNumber (c :: cs) := by
  rintro _ _ heq
  obtain ⟨rfl, rfl⟩ := List.cons.inj heq
  simp only [isSpace, Bool.or_eq_true, decide_eq_true_eq, List.mem_cons, List.not_mem_nil,
    or_false] at hc
  rcases hc with (((rfl | rfl) | rfl) | rfl) | rfl | rfl | rfl <;> decide

/-- Blanks and a bracket behind them end a number. -/
theorem endsNumber_blanks {blanks : List Char} (h : ∀ c ∈ blanks, isSpace c = true) {c : Char}
    (hc : c ∈ [',', ']', '}']) (cs : List Char) : EndsNumber (blanks ++ c :: cs) := by
  cases blanks with
  | nil => exact endsNumber_cons (.inr hc) cs
  | cons b blanks => exact endsNumber_cons (.inl (h b List.mem_cons_self)) _

variable {l : Layout}

/-- What is written for a value begins with its tokens, whatever follows. -/
def Value.IsScanned (l : Layout) (v : Value) : Prop :=
  ∀ level rest, EndsNumber rest → Begins (writeValue l level v ++ rest) v.tokens rest

theorem endsNumber_writeItems (hl : l.IsBlank) (level : Nat) (vs : List Value) (rest : List Char) :
    EndsNumber (writeItems l level vs ++ rest) := by
  cases vs with
  | nil =>
    rw [writeItems, List.append_assoc]
    exact endsNumber_blanks (hl.beforeEnd level) (by decide) rest
  | cons v vs => exact endsNumber_cons (.inr (by decide)) _

theorem endsNumber_writeFields (hl : l.IsBlank) (level : Nat) (fs : List (String × Value))
    (rest : List Char) : EndsNumber (writeFields l level fs ++ rest) := by
  cases fs with
  | nil =>
    rw [writeFields, List.append_assoc]
    exact endsNumber_blanks (hl.beforeEnd level) (by decide) rest
  | cons f fs => exact endsNumber_cons (.inr (by decide)) _

theorem begins_item (hl : l.IsBlank) {v : Value} (hv : v.IsScanned l) (level : Nat)
    {after : List Char} (hafter : EndsNumber after) :
    Begins (l.beforeItem level ++ (writeValue l (level + 1) v ++ after)) v.tokens after :=
  (begins_spaces (hl.beforeItem level) _).trans (hv (level + 1) after hafter)

theorem begins_field (hl : l.IsBlank) (k : String) {v : Value} (hv : v.IsScanned l) (level : Nat)
    {after : List Char} (hafter : EndsNumber after) :
    Begins (l.beforeItem level ++ (quote k ++ (l.afterName ++ (writeValue l (level + 1) v ++ after))))
      (.text (some k) :: .colon :: v.tokens) after := by
  obtain ⟨blanks, hname, hblanks⟩ := hl.afterName
  have hcolon : Begins (l.afterName ++ (writeValue l (level + 1) v ++ after)) [.colon]
      (blanks ++ (writeValue l (level + 1) v ++ after)) := by
    rw [hname]
    exact begins_token (by decide) rfl
  exact (begins_spaces (hl.beforeItem level) _).trans <| (begins_quote k _).trans <|
    hcolon.trans <| (begins_spaces hblanks _).trans (hv (level + 1) after hafter)

/-- **The items after the first one begin with their tokens.** -/
theorem begins_writeItems (hl : l.IsBlank) {vs : List Value} (hvs : ∀ v ∈ vs, v.IsScanned l)
    (level : Nat) (rest : List Char) : Begins (writeItems l level vs ++ rest) (itemTokens vs) rest := by
  induction vs with
  | nil =>
    rw [writeItems, List.append_assoc]
    exact (begins_spaces (hl.beforeEnd level) _).trans (begins_token (by decide) rfl)
  | cons v vs ih =>
    have hcomma : Begins (writeItems l level (v :: vs) ++ rest) [.comma]
        (l.beforeItem level ++ (writeValue l (level + 1) v ++ (writeItems l level vs ++ rest))) := by
      simp only [writeItems, List.cons_append, List.append_assoc]
      exact begins_token (by decide) rfl
    exact hcomma.trans <|
      (begins_item hl (hvs v List.mem_cons_self) level (endsNumber_writeItems hl level vs rest)).trans
        (ih fun w hw => hvs w (List.mem_cons_of_mem v hw))

/-- **The fields after the first one begin with their tokens.** -/
theorem begins_writeFields (hl : l.IsBlank) {fs : List (String × Value)}
    (hfs : ∀ f ∈ fs, f.2.IsScanned l) (level : Nat) (rest : List Char) :
    Begins (writeFields l level fs ++ rest) (fieldTokens fs) rest := by
  induction fs with
  | nil =>
    rw [writeFields, List.append_assoc]
    exact (begins_spaces (hl.beforeEnd level) _).trans (begins_token (by decide) rfl)
  | cons f fs ih =>
    obtain ⟨k, v⟩ := f
    have hcomma : Begins (writeFields l level ((k, v) :: fs) ++ rest) [.comma]
        (l.beforeItem level ++ (quote k ++ (l.afterName ++
          (writeValue l (level + 1) v ++ (writeFields l level fs ++ rest))))) := by
      simp only [writeFields, List.cons_append, List.append_assoc]
      exact begins_token (by decide) rfl
    exact hcomma.trans <| (begins_field hl k (hfs (k, v) List.mem_cons_self) level
      (endsNumber_writeFields hl level fs rest)).trans
        (ih fun g hg => hfs g (List.mem_cons_of_mem _ hg))

/-- **What is written for a value begins with its tokens.** -/
theorem Value.IsPlain.isScanned (hl : l.IsBlank) {v : Value} (hv : v.IsPlain) : v.IsScanned l := by
  intro level rest hrest
  induction hv generalizing level rest with
  | null => exact begins_token (by decide) rfl
  | boolean b => cases b <;> exact begins_token (by decide) rfl
  | number hn => exact begins_number hn hrest
  | string s => exact begins_quote s rest
  | @array items _ ih =>
    cases items with
    | nil => exact (begins_token (by decide) rfl).trans (begins_token (by decide) rfl)
    | cons v vs =>
      have hopen : Begins (writeValue l level (.array (v :: vs)) ++ rest) [.openArray]
          (l.beforeItem level ++ (writeValue l (level + 1) v ++ (writeItems l level vs ++ rest))) := by
        simp only [writeValue, List.cons_append, List.append_assoc]
        exact begins_token (by decide) rfl
      exact hopen.trans <| (begins_item hl (ih v List.mem_cons_self) level
        (endsNumber_writeItems hl level vs rest)).trans
          (begins_writeItems hl (fun w hw => ih w (List.mem_cons_of_mem v hw)) level rest)
  | @object fields _ ih =>
    cases fields with
    | nil => exact (begins_token (by decide) rfl).trans (begins_token (by decide) rfl)
    | cons f fs =>
      obtain ⟨k, v⟩ := f
      have hopen : Begins (writeValue l level (.object ((k, v) :: fs)) ++ rest) [.openObject]
          (l.beforeItem level ++ (quote k ++ (l.afterName ++
            (writeValue l (level + 1) v ++ (writeFields l level fs ++ rest))))) := by
        simp only [writeValue, List.cons_append, List.append_assoc]
        exact begins_token (by decide) rfl
      exact hopen.trans <| (begins_field hl k (ih (k, v) List.mem_cons_self) level
        (endsNumber_writeFields hl level fs rest)).trans
          (begins_writeFields hl (fun g hg => ih g (List.mem_cons_of_mem _ hg)) level rest)

/-! ## 3. From tokens to values

The reader has fuel.  What is shown is that as much fuel as there are tokens is enough, so that the
hypothesis on a part follows from the one on the whole by counting.
-/

/-- The reader makes a value of its tokens, with as much fuel as there are tokens. -/
def Value.IsRead (v : Value) : Prop :=
  ∀ n ts, v.tokens.length ≤ n → readValue n (v.tokens ++ ts) = some (v, ts)

/-- The first token of a value does not end an array. -/
theorem Value.exists_tokens_eq_cons (v : Value) : ∃ t ts, v.tokens = t :: ts ∧ t ≠ .closeArray := by
  cases v with
  | array items => cases items <;> exact ⟨_, _, rfl, by simp⟩
  | object fields => rcases fields with _ | ⟨⟨k, v⟩, fs⟩ <;> exact ⟨_, _, rfl, by simp⟩
  | _ => exact ⟨_, _, rfl, by simp⟩

theorem Value.exists_fuel (v : Value) {n : Nat} (h : v.tokens.length ≤ n) : ∃ m, n = m + 1 := by
  obtain ⟨t, ts, htokens, -⟩ := v.exists_tokens_eq_cons
  rw [htokens, List.length_cons] at h
  exact ⟨n - 1, by omega⟩

/-- **The reader makes the items of an array of their tokens.** -/
theorem readItems_tokens {v : Value} (hv : v.IsRead) {vs : List Value} (hvs : ∀ w ∈ vs, w.IsRead)
    (ts : List Token) {n : Nat} (hn : (v.tokens ++ itemTokens vs).length ≤ n) :
    readItems n (v.tokens ++ (itemTokens vs ++ ts)) = some (v :: vs, ts) := by
  rw [List.length_append] at hn
  obtain ⟨n, rfl⟩ := v.exists_fuel (Nat.le_trans (Nat.le_add_right _ _) hn)
  induction vs generalizing v n with
  | nil =>
    simp only [itemTokens, List.length_singleton] at hn
    rw [readItems, hv n _ (by omega)]
    rfl
  | cons w vs ih =>
    simp only [itemTokens, List.length_append, List.length_cons] at hn
    obtain ⟨n, rfl⟩ := w.exists_fuel (n := n) (by omega)
    have hrest := ih (hvs w List.mem_cons_self) (fun x hx => hvs x (List.mem_cons_of_mem w hx)) n
      (by omega)
    rw [readItems, hv (n + 1) _ (by omega)]
    simp only [itemTokens, List.cons_append, List.append_assoc, Option.bind_eq_bind,
      Option.bind_some, hrest]

/-- **The reader makes the fields of an object of their tokens.** -/
theorem readFields_tokens (k : String) {v : Value} (hv : v.IsRead) {fs : List (String × Value)}
    (hfs : ∀ f ∈ fs, f.2.IsRead) (ts : List Token) {n : Nat}
    (hn : (v.tokens ++ fieldTokens fs).length ≤ n) :
    readFields n (.text (some k) :: .colon :: (v.tokens ++ (fieldTokens fs ++ ts)))
      = some (((k, v) :: fs).map fun f => (some f.1, f.2), ts) := by
  rw [List.length_append] at hn
  obtain ⟨n, rfl⟩ := v.exists_fuel (Nat.le_trans (Nat.le_add_right _ _) hn)
  induction fs generalizing k v n with
  | nil =>
    simp only [fieldTokens, List.length_singleton] at hn
    rw [readFields, hv n _ (by omega)]
    rfl
  | cons f fs ih =>
    obtain ⟨k', w⟩ := f
    simp only [fieldTokens, List.length_append, List.length_cons] at hn
    obtain ⟨n, rfl⟩ := w.exists_fuel (n := n) (by omega)
    have hrest := ih k' (hfs _ List.mem_cons_self) (fun x hx => hfs x (List.mem_cons_of_mem _ hx)) n
      (by dsimp only; omega)
    rw [readFields, hv (n + 1) _ (by omega)]
    simp only [fieldTokens, List.cons_append, List.append_assoc, Option.bind_eq_bind,
      Option.bind_some, hrest, List.map_cons]

theorem objectOf_map_some (fields : List (String × Value)) :
    objectOf (fields.map fun f => (some f.1, f.2)) = .object fields := by
  rw [objectOf, List.mapM_map, mapM_eq_some_self]
  exact fun f _ => rfl

/-- **The reader makes a value of its tokens.** -/
theorem Value.IsPlain.isRead {v : Value} (hv : v.IsPlain) : v.IsRead := by
  intro n ts hn
  obtain ⟨n, rfl⟩ := v.exists_fuel hn
  induction hv generalizing n ts with
  | null | boolean b | number hn' | string s => rfl
  | @array items _ ih =>
    have hitem : ∀ v ∈ items, v.IsRead := by
      intro v hv n ts hn
      obtain ⟨n, rfl⟩ := v.exists_fuel hn
      exact ih v hv ts n hn
    cases items with
    | nil => rfl
    | cons v vs =>
      obtain ⟨t, us, htokens, ht⟩ := v.exists_tokens_eq_cons
      have hitems := readItems_tokens (hitem v List.mem_cons_self)
        (fun w hw => hitem w (List.mem_cons_of_mem v hw)) ts (n := n) (by simpa [tokens] using hn)
      simp only [tokens, List.cons_append, List.append_assoc]
      rw [readValue, hitems]
      · rfl
      · intro ts' heq
        rw [htokens] at heq
        exact ht (List.cons.inj heq).1
  | @object fields _ ih =>
    have hfield : ∀ f ∈ fields, f.2.IsRead := by
      intro f hf n ts hn
      obtain ⟨n, rfl⟩ := f.2.exists_fuel hn
      exact ih f hf ts n hn
    cases fields with
    | nil => rfl
    | cons f fs =>
      obtain ⟨k, v⟩ := f
      have hfields := readFields_tokens k (hfield (k, v) List.mem_cons_self)
        (fun g hg => hfield g (List.mem_cons_of_mem _ hg)) ts (n := n)
        (by simp [tokens] at hn ⊢; omega)
      simp only [tokens, List.cons_append, List.append_assoc]
      rw [readValue, hfields]
      · simp only [Option.bind_eq_bind, Option.bind_some, objectOf_map_some]
      · exact fun _ heq => nomatch heq

/-! ## 4. Texts -/

/-- **The text of a value is read as that value**, whatever blanks follow it. -/
theorem parse_writeValue (hl : l.IsBlank) {v : Value} (hv : v.IsPlain) (blanks : List Char)
    (hblanks : ∀ c ∈ blanks, isSpace c = true) :
    parse (String.ofList (writeValue l 0 v ++ blanks)) = some v := by
  have hend : EndsNumber blanks := by
    cases blanks with
    | nil => exact endsNumber_nil
    | cons c cs => exact endsNumber_cons (.inl (hblanks c List.mem_cons_self)) cs
  have hnothing : scan blanks = some [] := by
    have hskip := begins_spaces hblanks []
    rw [List.append_nil, Begins, scan] at hskip
    exact hskip
  have hscan : scan (writeValue l 0 v ++ blanks) = some v.tokens := by
    rw [hv.isScanned hl 0 blanks hend, hnothing]
    exact congrArg some (List.append_nil _)
  have hread := hv.isRead (2 * v.tokens.length + 1) [] (by omega)
  rw [List.append_nil] at hread
  rw [parse, String.toList_ofList, hscan, Option.bind_some, ofTokens, hread]

theorem parse_line (hl : l.IsBlank) {v : Value} (hv : v.IsPlain) :
    parse (String.ofList (writeValue l 0 v)) = some v ∧
      parse (String.ofList (writeValue l 0 v) ++ "\n") = some v := by
  have hbare := parse_writeValue hl hv [] (List.forall_mem_nil _)
  have hline := parse_writeValue hl hv ['\n'] (List.forall_mem_singleton.mpr rfl)
  rw [List.append_nil] at hbare
  rw [String.ofList_append] at hline
  exact ⟨hbare, hline⟩

/-- **A value on one line is read back**, with an end of line or without. -/
theorem parse_compact {v : Value} (hv : v.IsPlain) :
    parse (compact v) = some v ∧ parse (compact v ++ "\n") = some v := parse_line isBlank_compact hv

/-- **A value on many lines is read back**, with an end of line or without. -/
theorem parse_pretty {v : Value} (hv : v.IsPlain) :
    parse (pretty v) = some v ∧ parse (pretty v ++ "\n") = some v := parse_line isBlank_pretty hv

end TestLanes.Json
