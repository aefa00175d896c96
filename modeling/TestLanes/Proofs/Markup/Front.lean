import TestLanes.Markup.Scan

/-!
# The front of a document

A construct that is complete stays what it is, whatever follows it (`readConstruct_append`).  So the
events of a document begin with the events of each of its fronts that splits no construct
(`events_scan_append`).

This is what makes a report that breaks off between two tags go unnoticed: up to there it is the
front of a whole report, and its events are the first ones of that.
-/

namespace TestLanes.Markup

open Text (dropPrefix? dropPrefix?_eq_some_iff)

variable {bytes front rest : Bytes}

/-! ## 1. Cuts

A cutter looks for the first place of some kind.  If it finds one, it finds the same place in a
longer text.  That a place is not an ending stays true as well, but only because there is room for
the ending in what is known: text to come could complete an ending that has begun.
-/

/-- A cut with one byte more in front is as good as the cut itself. -/
theorem consFirst_eq_some_iff {b : UInt8} {cut : Option (Bytes × Bytes)} :
    consFirst b cut = some (front, rest)
      ↔ ∃ front', cut = some (front', rest) ∧ b :: front' = front := by
  rcases cut with _ | ⟨front', rest'⟩
  · simp [consFirst]
  · constructor
    · intro h
      obtain ⟨hfront, rfl⟩ := Prod.mk.inj (Option.some.inj h)
      exact ⟨front', rfl, hfront⟩
    · rintro ⟨front'', hcut, rfl⟩
      obtain ⟨rfl, rfl⟩ := Prod.mk.inj (Option.some.inj hcut)
      rfl

theorem cutTag_append {quote : Option UInt8} (h : cutTag quote bytes = some (front, rest))
    (more : Bytes) : cutTag quote (bytes ++ more) = some (front, rest ++ more) := by
  induction bytes generalizing quote front with
  | nil => cases quote <;> exact nomatch h
  | cons b bs ih =>
    rw [List.cons_append]
    cases quote with
    | none =>
      unfold cutTag at h ⊢
      split at h
      · next hend =>
        obtain ⟨rfl, rfl⟩ := Prod.mk.inj (Option.some.inj h)
        rw [if_pos hend]
      · next hend =>
        obtain ⟨front', hcut, rfl⟩ := consFirst_eq_some_iff.mp h
        rw [if_neg hend, ih hcut]
        rfl
    | some q =>
      unfold cutTag at h ⊢
      obtain ⟨front', hcut, rfl⟩ := consFirst_eq_some_iff.mp h
      rw [ih hcut]
      rfl

theorem dropPrefix?_append {start : Bytes} (h : dropPrefix? start bytes = some rest)
    (more : Bytes) : dropPrefix? start (bytes ++ more) = some (rest ++ more) := by
  rw [dropPrefix?_eq_some_iff, dropPrefix?_eq_some_iff.mp h, List.append_assoc]

theorem dropPrefix?_append_eq_none {start : Bytes} (h : dropPrefix? start bytes = none)
    (hlength : start.length ≤ bytes.length) (more : Bytes) :
    dropPrefix? start (bytes ++ more) = none := by
  cases hmore : dropPrefix? start (bytes ++ more) with
  | none => rfl
  | some rest =>
    have hbegin : start <+: bytes ++ more := ⟨rest, (dropPrefix?_eq_some_iff.mp hmore).symm⟩
    obtain ⟨rest', hrest'⟩ :=
      List.prefix_of_prefix_length_le hbegin (List.prefix_append bytes more) hlength
    rw [dropPrefix?_eq_some_iff.mpr hrest'.symm] at h
    exact nomatch h

theorem length_ending_le_of_cutAt {ending : Bytes} (h : cutAt ending bytes = some (front, rest)) :
    ending.length ≤ bytes.length := by
  induction bytes generalizing front with
  | nil => exact nomatch h
  | cons b bs ih =>
    unfold cutAt at h
    split at h
    · next hdrop =>
      rw [dropPrefix?_eq_some_iff.mp hdrop, List.length_append]
      exact Nat.le_add_right _ _
    · obtain ⟨front', hcut, -⟩ := consFirst_eq_some_iff.mp h
      exact Nat.le_succ_of_le (ih hcut)

theorem cutAt_append {ending : Bytes} (h : cutAt ending bytes = some (front, rest))
    (more : Bytes) : cutAt ending (bytes ++ more) = some (front, rest ++ more) := by
  induction bytes generalizing front with
  | nil => exact nomatch h
  | cons b bs ih =>
    unfold cutAt at h
    rw [List.cons_append, cutAt, ← List.cons_append]
    cases hdrop : dropPrefix? ending (b :: bs) with
    | some rest' =>
      rw [hdrop] at h
      obtain ⟨rfl, rfl⟩ := Prod.mk.inj (Option.some.inj h)
      rw [dropPrefix?_append hdrop]
    | none =>
      rw [hdrop] at h
      obtain ⟨front', hcut, rfl⟩ := consFirst_eq_some_iff.mp h
      -- an ending here would be complete in front of the one that was found
      rw [dropPrefix?_append_eq_none hdrop (Nat.le_succ_of_le (length_ending_le_of_cutAt hcut))]
      dsimp only
      rw [ih hcut]
      rfl

theorem cutBalanced_append {depth : Nat} (h : cutBalanced depth bytes = some (front, rest))
    (more : Bytes) : cutBalanced depth (bytes ++ more) = some (front, rest ++ more) := by
  induction bytes generalizing depth front with
  | nil => exact nomatch h
  | cons b bs ih =>
    rw [List.cons_append]
    unfold cutBalanced at h ⊢
    split at h
    · next hopen =>
      obtain ⟨front', hcut, rfl⟩ := consFirst_eq_some_iff.mp h
      rw [if_pos hopen, ih hcut]
      rfl
    · next hopen =>
      rw [if_neg hopen]
      split at h
      · next hclose =>
        rw [if_pos hclose]
        cases depth with
        | zero =>
          obtain ⟨rfl, rfl⟩ := Prod.mk.inj (Option.some.inj h)
          rfl
        | succ depth =>
          obtain ⟨front', hcut, rfl⟩ := consFirst_eq_some_iff.mp h
          dsimp only
          rw [ih hcut]
          rfl
      · next hclose =>
        obtain ⟨front', hcut, rfl⟩ := consFirst_eq_some_iff.mp h
        rw [if_neg hclose, ih hcut]
        rfl

/-! ## 2. Constructs

Comments and character data are read alike, up to their delimiters and the fault when they are
missing, and have one lemma.  In each kind of construct every fault is excluded by hypothesis, so
that every cut in it has been made.
-/

/-- The construct with more bytes behind it. -/
def Construct.before (more : Bytes) : Construct → Construct
  | .event e rest => .event e (rest ++ more)
  | .silent rest => .silent (rest ++ more)
  | .fault e => .fault e

variable {c : Construct}

/-- What is between a beginning and an ending, as comments and character data are. -/
def readDelimited (start ending : Bytes) (fault : SyntaxError) (bytes : Bytes) : Construct :=
  match dropPrefix? start bytes with
  | none => .fault fault
  | some body =>
    match cutAt ending body with
    | none => .fault fault
    | some (_, rest) => .silent rest

theorem readDelimited_append {start ending : Bytes} {fault : SyntaxError}
    (h : readDelimited start ending fault bytes = c) (hc : ∀ e, c ≠ .fault e) (more : Bytes) :
    readDelimited start ending fault (bytes ++ more) = c.before more := by
  unfold readDelimited at h ⊢
  split at h
  · exact absurd h.symm (hc _)
  · next body hbody =>
    rw [dropPrefix?_append hbody]
    dsimp only
    split at h
    · exact absurd h.symm (hc _)
    · next hcut =>
      rw [cutAt_append hcut, ← h]
      rfl

theorem readDeclaration_append (h : readDeclaration bytes = c) (hc : ∀ e, c ≠ .fault e)
    (more : Bytes) : readDeclaration (bytes ++ more) = c.before more := by
  cases bytes with
  | nil => exact absurd h.symm (hc _)
  | cons b bs =>
    unfold readDeclaration at h ⊢
    dsimp only [List.cons_append] at h ⊢
    split at h
    · next hcomment =>
      rw [if_pos hcomment]
      exact readDelimited_append h hc more
    · next hcomment =>
      rw [if_neg hcomment]
      split at h
      · next hdata =>
        rw [if_pos hdata]
        exact readDelimited_append h hc more
      · next hdata =>
        rw [if_neg hdata]
        split at h
        · next hdoctype =>
          rw [if_pos hdoctype]
          split at h
          · exact absurd h.symm (hc _)
          · next hcut =>
            rw [← List.cons_append, cutBalanced_append hcut]
            dsimp only
            split at h
            · exact absurd h.symm (hc _)
            · split at h
              · exact absurd h.symm (hc _)
              · next hblank =>
                rw [if_neg hblank, ← h]
                rfl
        · exact absurd h.symm (hc _)

theorem readInstruction_append (h : readInstruction bytes = c) (hc : ∀ e, c ≠ .fault e)
    (more : Bytes) : readInstruction (bytes ++ more) = c.before more := by
  cases bytes with
  | nil => exact absurd h.symm (hc _)
  | cons b bs =>
    unfold readInstruction at h ⊢
    dsimp only [List.cons_append] at h ⊢
    split at h
    · exact absurd h.symm (hc _)
    · next hend =>
      rw [if_neg hend]
      split at h
      · exact absurd h.symm (hc _)
      · next hcut =>
        rw [← List.cons_append, cutAt_append hcut, ← h]
        rfl

/-- **A complete construct** does not depend on what follows it. -/
theorem readConstruct_append (h : readConstruct bytes = c) (hc : ∀ e, c ≠ .fault e)
    (more : Bytes) : readConstruct (bytes ++ more) = c.before more := by
  cases bytes with
  | nil => exact absurd h.symm (hc _)
  | cons b bs =>
    unfold readConstruct at h ⊢
    dsimp only [List.cons_append] at h ⊢
    split at h
    · next hdeclaration =>
      rw [if_pos hdeclaration]
      exact readDeclaration_append h hc more
    · next hdeclaration =>
      rw [if_neg hdeclaration]
      split at h
      · next hinstruction =>
        rw [if_pos hinstruction]
        exact readInstruction_append h hc more
      · next hinstruction =>
        rw [if_neg hinstruction]
        split at h
        · next hclosing =>
          rw [if_pos hclosing]
          split at h
          · exact absurd h.symm (hc _)
          · next hcut =>
            rw [cutTag_append hcut, ← h]
            rfl
        · next hclosing =>
          rw [if_neg hclosing]
          split at h
          · exact absurd h.symm (hc _)
          · next hcut =>
            rw [← List.cons_append, cutTag_append hcut, ← h]
            rfl

/-! ## 3. Documents

The induction is on the scan of the front.  Its last part is the one where no `<` is left; there the
longer document may go on as it likes.
-/

variable {opened : List Bytes} {b : UInt8} {bs : Bytes}

/-- A scan goes on behind a construct that is no event. -/
theorem scanFrom_of_silent (h : bytes.dropWhile (· != ascii '<') = b :: bs)
    (hc : readConstruct bs = .silent rest) : scanFrom opened bytes = scanFrom opened rest := by
  rw [scanFrom]
  split
  · next hnil => exact absurd (h.symm.trans hnil) (List.cons_ne_nil _ _)
  · next hcons =>
    obtain ⟨rfl, rfl⟩ := List.cons.inj (h.symm.trans hcons)
    split
    · next hfault => cases hc.symm.trans hfault
    · next hsilent =>
      cases hc.symm.trans hsilent
      rfl
    · next hevent => cases hc.symm.trans hevent

/-- An event that may come next is followed by the events behind it. -/
theorem scanFrom_of_event {e : Event} {opened' : List Bytes}
    (h : bytes.dropWhile (· != ascii '<') = b :: bs) (hc : readConstruct bs = .event e rest)
    (hnesting : nesting opened e = .ok opened') :
    scanFrom opened bytes
      = ⟨e :: (scanFrom opened' rest).events, (scanFrom opened' rest).fault⟩ := by
  rw [scanFrom]
  split
  · next hnil => exact absurd (h.symm.trans hnil) (List.cons_ne_nil _ _)
  · next hcons =>
    obtain ⟨rfl, rfl⟩ := List.cons.inj (h.symm.trans hcons)
    split
    · next hfault => cases hc.symm.trans hfault
    · next hsilent => cases hc.symm.trans hsilent
    · next hevent =>
      cases hc.symm.trans hevent
      rw [hnesting]

theorem dropWhile_append_of_cons {p : UInt8 → Bool} (h : bytes.dropWhile p = b :: bs)
    (more : Bytes) : (bytes ++ more).dropWhile p = b :: (bs ++ more) := by
  rw [List.dropWhile_append, h]
  rfl

theorem events_scanFrom_append (more : Bytes) (h : (scanFrom opened bytes).fault = none) :
    (scanFrom opened bytes).events <+: (scanFrom opened (bytes ++ more)).events := by
  fun_induction scanFrom opened bytes with
  | case1 => exact List.nil_prefix
  | case2 => exact nomatch h
  | case3 opened bytes b bs hcons rest hc _ ih =>
    have hmore := readConstruct_append hc (fun _ h => nomatch h) more
    rw [scanFrom_of_silent (dropWhile_append_of_cons hcons more) hmore]
    exact ih h
  | case4 => exact nomatch h
  | case5 opened bytes b bs hcons e rest hc _ opened' hnesting s ih =>
    have hmore := readConstruct_append hc (fun _ h => nomatch h) more
    rw [scanFrom_of_event (dropWhile_append_of_cons hcons more) hmore hnesting]
    exact List.cons_prefix_cons.mpr ⟨rfl, ih h⟩

/-- **The events of a document** begin with those of a front that splits no construct. -/
theorem events_scan_append (more : Bytes) (h : (scan bytes).fault = none) :
    (scan bytes).events <+: (scan (bytes ++ more)).events :=
  events_scanFrom_append more h

end TestLanes.Markup
