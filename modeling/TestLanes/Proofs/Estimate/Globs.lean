import Mathlib.Logic.Basic
import Mathlib.Tactic.SplitIfs
import TestLanes.Estimate.Workspace
import TestLanes.Estimate.Glob
import TestLanes.Proofs.Text.ByteOrder

/-!
# What the globs of test sources match

A glob is matched byte by byte, while a path is a row of characters.  In UTF-8 a byte below 128
comes from the character with this number and from no other, so a row of bytes that is cut in front
of, or behind, such bytes is cut between characters (`encode_eq_append_literal_iff`,
`below_encode_iff`).  This is all that is needed to read the globs of test sources on the characters
of a path (`isTestSource_iff`).

A glob of test sources has six parts: any directories, a source root, any directories, the beginning
of a name, a star, and the end of a name.  What each part can leave over is described by a lemma on
membership in `rests`; together they give the factors of the path, first in bytes and then in
characters.
-/

namespace TestLanes.Estimate

open Markup (Bytes)

/-! ## 1. Bytes of a path

A character with several bytes has only bytes from 128 on.  So a byte below 128 in the bytes of a
text marks the place of a character, and what is before and behind it are bytes of whole characters.
For a row of such bytes the same follows by induction on the row.
-/

def encode (cs : List Char) : Bytes := cs.flatMap String.utf8EncodeChar

@[simp] theorem encode_nil : encode [] = [] := rfl

@[simp] theorem encode_cons (c : Char) (cs : List Char) :
    encode (c :: cs) = String.utf8EncodeChar c ++ encode cs := rfl

@[simp] theorem encode_append (cs ds : List Char) : encode (cs ++ ds) = encode cs ++ encode ds :=
  List.flatMap_append

theorem encode_eq_nil_iff {cs : List Char} : encode cs = [] ↔ cs = [] := by
  cases cs with
  | nil => simp
  | cons c cs => simp [String.utf8EncodeChar_ne_nil]

theorem toList_loop (bs : ByteArray) (i : Nat) (read : Bytes) :
    ByteArray.toList.loop bs i read = read.reverse ++ bs.data.toList.drop i := by
  fun_induction ByteArray.toList.loop bs i read with
  | case1 i read hi ih =>
    have hget : bs.get! i = bs.data.toList.get ⟨i, hi⟩ := getElem!_pos bs.data i hi
    have hdrop : bs.data.toList.drop i = bs.get! i :: bs.data.toList.drop (i + 1) := by
      rw [hget, List.get_eq_getElem, List.getElem_cons_drop]
    rw [ih, hdrop, List.reverse_cons, List.append_assoc, List.singleton_append]
  | case2 i read hi =>
    have hend : bs.data.toList.length ≤ i := Nat.le_of_not_lt hi
    rw [List.drop_eq_nil_of_le hend, List.append_nil]

theorem ofString_eq (s : String) : Bytes.ofString s = encode s.toList := by
  rw [encode, ← Text.bytes_eq, Text.bytes, Bytes.ofString, ByteArray.toList, toList_loop,
    List.reverse_nil, List.nil_append, List.drop_zero]

/-- The characters that have a single byte. -/
def IsAscii (c : Char) : Prop := c.val.toNat < 128

instance (c : Char) : Decidable (IsAscii c) := inferInstanceAs (Decidable (_ < _))

def byteOf (c : Char) : UInt8 := UInt8.ofNat c.val.toNat

theorem utf8EncodeChar_of_isAscii {c : Char} (hc : IsAscii c) :
    String.utf8EncodeChar c = [byteOf c] := by
  unfold IsAscii at hc
  unfold String.utf8EncodeChar byteOf
  dsimp only
  rw [if_pos (by omega)]

/-- **The byte of such a character comes from no other character.** -/
theorem eq_of_mem_utf8EncodeChar {c d : Char} (hd : IsAscii d)
    (h : byteOf d ∈ String.utf8EncodeChar c) : c = d := by
  unfold IsAscii at hd
  unfold String.utf8EncodeChar byteOf at h
  dsimp only at h
  have hval : c.val.toNat = d.val.toNat := by
    revert h hd
    generalize c.val.toNat = m
    generalize d.val.toNat = n
    intro hd h
    split_ifs at h
    all_goals
      simp only [List.mem_cons, List.not_mem_nil, or_false, ← UInt8.toNat_inj,
        UInt8.toNat_ofNat'] at h
      omega
  exact Char.ext (UInt32.toNat_inj.mp hval)

/-- Where the bytes are cut in front of such a byte, the characters are cut too. -/
theorem exists_of_encode_eq_append_cons {d : Char} (hd : IsAscii d) {cs : List Char} {as bs : Bytes}
    (h : encode cs = as ++ byteOf d :: bs) :
    ∃ front rest, cs = front ++ d :: rest ∧ encode front = as ∧ encode rest = bs := by
  induction cs generalizing as with
  | nil => simp at h
  | cons c cs ih =>
    rw [encode_cons] at h
    -- the byte is one of the first character, or it comes later
    rcases List.append_eq_append_iff.mp h with ⟨later, rfl, hlater⟩ | ⟨inside, hinside, hrest⟩
    · obtain ⟨front, rest, rfl, hfront, hrest⟩ := ih hlater
      exact ⟨c :: front, rest, rfl, by rw [encode_cons, hfront], hrest⟩
    · cases inside with
      | nil =>
        have hfirst : encode cs = [] ++ byteOf d :: bs := hrest.symm
        obtain ⟨front, rest, rfl, hfront, hbs⟩ := ih hfirst
        obtain rfl := encode_eq_nil_iff.mp hfront
        exact ⟨[c], rest, rfl, by simpa using hinside, hbs⟩
      | cons b inside =>
        obtain ⟨rfl, hbs⟩ := List.cons.inj hrest
        obtain rfl : c = d := eq_of_mem_utf8EncodeChar hd
          (hinside ▸ List.mem_append_right as List.mem_cons_self)
        rw [utf8EncodeChar_of_isAscii hd] at hinside
        obtain ⟨rfl, hone⟩ | ⟨-, hnone⟩ := List.append_eq_singleton_iff.mp hinside.symm
        · obtain rfl := (List.cons.inj hone).2
          exact ⟨[], cs, rfl, rfl, hbs.symm⟩
        · exact absurd hnone (List.cons_ne_nil _ _)

/-- A text begins with such characters if its bytes begin with theirs. -/
theorem encode_eq_literal_append_iff {cs : List Char} {literal : List Char}
    (hliteral : ∀ c ∈ literal, IsAscii c) {bs : Bytes} :
    encode cs = encode literal ++ bs ↔ ∃ rest, cs = literal ++ rest ∧ encode rest = bs := by
  constructor
  · intro h
    induction literal generalizing cs with
    | nil => exact ⟨cs, rfl, h⟩
    | cons d literal ih =>
      obtain ⟨hd, hall⟩ := List.forall_mem_cons.mp hliteral
      rw [encode_cons, utf8EncodeChar_of_isAscii hd] at h
      have hfirst : encode cs = [] ++ byteOf d :: (encode literal ++ bs) := h
      obtain ⟨front, rest, rfl, hfront, hrest⟩ := exists_of_encode_eq_append_cons hd hfirst
      obtain rfl := encode_eq_nil_iff.mp hfront
      obtain ⟨rest, rfl, hbs⟩ := ih hall hrest
      exact ⟨rest, rfl, hbs⟩
  · rintro ⟨rest, rfl, rfl⟩
    exact encode_append literal rest

/-- And it ends with them if its bytes do. -/
theorem encode_eq_append_literal_iff {cs : List Char} {literal : List Char}
    (hliteral : ∀ c ∈ literal, IsAscii c) {bs : Bytes} :
    encode cs = bs ++ encode literal ↔ ∃ front, cs = front ++ literal ∧ encode front = bs := by
  constructor
  · intro h
    cases literal with
    | nil => exact ⟨cs, (List.append_nil cs).symm, h.trans (List.append_nil bs)⟩
    | cons d literal =>
      obtain ⟨hd, hall⟩ := List.forall_mem_cons.mp hliteral
      rw [encode_cons, utf8EncodeChar_of_isAscii hd] at h
      obtain ⟨front, rest, rfl, hfront, hrest⟩ := exists_of_encode_eq_append_cons hd h
      have hbare : encode rest = encode literal ++ [] := hrest.trans (List.append_nil _).symm
      obtain ⟨_, rfl, hnil⟩ := (encode_eq_literal_append_iff hall).mp hbare
      rw [encode_eq_nil_iff.mp hnil, List.append_nil]
      exact ⟨front, rfl, hfront⟩
  · rintro ⟨front, rfl, rfl⟩
    exact encode_append front literal

theorem byteOf_mem_encode_iff {d : Char} (hd : IsAscii d) {cs : List Char} :
    byteOf d ∈ encode cs ↔ d ∈ cs := by
  rw [encode, List.mem_flatMap]
  constructor
  · rintro ⟨c, hc, hmem⟩
    exact eq_of_mem_utf8EncodeChar hd hmem ▸ hc
  · exact fun hmem => ⟨d, hmem, by simp [utf8EncodeChar_of_isAscii hd]⟩

/-! ## 2. Directories

`Below` is what a pattern for any directories leaves over: everything, or what stands behind one of
the slashes.  It is stated for rows of any kind of thing, and used for bytes and for characters.
-/

/-- One row is another one, or what follows a separator in it. -/
def Below {α : Type} (separator : α) (whole rest : List α) : Prop :=
  rest = whole ∨ ∃ front, whole = front ++ separator :: rest

theorem Below.trans {α : Type} {separator : α} {whole middle rest : List α}
    (h : Below separator whole middle) (hrest : Below separator middle rest) :
    Below separator whole rest := by
  rcases h with rfl | ⟨front, rfl⟩
  · exact hrest
  · rcases hrest with rfl | ⟨inner, rfl⟩
    · exact .inr ⟨front, rfl⟩
    · exact .inr ⟨front ++ separator :: inner, by simp⟩

theorem isAscii_slash : IsAscii '/' := by decide

/-- Directories in front of a path are cut off at a slash. -/
theorem below_encode_iff {cs : List Char} {bs : Bytes} :
    Below slash (encode cs) bs ↔ ∃ rest, Below '/' cs rest ∧ encode rest = bs := by
  constructor
  · rintro (rfl | ⟨front, h⟩)
    · exact ⟨cs, .inl rfl, rfl⟩
    · obtain ⟨front, rest, rfl, -, hrest⟩ := exists_of_encode_eq_append_cons isAscii_slash h
      exact ⟨rest, .inr ⟨front, rfl⟩, hrest⟩
  · rintro ⟨rest, rfl | ⟨front, rfl⟩, rfl⟩
    · exact .inl rfl
    · exact .inr ⟨encode front, encode_append front ('/' :: rest)⟩

/-- A name without slashes at the end of a path is below whatever the path is below of. -/
theorem Below.exists_append {cs rest name : List Char} (hrest : Below '/' cs rest)
    (hname : Below '/' cs name) (hslash : '/' ∉ name) : ∃ front, rest = front ++ name := by
  rcases hname with rfl | ⟨before, rfl⟩
  · rcases hrest with rfl | ⟨front, rfl⟩
    · exact ⟨[], rfl⟩
    · exact absurd (List.mem_append_right front List.mem_cons_self) hslash
  · rcases hrest with rfl | ⟨front, h⟩
    · exact ⟨before ++ ['/'], by simp⟩
    · rcases List.append_eq_append_iff.mp h with ⟨middle, -, hmiddle⟩ | ⟨middle, -, hmiddle⟩
      · cases middle with
        | nil => exact ⟨[], (List.cons.inj hmiddle).2.symm⟩
        | cons c middle =>
          obtain ⟨-, rfl⟩ := List.cons.inj hmiddle
          exact absurd (List.mem_append_right middle List.mem_cons_self) hslash
      · cases middle with
        | nil => exact ⟨[], (List.cons.inj hmiddle).2⟩
        | cons c middle =>
          obtain ⟨-, rfl⟩ := List.cons.inj hmiddle
          exact ⟨middle ++ ['/'], by simp⟩

/-! ## 3. Pieces

One lemma for each kind of piece says what it can leave over, as an equation between rows.  Kinds
that do not occur in the globs of test sources have none.
-/

section Pieces

variable {p : Piece} {ps : List Piece} {s t : Bytes}

theorem mem_restsOfAll_cons : t ∈ restsOfAll (p :: ps) s ↔ ∃ u ∈ p.rests s, t ∈ restsOfAll ps u := by
  rw [restsOfAll, List.mem_eraseDups, List.mem_flatMap]

theorem mem_afterByte {accepts : UInt8 → Bool} :
    t ∈ afterByte accepts s ↔ ∃ b, accepts b = true ∧ s = b :: t := by
  cases s with
  | nil => simp [afterByte]
  | cons b s =>
    rw [afterByte]
    constructor
    · intro ht
      split at ht
      · rename_i hb
        exact ⟨b, hb, by rw [List.mem_singleton.mp ht]⟩
      · exact absurd ht List.not_mem_nil
    · rintro ⟨c, hc, h⟩
      obtain ⟨rfl, rfl⟩ := List.cons.inj h
      rw [if_pos hc]
      exact List.mem_singleton_self s

theorem mem_rests_byte {b : UInt8} : t ∈ (Piece.byte b).rests s ↔ s = b :: t := by
  rw [Piece.rests, mem_afterByte]
  simp

theorem mem_restsOfAll_bytes {bs : Bytes} :
    t ∈ restsOfAll (bs.map .byte ++ ps) s ↔ ∃ u, s = bs ++ u ∧ t ∈ restsOfAll ps u := by
  induction bs generalizing s with
  | nil => simp
  | cons b bs ih =>
    simp only [List.map_cons, List.cons_append, mem_restsOfAll_cons, mem_rests_byte, ih]
    constructor
    · rintro ⟨_, rfl, u, rfl, ht⟩
      exact ⟨u, rfl, ht⟩
    · rintro ⟨u, rfl, ht⟩
      exact ⟨bs ++ u, rfl, u, rfl, ht⟩

theorem mem_afterSlashes : t ∈ afterSlashes s ↔ ∃ front, s = front ++ slash :: t := by
  induction s with
  | nil => simp [afterSlashes]
  | cons b s ih =>
    have hlater : (∃ front, b :: s = front ++ slash :: t) ↔
        b = slash ∧ s = t ∨ ∃ front, s = front ++ slash :: t := by
      simp only [List.cons_eq_append_iff, List.cons.injEq]
      grind
    rw [hlater, ← ih, afterSlashes]
    by_cases hb : b = slash <;> simp [hb, eq_comm]

theorem mem_rests_leadingDirs : t ∈ Piece.leadingDirs.rests s ↔ Below slash s t := by
  rw [Piece.rests, List.mem_cons, mem_afterSlashes, Below]

theorem mem_rests_middleDirs :
    t ∈ Piece.middleDirs.rests s ↔ ∃ u, s = slash :: u ∧ Below slash u t := by
  simp only [Piece.rests, afterSlash, List.mem_flatMap, mem_afterByte, List.mem_cons,
    mem_afterSlashes, Below, decide_eq_true_eq, exists_eq_left]

theorem mem_rests_many : t ∈ Piece.many.rests s ↔ ∃ front, s = front ++ t ∧ slash ∉ front := by
  rw [Piece.rests]
  induction s with
  | nil =>
    rw [tailsInName, List.mem_singleton]
    constructor
    · rintro rfl
      exact ⟨[], rfl, List.not_mem_nil⟩
    · rintro ⟨front, h, -⟩
      exact (List.append_eq_nil_iff.mp h.symm).2
  | cons b s ih =>
    rw [tailsInName, List.mem_cons]
    constructor
    · rintro (rfl | ht)
      · exact ⟨[], rfl, List.not_mem_nil⟩
      · split at ht
        · exact absurd ht List.not_mem_nil
        · rename_i hb
          obtain ⟨front, rfl, hfront⟩ := ih.mp ht
          exact ⟨b :: front, rfl, List.not_mem_cons_of_ne_of_not_mem (Ne.symm hb) hfront⟩
    · rintro ⟨front, h, hfront⟩
      cases front with
      | nil => exact .inl h.symm
      | cons c front =>
        obtain ⟨rfl, rfl⟩ := List.cons.inj h
        obtain ⟨hb, hfront⟩ := List.ne_and_not_mem_of_not_mem_cons hfront
        rw [if_neg (Ne.symm hb)]
        exact .inr (ih.mpr ⟨front, rfl, hfront⟩)

end Pieces

/-! ## 4. Test sources

The four patterns are read as globs of one shape, which differ in how names begin and end.  What a
glob matches is found in bytes first; since the source root and both parts of the name are ASCII,
the factors are then those of the characters.
-/

def literal (s : String) : List Piece := (encode s.toList).map .byte

/-- The glob of test sources whose names begin and end in some way. -/
def sourceGlob (front back : String) : Glob :=
  .leadingDirs :: (literal "src/test/java" ++ .middleDirs :: (literal front ++ .many :: literal back))

def sourceNames : List (String × String) :=
  [("Test", ".java"), ("", "Test.java"), ("", "Tests.java"), ("", "TestCase.java")]

/-- The patterns spell these globs. -/
theorem mapM_read_sourcePatterns : sourcePatterns.mapM Glob.read
    = some (sourceNames.map fun (front, back) => sourceGlob front back) := by
  -- the loop over the bytes of a text is not unfolded otherwise
  with_unfolding_all rfl

/-- A path that one of the patterns matches. -/
def IsTestSource (path : String) : Prop :=
  ∃ globs, sourcePatterns.mapM Glob.read = some globs ∧ globs.any (·.accepts path) = true

/-- The name of a file without directories, as the patterns want it. -/
def IsTestName (name : List Char) : Prop :=
  ∃ ends ∈ sourceNames, ∃ middle, '/' ∉ middle ∧ name = ends.1.toList ++ (middle ++ ends.2.toList)

/-- Only the characters of the text have to be looked at, and not all that there are. -/
theorem isAscii_of_all {cs : List Char} (h : cs.all (IsAscii ·) = true) : ∀ c ∈ cs, IsAscii c :=
  fun c hc => of_decide_eq_true (List.all_eq_true.mp h c hc)

theorem isAscii_sourceRoot : ∀ c ∈ sourceRoot, IsAscii c := isAscii_of_all (by decide)

theorem isAscii_sourceNames {ends : String × String} (h : ends ∈ sourceNames) :
    (∀ c ∈ ends.1.toList, IsAscii c) ∧ ∀ c ∈ ends.2.toList, IsAscii c := by
  have hall : ∀ ends ∈ sourceNames, ends.1.toList.all (IsAscii ·) = true ∧
      ends.2.toList.all (IsAscii ·) = true := by decide
  exact ⟨isAscii_of_all (hall ends h).1, isAscii_of_all (hall ends h).2⟩

/-- What a glob of test sources matches, in bytes. -/
theorem accepts_sourceGlob_iff_bytes {front back path : String} :
    (sourceGlob front back).accepts path = true ↔ ∃ rest name middle,
      Below slash (encode path.toList) (encode sourceRoot ++ rest) ∧ Below slash rest name ∧
        slash ∉ middle ∧ name = encode front.toList ++ (middle ++ encode back.toList) := by
  have hroot : ∀ rest, encode "src/test/java".toList ++ slash :: rest = encode sourceRoot ++ rest :=
    fun _ => rfl
  have hend : ∀ s, [] ∈ restsOfAll ((encode back.toList).map .byte) s ↔ s = encode back.toList := by
    intro s
    rw [← List.append_nil (List.map _ _), mem_restsOfAll_bytes]
    simp [restsOfAll]
  have hall : (sourceGlob front back).matchesAll = false := rfl
  rw [Glob.accepts, hall, Bool.false_or, List.any_eq_true, ofString_eq]
  simp only [List.isEmpty_iff, exists_eq_right, sourceGlob, literal, mem_restsOfAll_cons,
    mem_restsOfAll_bytes, mem_rests_leadingDirs, mem_rests_middleDirs, mem_rests_many, hend]
  constructor
  · rintro ⟨_, hrest, _, rfl, name, ⟨rest, rfl, hname⟩, _, rfl, middle, rfl, hslash⟩
    exact ⟨rest, _, middle, hroot rest ▸ hrest, hname, hslash, rfl⟩
  · rintro ⟨rest, _, middle, hrest, hname, hslash, rfl⟩
    exact ⟨_, hrest, _, (hroot rest).symm, _, ⟨rest, rfl, hname⟩, _, rfl, middle, rfl,
      hslash⟩

/-- What a glob of test sources matches, in characters. -/
theorem accepts_sourceGlob_iff {front back : String} (hfront : ∀ c ∈ front.toList, IsAscii c)
    (hback : ∀ c ∈ back.toList, IsAscii c) {path : String} :
    (sourceGlob front back).accepts path = true ↔ ∃ rest name middle,
      Below '/' path.toList (sourceRoot ++ rest) ∧ Below '/' rest name ∧
        '/' ∉ middle ∧ name = front.toList ++ (middle ++ back.toList) := by
  rw [accepts_sourceGlob_iff_bytes]
  constructor
  · rintro ⟨rest, name, middle, hrest, hname, hslash, heq⟩
    obtain ⟨whole, hwhole, hencoded⟩ := below_encode_iff.mp hrest
    obtain ⟨rest, rfl, rfl⟩ := (encode_eq_literal_append_iff isAscii_sourceRoot).mp hencoded
    obtain ⟨name, hbelow, rfl⟩ := below_encode_iff.mp hname
    obtain ⟨inner, rfl, hinner⟩ := (encode_eq_literal_append_iff hfront).mp heq
    obtain ⟨middle, rfl, rfl⟩ := (encode_eq_append_literal_iff hback).mp hinner
    exact ⟨rest, _, middle, hwhole, hbelow,
      fun hmem => hslash ((byteOf_mem_encode_iff isAscii_slash).mpr hmem), rfl⟩
  · rintro ⟨rest, name, middle, hrest, hname, hslash, rfl⟩
    refine ⟨encode rest, _, encode middle, below_encode_iff.mpr ⟨_, hrest, encode_append _ _⟩,
      below_encode_iff.mpr ⟨_, hname, rfl⟩,
      fun hmem => hslash ((byteOf_mem_encode_iff isAscii_slash).mp hmem), ?_⟩
    rw [encode_append, encode_append]

/-- **The patterns match the files below a source root that have one of the names**, in any
directory. -/
theorem isTestSource_iff {path : String} : IsTestSource path ↔ ∃ rest name,
    Below '/' path.toList (sourceRoot ++ rest) ∧ Below '/' rest name ∧ IsTestName name := by
  have hglobs : IsTestSource path ↔
      ∃ ends ∈ sourceNames, (sourceGlob ends.1 ends.2).accepts path = true := by
    simp only [IsTestSource, mapM_read_sourcePatterns, Option.some.injEq, exists_eq_left',
      List.any_eq_true, List.mem_map, exists_exists_and_eq_and]
  rw [hglobs]
  constructor
  · rintro ⟨ends, hends, haccepts⟩
    obtain ⟨hfront, hback⟩ := isAscii_sourceNames hends
    obtain ⟨rest, name, middle, hrest, hname, hslash, rfl⟩ :=
      (accepts_sourceGlob_iff hfront hback).mp haccepts
    exact ⟨rest, _, hrest, hname, ends, hends, middle, hslash, rfl⟩
  · rintro ⟨rest, name, hrest, hname, ends, hends, middle, hslash, rfl⟩
    obtain ⟨hfront, hback⟩ := isAscii_sourceNames hends
    exact ⟨ends, hends,
      (accepts_sourceGlob_iff hfront hback).mpr ⟨rest, _, middle, hrest, hname, hslash, rfl⟩⟩

end TestLanes.Estimate
