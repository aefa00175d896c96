/-!
# Blanks and trimming

`isBlank` is membership in the property `White_Space` of the character database, `trim` drops the
blanks at both ends of a text.

Beside them stand the operations on lists of characters that the readers share: cutting a text at a
separator, and taking a known beginning or a known ending off it.  The two that can fail have a
lemma that says exactly when they succeed, and later proofs use only those.
-/

namespace TestLanes.Text

/-- The characters with the property `White_Space`. -/
def isBlank (c : Char) : Bool :=
  let n := c.toNat
  (0x09 ≤ n && n ≤ 0x0D) || n == 0x20 || n == 0x85 || n == 0xA0 || n == 0x1680
    || (0x2000 ≤ n && n ≤ 0x200A) || n == 0x2028 || n == 0x2029 || n == 0x202F || n == 0x205F
    || n == 0x3000

def trimLeft (cs : List Char) : List Char := cs.dropWhile isBlank

def trimRight (cs : List Char) : List Char := (cs.reverse.dropWhile isBlank).reverse

/-- The text without the blanks at either end. -/
def trim (cs : List Char) : List Char := trimRight (trimLeft cs)

/-! ## Separators

A text has one piece more than it has separators, so never none.  What stands behind the last
separator is what `takeWhile` gives from the end, once the text is written as `front`, separator and
a `back` without separators.
-/

/-- The pieces between the separators: one more than there are separators. -/
def splitOn (separator : Char) : List Char → List (List Char)
  | [] => [[]]
  | c :: cs =>
    if c = separator then [] :: splitOn separator cs
    else match splitOn separator cs with
      | [] => [[c]]
      | piece :: pieces => (c :: piece) :: pieces

theorem splitOn_ne_nil (separator : Char) (cs : List Char) : splitOn separator cs ≠ [] := by
  induction cs with
  | nil => simp [splitOn]
  | cons c cs _ =>
    simp only [splitOn]
    split
    · simp
    · split <;> simp

theorem reverse_takeWhile_reverse {separator : Char} {front back : List Char}
    (h : separator ∉ back) :
    ((front ++ separator :: back).reverse.takeWhile (· ≠ separator)).reverse = back := by
  have hback : ∀ c ∈ back.reverse, decide (c ≠ separator) = true := by
    intro c hc
    refine decide_eq_true ?_
    rintro rfl
    exact h (List.mem_reverse.mp hc)
  rw [List.reverse_append, List.reverse_cons, List.append_assoc, List.singleton_append,
    List.takeWhile_append_of_pos hback, List.takeWhile_cons_of_neg (by simp), List.append_nil,
    List.reverse_reverse]

theorem exists_last_separator {separator : Char} {cs : List Char} (h : separator ∈ cs) :
    ∃ front back, cs = front ++ separator :: back ∧ separator ∉ back := by
  -- the last one is the first one from behind
  obtain ⟨back, front, hcs, hback⟩ := List.eq_append_cons_of_mem (List.mem_reverse.mpr h)
  refine ⟨front.reverse, back.reverse, ?_, fun hmem => hback (List.mem_reverse.mp hmem)⟩
  rw [← List.reverse_reverse cs, hcs]
  simp

/-! ## Beginnings and endings

A beginning or an ending that is taken off is a factor of the text: `dropPrefix? start cs` gives
`rest` exactly if `cs = start ++ rest`, and `dropSuffix?` is the mirror image of it.
-/

/-- What follows `start` in `cs`, if `cs` begins with it. -/
def dropPrefix? [DecidableEq α] : List α → List α → Option (List α)
  | [], cs => some cs
  | _ :: _, [] => none
  | p :: ps, c :: cs => if p = c then dropPrefix? ps cs else none

theorem dropPrefix?_eq_some_iff [DecidableEq α] {start cs rest : List α} :
    dropPrefix? start cs = some rest ↔ cs = start ++ rest := by
  induction start generalizing cs with
  | nil => simp [dropPrefix?, eq_comm]
  | cons p ps ih =>
    cases cs with
    | nil => simp [dropPrefix?]
    | cons c cs =>
      by_cases h : p = c
      · subst h; simp [dropPrefix?, ih]
      · simp [dropPrefix?, h, Ne.symm h]

theorem length_le_of_dropPrefix? [DecidableEq α] {start cs rest : List α}
    (h : dropPrefix? start cs = some rest) : rest.length ≤ cs.length := by
  rw [dropPrefix?_eq_some_iff.1 h, List.length_append]
  omega

/-- What precedes `suffix` in `cs`, if `cs` ends with it. -/
def dropSuffix? [DecidableEq α] (suffix cs : List α) : Option (List α) :=
  (dropPrefix? suffix.reverse cs.reverse).map List.reverse

theorem dropSuffix?_eq_some_iff [DecidableEq α] {suffix cs front : List α} :
    dropSuffix? suffix cs = some front ↔ cs = front ++ suffix := by
  simp only [dropSuffix?, Option.map_eq_some_iff, dropPrefix?_eq_some_iff]
  constructor
  · rintro ⟨r, hr, rfl⟩
    have := congrArg List.reverse hr
    simpa using this
  · rintro rfl
    exact ⟨front.reverse, by simp, by simp⟩

end TestLanes.Text
