import TestLanes.Text.Blank

/-!
# Pieces of a text

Cutting a text at a separator gives the pieces of the text before it and of the text behind it
(`splitOn_append_cons`), one more than there are separators (`length_splitOn`).

The definition is the library's in another shape (`splitOn_eq`), and its lemmas are used from there.
-/

namespace TestLanes.Text

/-- The pieces are those that the library cuts a list into. -/
theorem splitOn_eq (separator : Char) (cs : List Char) :
    splitOn separator cs = cs.splitOn separator := by
  induction cs with
  | nil => rfl
  | cons c cs ih =>
    rw [splitOn, List.splitOn_cons_eq_if_modifyHead, ih]
    simp only [beq_iff_eq]
    split
    · rfl
    · cases hpieces : cs.splitOn separator with
      | nil => exact absurd hpieces (List.splitOn_ne_nil separator cs)
      | cons piece pieces => rfl

theorem splitOn_append_cons (separator : Char) (cs ds : List Char) :
    splitOn separator (cs ++ separator :: ds)
      = splitOn separator cs ++ splitOn separator ds := by
  simp only [splitOn_eq, List.splitOn_append_cons_self]

theorem splitOn_eq_singleton {separator : Char} {cs : List Char} (h : separator ∉ cs) :
    splitOn separator cs = [cs] := by
  rw [splitOn_eq, List.splitOn_eq_singleton h]

/-- There is one piece more than there are separators. -/
theorem length_splitOn (separator : Char) (cs : List Char) :
    (splitOn separator cs).length = cs.count separator + 1 := by
  induction cs with
  | nil => rfl
  | cons c cs ih =>
    rw [splitOn]
    split
    · next h =>
      subst h
      rw [List.length_cons, ih, List.count_cons_self]
    · next h =>
      rw [List.count_cons_of_ne h, ← ih]
      split
      · next hnil => exact absurd hnil (splitOn_ne_nil separator cs)
      · next piece pieces hpieces => rw [hpieces, List.length_cons, List.length_cons]

end TestLanes.Text
