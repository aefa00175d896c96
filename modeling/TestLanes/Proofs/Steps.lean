import TestLanes.Log

/-!
# Steps in a row

Steps that may fail come to something if each of them does, be they two steps or the steps of a run
through a list.  Steps that have something to say say it in order, and the value of all of them is
the value that the last one makes of the value before.

These are the lemmas by which the readers, the loops and the plans of the program are taken apart: a
computation is opened with `bind_eq_ok_iff` into its steps and their values, and no function is
unfolded for the steps of another one.
-/

namespace TestLanes

/-! ## 1. Steps that may fail

A run through a list is opened at either end.  What a list is turned into by steps that may fail
comes from its members, and so does the fault, if there is one.
-/

/-- Two steps come to something if each of them does. -/
theorem bind_eq_ok_iff {ε α β : Type} {x : Except ε α} {f : α → Except ε β} {b : β} :
    x >>= f = .ok b ↔ ∃ a, x = .ok a ∧ f a = .ok b := by
  cases x with
  | error err => exact iff_of_false (fun h => nomatch h) (fun ⟨_, h, _⟩ => nomatch h)
  | ok a =>
    constructor
    · exact fun h => ⟨a, rfl, h⟩
    · rintro ⟨a', h, hb⟩
      cases h
      exact hb

theorem toOption_eq_some_iff {ε α : Type} {x : Except ε α} {a : α} :
    x.toOption = some a ↔ x = .ok a := by
  cases x with
  | error err => exact iff_of_false (fun h => nomatch h) (fun h => nomatch h)
  | ok b => simp [Except.toOption]

section Runs

variable {ε α β : Type} {f : β → α → Except ε β} {x : α} {l : List α} {b c : β}

/-- A run comes to something if its first step does, and then the others do. -/
theorem foldlM_cons_eq_ok_iff :
    (x :: l).foldlM f b = .ok c ↔ ∃ mid, f b x = .ok mid ∧ l.foldlM f mid = .ok c := by
  rw [List.foldlM_cons, bind_eq_ok_iff]

theorem foldlM_concat_eq_ok_iff :
    (l ++ [x]).foldlM f b = .ok c ↔ ∃ mid, l.foldlM f b = .ok mid ∧ f mid x = .ok c := by
  have hlast : ∀ mid, [x].foldlM f mid = f mid x := by
    intro mid
    rw [List.foldlM_cons]
    cases f mid x <;> rfl
  simp only [List.foldlM_append, bind_eq_ok_iff, hlast]

end Runs

section Maps

variable {ε α β : Type} {f : α → Except ε β} {x : α} {l : List α} {ys zs : List β}

theorem mapM_cons_eq_ok_iff :
    (x :: l).mapM f = .ok zs ↔ ∃ y ys, f x = .ok y ∧ l.mapM f = .ok ys ∧ zs = y :: ys := by
  rw [List.mapM_cons]
  constructor
  · intro h
    obtain ⟨y, hy, h⟩ := bind_eq_ok_iff.mp h
    obtain ⟨ys, hys, h⟩ := bind_eq_ok_iff.mp h
    exact ⟨y, ys, hy, hys, (Except.ok.inj h).symm⟩
  · rintro ⟨y, ys, hy, hys, rfl⟩
    rw [hy, hys]
    rfl

/-- What a list is turned into comes from its members. -/
theorem mem_iff_of_mapM_eq_ok (h : l.mapM f = .ok ys) {y : β} :
    y ∈ ys ↔ ∃ x ∈ l, f x = .ok y := by
  induction l generalizing ys with
  | nil =>
    obtain rfl : [] = ys := Except.ok.inj h
    simp
  | cons x l ih =>
    obtain ⟨z, zs, hz, hzs, rfl⟩ := mapM_cons_eq_ok_iff.mp h
    simp only [List.mem_cons, exists_eq_or_imp, ih hzs, hz, Except.ok.injEq]
    rw [eq_comm]

theorem exists_mapM_eq_ok_iff : (∃ ys, l.mapM f = .ok ys) ↔ ∀ x ∈ l, ∃ y, f x = .ok y := by
  induction l with
  | nil => exact iff_of_true ⟨[], rfl⟩ (fun _ hx => absurd hx List.not_mem_nil)
  | cons x l ih =>
    rw [List.forall_mem_cons, ← ih]
    constructor
    · rintro ⟨_, h⟩
      obtain ⟨y, ys, hy, hys, -⟩ := mapM_cons_eq_ok_iff.mp h
      exact ⟨⟨y, hy⟩, ys, hys⟩
    · rintro ⟨⟨y, hy⟩, ys, hys⟩
      exact ⟨y :: ys, mapM_cons_eq_ok_iff.mpr ⟨y, ys, hy, hys, rfl⟩⟩

theorem exists_of_mapM_eq_error {err : ε} (h : l.mapM f = .error err) :
    ∃ x ∈ l, f x = .error err := by
  induction l with
  | nil => exact nomatch h
  | cons x l ih =>
    rw [List.mapM_cons] at h
    cases hx : f x with
    | error e =>
      rw [hx] at h
      obtain rfl : e = err := Except.error.inj h
      exact ⟨x, List.mem_cons_self, hx⟩
    | ok y =>
      cases hl : l.mapM f with
      | error e =>
        rw [hx, hl] at h
        obtain rfl : e = err := Except.error.inj h
        obtain ⟨z, hz, herr⟩ := ih hl
        exact ⟨z, List.mem_cons_of_mem x hz, herr⟩
      | ok ys =>
        rw [hx, hl] at h
        exact nomatch h

end Maps

/-! ## 2. Steps that have something to say -/

namespace Logged

variable {α β : Type}

theorem value_bind (x : Logged α) (f : α → Logged β) : (x >>= f).value = (f x.value).value := rfl

theorem lines_bind (x : Logged α) (f : α → Logged β) :
    (x >>= f).lines = x.lines ++ (f x.value).lines := rfl

/-- What comes next is looked at for the value at hand only. -/
theorem bind_congr {x : Logged α} {f g : α → Logged β} (h : f x.value = g x.value) :
    x >>= f = x >>= g :=
  congrArg (fun y => (⟨y.value, x.lines ++ y.lines⟩ : Logged β)) h

end Logged

end TestLanes
