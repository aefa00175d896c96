import TestLanes.History.Locator
import TestLanes.Proofs.Granularity.Extract

/-!
# Archives with reordered results

Two archives may list the cases of a build in different orders.  Then they go through a search in
step: whatever is said is the same, and what one finds is what the other finds, with the same cases
(`locate_alike`), also after narrowing to a stage (`narrow_alike`).

`Logged.Alike` relates two computations that say the same lines and whose results are related.  It
is kept by `>>=` (`alike_bind`), so each function here takes one pass through its own text.

That the lines are the same needs an argument of its own, since they name counts of cases: trees of
the same cases have the same number of them, and the name of a build does not come from its results.
-/

namespace TestLanes

/-! ## 1. Computations in step

The relation on results is a parameter, as it changes on the way: results that are loaded, searches,
located builds, and at last equality, where two computations in step are one and the same.
-/

namespace Logged

variable {α β γ δ : Type}

/-- Both computations say the same, and their results are related. -/
structure Alike (R : α → β → Prop) (x : Logged α) (y : Logged β) : Prop where
  value : R x.value y.value
  lines : x.lines = y.lines

theorem alike_pure {R : α → β → Prop} {a : α} {b : β} (h : R a b) : Alike R (pure a) (pure b) :=
  ⟨h, rfl⟩

/-- **One after the other.** -/
theorem alike_bind {R : α → β → Prop} {S : γ → δ → Prop} {x : Logged α} {y : Logged β}
    {f : α → Logged γ} {g : β → Logged δ} (h : Alike R x y)
    (hfg : ∀ a b, R a b → Alike S (f a) (g b)) : Alike S (x >>= f) (y >>= g) := by
  have hnext := hfg _ _ h.value
  exact ⟨hnext.value, congrArg₂ (· ++ ·) h.lines hnext.lines⟩

theorem alike_bind_left {S : γ → δ → Prop} (x : Logged α) {f : α → Logged γ} {g : α → Logged δ}
    (h : ∀ a, Alike S (f a) (g a)) : Alike S (x >>= f) (x >>= g) :=
  alike_bind (R := Eq) ⟨rfl, rfl⟩ fun a _ hab => hab ▸ h a

/-- Computations with the same results are the same. -/
theorem Alike.eq {x y : Logged α} (h : Alike Eq x y) : x = y := by
  cases x
  cases y
  obtain ⟨rfl, rfl⟩ := h
  rfl

end Logged

open Logged (Alike alike_bind alike_bind_left alike_pure)

/-! ## 2. Trees of the same cases

Whatever is asked of a tree during a search depends on its cases up to their order: how many there
are, which ran in a block, and which entities they make.
-/

namespace Report.Tree

/-- The trees are made from the same cases, in two orders. -/
def Reordered (t t' : Tree) : Prop :=
  ∃ name cs cs', cs.Perm cs' ∧ t = ofCases name cs ∧ t' = ofCases name cs'

theorem Reordered.cases_perm {t t' : Tree} (h : t.Reordered t') : t.cases.Perm t'.cases := by
  obtain ⟨name, cs, cs', hperm, rfl, rfl⟩ := h
  exact ((cases_ofCases_perm name cs).trans hperm).trans (cases_ofCases_perm name cs').symm

theorem Reordered.totalCount_eq {t t' : Tree} (h : t.Reordered t') :
    t.totalCount = t'.totalCount :=
  h.cases_perm.length_eq

theorem Reordered.forBlock {t t' : Tree} (h : t.Reordered t') (block : String) :
    (t.forBlock block).Reordered (t'.forBlock block) := by
  have hcases := h.cases_perm.filter (Case.inBlock block)
  obtain ⟨name, cs, cs', -, rfl, rfl⟩ := h
  exact ⟨name, _, _, hcases, rfl, rfl⟩

/-- **The same entities.** -/
theorem Reordered.extract_eq {t t' : Tree} (h : t.Reordered t') (g : Granularity) :
    g.extract t = g.extract t' := by
  obtain ⟨name, cs, cs', hperm, rfl, rfl⟩ := h
  exact Granularity.extract_perm g name name hperm

end Report.Tree

namespace History

open Report (Tree)

/-- Loading ends in the same way, with trees of the same cases if there are trees. -/
inductive Reloaded : Except LoadError (Option Tree) → Except LoadError (Option Tree) → Prop where
  | error (e : LoadError) : Reloaded (.error e) (.error e)
  | nothing : Reloaded (.ok none) (.ok none)
  | tree {t t' : Tree} (h : t.Reordered t') : Reloaded (.ok (some t)) (.ok (some t'))

variable {B : Type}

/-- The same build, with trees of the same cases. -/
structure Located.Reordered (x y : Located B) : Prop where
  build : x.build = y.build
  tree : x.tree.Reordered y.tree

/-- The same builds are loaded, and the same one is found. -/
structure Search.Reordered (s s' : Search B) : Prop where
  found : Option.Rel Located.Reordered s.found s'.found
  loaded : s.loaded = s'.loaded

theorem Search.reordered_empty : Search.Reordered (B := B) {} {} := ⟨.none, rfl⟩

theorem Search.Reordered.isSome_eq {s s' : Search B} (h : s.Reordered s') :
    s.found.isSome = s'.found.isSome := by
  obtain ⟨found, loaded⟩ := s
  obtain ⟨found', loaded'⟩ := s'
  obtain ⟨hfound, -⟩ := h
  cases hfound <;> rfl

/-- Both go on, or neither does. -/
theorem Search.Reordered.orContinue_alike {s s' : Search B} (hs : s.Reordered s')
    {next next' : Unit → Logged (Search B)} (h : (next ()).Alike Search.Reordered (next' ())) :
    (s.orContinue next).Alike Search.Reordered (s'.orContinue next') := by
  unfold Search.orContinue
  rw [hs.isSome_eq]
  split
  · exact alike_pure hs
  · exact alike_bind h fun r r' hr =>
      alike_pure ⟨hr.found, congrArg₂ (· ++ ·) hs.loaded hr.loaded⟩

namespace Archive

variable (a : Archive B)

/-- The archive with other results. -/
def withLoad (load : B → Logged (Except LoadError (Option Tree))) : Archive B :=
  { a with load := load }

variable {a} {load : B → Logged (Except LoadError (Option Tree))}

@[simp] theorem isBuilding_withLoad : (a.withLoad load).isBuilding = a.isBuilding := rfl

@[simp] theorem status_withLoad : (a.withLoad load).status = a.status := rfl

/-! ## 3. Searches in step

One lemma for each function of the search, in the order in which they call each other.  Only loading
differs between the two archives; everything else is asked of the same functions.
-/

theorem loadUsable_alike (h : ∀ b, (a.load b).Alike Reloaded (load b)) (b : B) :
    (a.loadUsable b).Alike Search.Reordered ((a.withLoad load).loadUsable b) := by
  have hrecord : (a.loadOnRecord b).Alike (fun r r' => Reloaded r.1 r'.1 ∧ r.2 = r'.2)
      ((a.withLoad load).loadOnRecord b) :=
    alike_bind (h b) fun results results' hresults => alike_pure ⟨hresults, rfl⟩
  refine alike_bind hrecord ?_
  rintro ⟨results, loaded⟩ ⟨results', loaded'⟩ ⟨hresults, hloaded⟩
  cases hresults with
  | error e => exact alike_bind_left _ fun _ => alike_pure ⟨.none, hloaded⟩
  | nothing => exact alike_bind_left _ fun _ => alike_pure ⟨.none, hloaded⟩
  | @tree t t' ht =>
    by_cases hpos : 0 < t.totalCount
    · have hpos' : 0 < t'.totalCount := ht.totalCount_eq ▸ hpos
      simp only [if_pos hpos, if_pos hpos']
      exact alike_bind_left _ fun _ => alike_pure ⟨.some ⟨rfl, ht⟩, hloaded⟩
    · have hpos' : ¬ 0 < t'.totalCount := ht.totalCount_eq ▸ hpos
      simp only [if_neg hpos, if_neg hpos']
      exact alike_bind_left _ fun _ => alike_pure ⟨.none, hloaded⟩

theorem inspect_alike (h : ∀ b, (a.load b).Alike Reloaded (load b)) (b : B) :
    (a.inspect b).Alike Search.Reordered ((a.withLoad load).inspect b) := by
  unfold inspect
  rw [isBuilding_withLoad, status_withLoad]
  by_cases hbuilding : a.isBuilding b
  · rw [if_pos hbuilding, if_pos hbuilding]
    exact alike_bind_left _ fun _ => alike_pure Search.reordered_empty
  · rw [if_neg hbuilding, if_neg hbuilding]
    by_cases hstatus : !(a.status b).isAccepted
    · rw [if_pos hstatus, if_pos hstatus]
      exact alike_bind_left _ fun _ => alike_pure Search.reordered_empty
    · rw [if_neg hstatus, if_neg hstatus]
      exact loadUsable_alike h b

theorem walk_alike (h : ∀ b, (a.load b).Alike Reloaded (load b)) (depth : Nat) (start : Option B) :
    (a.walk depth start).Alike Search.Reordered ((a.withLoad load).walk depth start) := by
  induction depth generalizing start with
  | zero =>
    rw [walk, walk]
    exact alike_pure Search.reordered_empty
  | succ depth ih =>
    cases start with
    | none => exact alike_pure Search.reordered_empty
    | some b =>
      rw [walk, walk]
      refine alike_bind (inspect_alike h b) fun s s' hs => hs.orContinue_alike ?_
      exact alike_bind_left (a.previous b) ih

theorem walkFinders_alike (h : ∀ b, (a.load b).Alike Reloaded (load b)) (depth : Nat) (current : B)
    (finders : List (Finder B)) :
    (a.walkFinders depth current finders).Alike Search.Reordered
      ((a.withLoad load).walkFinders depth current finders) := by
  induction finders with
  | nil => exact alike_pure Search.reordered_empty
  | cons f fs ih =>
    rw [walkFinders, walkFinders]
    refine alike_bind_left (f.find current) fun start => ?_
    cases start with
    | none => exact ih
    | some start =>
      refine alike_bind_left _ fun _ => ?_
      exact alike_bind (walk_alike h depth (some start)) fun s s' hs => hs.orContinue_alike ih

/-- **Searches find the same build.** -/
theorem locate_alike (h : ∀ b, (a.load b).Alike Reloaded (load b)) (depth : Nat)
    (finders : List (Finder B)) (current : B) :
    (a.locate depth finders current).Alike Search.Reordered
      ((a.withLoad load).locate depth finders current) := by
  refine alike_bind_left (a.previous current) fun start => ?_
  exact alike_bind (walk_alike h depth start) fun s s' hs =>
    hs.orContinue_alike (walkFinders_alike h depth current finders)

/-- **Narrowing keeps the same cases**, whatever steps are recorded. -/
theorem narrow_alike {x y : Located B} (h : x.Reordered y) (stage : String) :
    (a.narrow x stage).Alike Located.Reordered ((a.withLoad load).narrow y stage) := by
  obtain ⟨b, t⟩ := x
  obtain ⟨b', t'⟩ := y
  obtain ⟨rfl, ht⟩ := h
  refine alike_bind_left (a.graph b) fun graph => ?_
  cases graph with
  | none => exact alike_bind_left _ fun _ => alike_pure ⟨rfl, ht⟩
  | some graph =>
    cases hnode : graph.findLabeled stage with
    | none =>
      simp only [hnode]
      exact alike_bind_left _ fun _ => alike_pure ⟨rfl, ht⟩
    | some node =>
      simp only [hnode]
      exact alike_bind_left _ fun _ => alike_pure ⟨rfl, ht.forBlock node.id⟩

end Archive

end History

end TestLanes
