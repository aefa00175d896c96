import TestLanes.Granularity.Extract
import TestLanes.Proofs.Entity.Gather
import TestLanes.Proofs.Report.ClassName
import TestLanes.Proofs.Report.Grouping

/-!
# The entities of a tree of cases

Each case stands for an entity, `Granularity.entityOf`, and the entities of a tree are those of its
cases, gathered by key (`extract_ofCases`).  This holds of whole classes too: all cases of a class
have its full name as their key, no other class has this key, and so it is put in once, with the
time that its cases have together.

A class whose seconds do not fit in a word has no time, and then its tree has no entities.
`ClassesFit` says that there is no such class.  A tree with cases never has an empty set of entities
(`extract_ne_empty`).

Neither side depends on the order of the cases (`extract_perm`).
-/

namespace TestLanes

open Report (Case ClassName ClassResult DurationError Tree classOf classes_ofCases mem_owners
  nodup_owners owners)

/-! ## 1. Times of classes

Whether the times of all classes have a value is a property of the list of cases: the classes of its
tree are the owners of the cases, and the time of a class is the sum over the cases of its owner.
-/

namespace Report

/-- The time of a class as a number. -/
def ClassResult.time (r : ClassResult) : Nat := sumOf (r.cases.map (·.duration.val))

/-- Whether the time of every class has a value. -/
def ClassesFit (cs : List Case) : Prop :=
  ∀ c ∈ cs, (classOf cs c.owner).time / 1000 < Text.wordBound

instance (cs : List Case) : Decidable (ClassesFit cs) :=
  inferInstanceAs (Decidable (∀ c ∈ cs, (classOf cs c.owner).time / 1000 < Text.wordBound))

theorem duration_eq (r : ClassResult) : r.duration
    = if r.time / 1000 < Text.wordBound then .ok r.time else .error .overflow := rfl

theorem time_classOf_perm {cs cs' : List Case} (h : cs.Perm cs') (n : ClassName) :
    (classOf cs n).time = (classOf cs' n).time :=
  sumOf_perm ((h.filter _).map _)

theorem classesFit_perm {cs cs' : List Case} (h : cs.Perm cs') : ClassesFit cs ↔ ClassesFit cs' := by
  unfold ClassesFit
  refine forall_congr' fun c => ?_
  rw [h.mem_iff, time_classOf_perm h]

theorem classesFit_iff {cs : List Case} : ClassesFit cs
    ↔ ∀ r ∈ (owners cs).map (classOf cs), r.time / 1000 < Text.wordBound := by
  rw [List.forall_mem_map]
  constructor
  · intro h n hn
    obtain ⟨c, hc, rfl⟩ := mem_owners.mp hn
    exact h c hc
  · intro h c hc
    exact h c.owner (mem_owners.mpr ⟨c, hc, rfl⟩)

theorem Case.owner_inj {c c' : Case} (h : c.owner.full = c'.owner.full) : c.owner = c'.owner :=
  ClassName.full_inj (ClassName.dot_notMem_simple _) (ClassName.dot_notMem_simple _) h

theorem nodup_full_owners (cs : List Case) : ((owners cs).map ClassName.full).Nodup := by
  refine (nodup_owners cs).map_on fun n hn n' hn' h => ?_
  obtain ⟨c, -, rfl⟩ := mem_owners.mp hn
  obtain ⟨c', -, rfl⟩ := mem_owners.mp hn'
  exact Case.owner_inj h

end Report

open Report (ClassesFit classesFit_iff classesFit_perm duration_eq nodup_full_owners)

namespace Granularity

/-! ## 2. The entity of a case

What a case is called in a granularity depends on its own names only, not on the tree it is in.
-/

def entityKind : Granularity → EntityKind
  | .testClass => .testClass
  | _ => .testCase

theorem entityKind_of_ne {g : Granularity} (hg : g ≠ .testClass) : g.entityKind = .testCase := by
  cases g with
  | testClass => exact absurd rfl hg
  | _ => rfl

/-- What a case adds to the entities of its tree. -/
def entityOf (g : Granularity) (c : Case) : Entity :=
  ⟨g.caseKey ⟨c.owner, []⟩ c, c.duration.toMillis, g.entityKind⟩

theorem kind_entityOf (g : Granularity) (cs : List Case) :
    ∀ e ∈ cs.map g.entityOf, e.kind = g.entityKind := by
  intro e he
  obtain ⟨c, -, rfl⟩ := List.mem_map.mp he
  rfl

/-- The time of the entities with a key is that of the cases with the key, cut off once. -/
theorem ofNat_timeAt_entityOf (g : Granularity) (k : String) (cs : List Case) :
    Millis.ofNat (timeAt k (cs.map g.entityOf))
      = .ofNat (sumOf ((cs.filter fun c => (g.entityOf c).key = k).map (·.duration.val))) := by
  refine Millis.ext ?_
  rw [timeAt, List.filter_map, totalTime, List.map_map]
  exact min_sumOf_map_min (fun c : Case => c.duration.val) Millis.ceiling _

theorem caseKey_classOf (g : Granularity) (cs : List Case) (c : Case) :
    g.caseKey (classOf cs c.owner) c = (g.entityOf c).key := by
  cases g <;> rfl

/-! ## 3. Granularities of cases

The classes of a tree, one after the other, hold the cases of the list in another order, and
gathering does not depend on the order.
-/

/-- The cases of a class are merged as the entities that they stand for. -/
theorem addCases_classOf {g : Granularity} (hg : g ≠ .testClass) (cs : List Case) (n : ClassName)
    (m : EntityMap) : g.addCases m (classOf cs n)
      = ((cs.filter fun c => c.owner = n).map g.entityOf).foldl .merge m := by
  have hkind := entityKind_of_ne hg
  rw [addCases, List.foldl_map]
  refine List.foldl_ext _ _ m fun m c hc => ?_
  have howner : c.owner = n := of_decide_eq_true (List.mem_filter.mp hc).2
  subst howner
  rw [caseKey_classOf, ← hkind]
  rfl

theorem foldlM_addClass {g : Granularity} (hg : g ≠ .testClass) (rs : List ClassResult)
    (m : EntityMap) : rs.foldlM g.addClass m = .ok (rs.foldl g.addCases m) := by
  have hadd : g.addClass = fun m r => .ok (g.addCases m r) := by
    cases g with
    | testClass => exact absurd rfl hg
    | _ => rfl
  rw [hadd]
  exact List.foldlM_pure

/-- **The entities of the classes are those of all cases.** -/
theorem foldl_addCases_owners {g : Granularity} (hg : g ≠ .testClass) (cs : List Case) :
    ((owners cs).map (classOf cs)).foldl g.addCases .empty = .gather (cs.map g.entityOf) := by
  have hperm : ((owners cs).flatMap fun n => cs.filter fun c => c.owner = n).Perm cs :=
    flatMap_filter_perm_self (nodup_owners cs) fun c hc => mem_owners.mpr ⟨c, hc, rfl⟩
  calc ((owners cs).map (classOf cs)).foldl g.addCases .empty
      = (owners cs).foldl
          (fun m n => ((cs.filter fun c => c.owner = n).map g.entityOf).foldl .merge m) .empty := by
        rw [List.foldl_map]
        exact List.foldl_ext _ _ _ fun m n _ => addCases_classOf hg cs n m
    _ = .gather (((owners cs).flatMap fun n => cs.filter fun c => c.owner = n).map g.entityOf) := by
        rw [EntityMap.gather, List.map_flatMap, List.foldl_flatMap]
    _ = .gather (cs.map g.entityOf) :=
        EntityMap.gather_perm (kind_entityOf g _) (hperm.map g.entityOf)

/-! ## 4. Whole classes

Here the classes are put in and not merged, with the exact sum of their cases cut off once.  No two
classes of a tree have one full name, so nothing is replaced; and gathering the cases cuts off the
same sums.
-/

def whole (r : ClassResult) : Entity := ⟨r.className.full, .ofNat r.time, .testClass⟩

/-- Classes are put in one after the other, unless there is one without a time. -/
theorem foldlM_addWhole (rs : List ClassResult) (m : EntityMap) : rs.foldlM addWhole m
    = if ∀ r ∈ rs, r.time / 1000 < Text.wordBound then .ok ((rs.map whole).foldl .put m)
      else .error .overflow := by
  induction rs generalizing m with
  | nil => rfl
  | cons r rs ih =>
    rw [List.foldlM_cons, addWhole, duration_eq]
    by_cases hr : r.time / 1000 < Text.wordBound
    · simp only [List.forall_mem_cons, hr, true_and]
      exact ih _
    · simp only [List.forall_mem_cons, hr, false_and, if_false]
      rfl

/-- The cases with the full name of a class as their key are those of the class. -/
theorem ofNat_timeAt_full (cs : List Case) (c : Case) :
    Millis.ofNat (timeAt c.owner.full (cs.map (entityOf .testClass)))
      = .ofNat (classOf cs c.owner).time := by
  have hfilter : cs.filter (fun c' => (entityOf .testClass c').key = c.owner.full)
      = cs.filter fun c' => c'.owner = c.owner := by
    refine List.filter_congr fun c' _ => decide_eq_decide.mpr ⟨Report.Case.owner_inj, ?_⟩
    exact congrArg ClassName.full
  rw [ofNat_timeAt_entityOf, hfilter]
  rfl

/-- **Putting in whole classes is gathering their cases.** -/
theorem ofList_whole_owners (cs : List Case) :
    EntityMap.ofList (((owners cs).map (classOf cs)).map whole)
      = .gather (cs.map (entityOf .testClass)) := by
  have hnodup : ((((owners cs).map (classOf cs)).map whole).map Entity.key).Nodup := by
    rw [List.map_map, List.map_map]
    exact nodup_full_owners cs
  refine EntityMap.ext_get? fun k => ?_
  rw [EntityMap.get?_gather (kind_entityOf .testClass cs)]
  by_cases hk : k ∈ (cs.map (entityOf .testClass)).map Entity.key
  · rw [if_pos hk]
    obtain ⟨e, he, rfl⟩ := List.mem_map.mp hk
    obtain ⟨c, hc, rfl⟩ := List.mem_map.mp he
    have hwhole : whole (classOf cs c.owner) ∈ ((owners cs).map (classOf cs)).map whole :=
      List.mem_map_of_mem (List.mem_map_of_mem (mem_owners.mpr ⟨c, hc, rfl⟩))
    have htime : Millis.ofNat (timeAt (entityOf .testClass c).key (cs.map (entityOf .testClass)))
        = .ofNat (classOf cs c.owner).time := ofNat_timeAt_full cs c
    rw [htime]
    exact (EntityMap.get?_ofList_eq_some_iff hnodup).mpr ⟨hwhole, rfl⟩
  · rw [if_neg hk]
    refine Option.eq_none_iff_forall_ne_some.mpr fun e he => hk ?_
    obtain ⟨hmem, rfl⟩ := (EntityMap.get?_ofList_eq_some_iff hnodup).mp he
    obtain ⟨r, hr, rfl⟩ := List.mem_map.mp hmem
    obtain ⟨n, hn, rfl⟩ := List.mem_map.mp hr
    obtain ⟨c, hc, rfl⟩ := mem_owners.mp hn
    exact List.mem_map.mpr ⟨entityOf .testClass c, List.mem_map_of_mem hc, rfl⟩

/-! ## 5. Trees

The two ways meet: in every granularity the entities of a tree are the gathered entities of its
cases, unless the times of its classes are asked for and one has no value.
-/

/-- **The entities of a tree are those of its cases, gathered by key.**  There are none if the tree
is to be taken apart by classes and the time of one of them has no value. -/
theorem extract_ofCases (g : Granularity) (name : String) (cs : List Case) :
    g.extract (Tree.ofCases name cs)
      = if g = .testClass ∧ ¬ ClassesFit cs then .error .overflow
        else .ok (.gather (cs.map g.entityOf)) := by
  rw [extract, classes_ofCases]
  by_cases hg : g = .testClass
  · subst hg
    refine (foldlM_addWhole _ _).trans ?_
    simp only [← classesFit_iff, true_and, ite_not]
    rw [← ofList_whole_owners]
    rfl
  · rw [foldlM_addClass hg, foldl_addCases_owners hg, if_neg fun h => hg h.1]

theorem foldl_addCases_eq (g : Granularity) (rs : List ClassResult) (m : EntityMap) :
    rs.foldl g.addCases m = (rs.flatMap fun r => r.cases.map fun c =>
      (⟨g.caseKey r c, c.duration.toMillis, .testCase⟩ : Entity)).foldl .merge m := by
  simp only [List.foldl_flatMap, List.foldl_map]
  rfl

/-- **The entities of any tree**: whole classes are put in, and all cases are gathered. -/
theorem extract_cases {g : Granularity} {t : Tree} {m : EntityMap} (h : g.extract t = .ok m) :
    (g = .testClass ∧ m = .ofList (t.classes.map whole)) ∨
      (g.entityKind = .testCase ∧ m = .gather (t.classes.flatMap fun r =>
        r.cases.map fun c => ⟨g.caseKey r c, c.duration.toMillis, .testCase⟩)) := by
  by_cases hg : g = .testClass
  · subst hg
    have hrun := (foldlM_addWhole t.classes .empty).symm.trans h
    split at hrun
    · exact .inl ⟨rfl, (Except.ok.inj hrun).symm⟩
    · exact nomatch hrun
  · rw [extract, foldlM_addClass hg, foldl_addCases_eq] at h
    exact .inr ⟨entityKind_of_ne hg, (Except.ok.inj h).symm⟩

/-- **A tree with cases has entities**, in every granularity. -/
theorem extract_ne_empty {g : Granularity} {t : Tree} {m : EntityMap} (h : g.extract t = .ok m)
    (hpos : 0 < t.totalCount) : m.isEmpty = false := by
  obtain ⟨c, hc⟩ := List.exists_mem_of_length_pos hpos
  obtain ⟨r, hr, hcr⟩ := List.mem_flatMap.mp hc
  rcases extract_cases h with ⟨-, rfl⟩ | ⟨-, rfl⟩
  · exact EntityMap.isEmpty_foldl EntityMap.isEmpty_put (List.ne_nil_of_mem (List.mem_map_of_mem hr)) _
  · refine EntityMap.isEmpty_foldl EntityMap.isEmpty_merge ?_ _
    exact List.ne_nil_of_mem (List.mem_flatMap.mpr ⟨r, hr, List.mem_map_of_mem hcr⟩)

theorem kind_of_mem_extract {g : Granularity} {t : Tree} {m : EntityMap}
    (h : g.extract t = .ok m) : ∀ e ∈ m.toList, e.kind = g.entityKind := by
  intro e he
  rcases extract_cases h with ⟨rfl, rfl⟩ | ⟨hkind, rfl⟩
  · obtain ⟨r, -, rfl⟩ := List.mem_map.mp (EntityMap.mem_of_mem_ofList he)
    rfl
  · rw [hkind]
    refine EntityMap.kind_of_mem_gather (fun x hx => ?_) e he
    obtain ⟨r, -, hx⟩ := List.mem_flatMap.mp hx
    obtain ⟨c, -, rfl⟩ := List.mem_map.mp hx
    rfl

/-- **The order of the cases does not matter.** -/
theorem extract_perm (g : Granularity) (name name' : String) {cs cs' : List Case}
    (h : cs.Perm cs') :
    g.extract (Tree.ofCases name cs) = g.extract (Tree.ofCases name' cs') := by
  rw [extract_ofCases, extract_ofCases,
    EntityMap.gather_perm (kind_entityOf g cs) (h.map g.entityOf)]
  simp only [classesFit_perm h]

end Granularity

end TestLanes
