import TestLanes.Proofs.Granularity.Extract

/-!
# No time is lost

In every granularity a case is known by its key (`keyOf`), which depends on its two names alone.
The entities of a tree are one for each key of its cases, with the time of all cases that have the
key (`extract_keeps_time`).  No two classes of a tree have the same full name, so where whole
classes are put in, none takes the place of another.

Times are cut off at the ceiling once, however they are added up: the entities together have the
time of all cases, the same in every granularity.
-/

namespace TestLanes

open Report (Case ClassesFit Tree plainName)

def Report.caseTime (cs : List Case) : Nat := sumOf (cs.map fun c => c.duration.val)

open Report (caseTime)

/-! ## 1. Keys

Parameters are what stands in brackets at the end of a name, from its first bracket on.
-/

/-- Only brackets that end a name and begin in it are taken off. -/
theorem stripParameters_eq_self {name : String}
    (h : name.toList.getLast? = some ']' → '[' ∉ name.toList) : stripParameters name = name :=
  if_neg fun hboth => h hboth.1 hboth.2

/-- Everything behind the first bracket is taken off. -/
theorem stripParameters_append {base : String} (parameters : String) (h : '[' ∉ base.toList) :
    stripParameters (base ++ "[" ++ parameters ++ "]") = base := by
  have hlist : (base ++ "[" ++ parameters ++ "]").toList
      = base.toList ++ '[' :: (parameters.toList ++ [']']) := by simp
  have hboth : (base ++ "[" ++ parameters ++ "]").toList.getLast? = some ']' ∧
      '[' ∈ (base ++ "[" ++ parameters ++ "]").toList := by
    rw [hlist]
    refine ⟨?_, List.mem_append_right _ List.mem_cons_self⟩
    rw [← List.cons_append, ← List.append_assoc, List.getLast?_concat]
  rw [stripParameters, if_pos hboth, hlist, List.takeWhile_append_of_pos fun c hc => ?_]
  · simp
  · exact decide_eq_true fun hbracket => h (hbracket ▸ hc)

namespace Granularity

/-- What a case is known by. -/
def keyOf (g : Granularity) (c : Case) : String :=
  match g with
  | .testClass => plainName c.className
  | .testCase => c.name
  | .qualifiedCase | .parameterizedCase => plainName c.className ++ "#" ++ c.name
  | .javaCase => plainName c.className ++ "#" ++ stripParameters c.name

theorem key_entityOf (g : Granularity) (c : Case) : (g.entityOf c).key = g.keyOf c := by
  have hfull : c.owner.full = plainName c.className := Report.ClassName.full_ofString c.className
  cases g <;> simp only [entityOf, caseKey, keyOf, hfull]

theorem mem_keys_iff {g : Granularity} {cs : List Case} {k : String} :
    k ∈ (cs.map g.entityOf).map Entity.key ↔ ∃ c ∈ cs, g.keyOf c = k := by
  simp only [List.map_map, List.mem_map, Function.comp_apply, key_entityOf]

/-! ## 2. Times

The time of a key is a sum over the cases with the key, and the total is a sum over all of them;
both are cut off once.
-/

/-- The entities of some cases have their time, cut off once. -/
theorem val_total_gather_entityOf (g : Granularity) (cs : List Case) :
    (EntityMap.gather (cs.map g.entityOf)).total = .ofNat (caseTime cs) := by
  refine Millis.ext ?_
  rw [EntityMap.val_total_gather, totalTime, List.map_map]
  exact min_sumOf_map_min (fun c : Case => c.duration.val) Millis.ceiling cs

theorem get?_gather_entityOf (g : Granularity) (cs : List Case) (k : String) :
    (EntityMap.gather (cs.map g.entityOf)).get? k
      = if ∃ c ∈ cs, g.keyOf c = k then
          some ⟨k, .ofNat (caseTime (cs.filter fun c => g.keyOf c = k)), g.entityKind⟩
        else none := by
  rw [EntityMap.get?_gather (kind_entityOf g cs), ofNat_timeAt_entityOf]
  simp only [mem_keys_iff, key_entityOf, caseTime]

/-- **No time is lost and none is made up.**  If every class of some cases has a time, their tree
has entities in every granularity.  There is an entity for a key exactly if a case has the key, and
its time is that of all cases with the key, cut off once.  Together the entities have the time of
all cases, cut off once, which does not depend on the granularity. -/
theorem extract_keeps_time {cs : List Case} (h : ClassesFit cs) (g : Granularity) (name : String) :
    ∃ m, g.extract (Tree.ofCases name cs) = .ok m ∧
      (∀ k, m.get? k
        = if ∃ c ∈ cs, g.keyOf c = k then
            some ⟨k, .ofNat (caseTime (cs.filter fun c => g.keyOf c = k)), g.entityKind⟩
          else none) ∧
      m.total = .ofNat (caseTime cs) := by
  refine ⟨.gather (cs.map g.entityOf), ?_, get?_gather_entityOf g cs,
    val_total_gather_entityOf g cs⟩
  rw [extract_ofCases, if_neg fun hover => hover.2 h]

/-- Five cases of two classes, one of which has its name in three spellings and more time than fits
in 64 bits.  The last one has brackets in its name, but not at the end. -/
def longRun : List Case :=
  [{ className := "(root).LoadTest", name := "run[1]", duration := .ofNat (Nat.pow 2 64) },
    { className := "org.LoadTest", name := "run[1]", duration := .ofNat 7 },
    { className := ".LoadTest", name := "run[2]", duration := .ofNat 5 },
    { className := "LoadTest", name := "run[1]", duration := .ofNat 3 },
    { className := "org.LoadTest", name := "run[1].again", duration := .ofNat 2 }]

/-- The three spellings make one entity, and its time is cut off.  Without their parameters the runs
of a class make one entity too, and the last case stays by itself. -/
theorem extract_keeps_time_longRun :
    ClassesFit longRun ∧ longRun.map (keyOf .testClass)
        = ["LoadTest", "org.LoadTest", "LoadTest", "LoadTest", "org.LoadTest"] ∧
      (∃ m, extract .testClass (Tree.ofCases "run" longRun) = .ok m ∧
        (∀ k, m.get? k
          = if ∃ c ∈ longRun, keyOf .testClass c = k then
              some ⟨k, .ofNat (caseTime (longRun.filter fun c => keyOf .testClass c = k)),
                entityKind .testClass⟩
            else none) ∧
        m.total = .ofNat (caseTime longRun)) ∧
      longRun.map (keyOf .javaCase) = ["LoadTest#run", "org.LoadTest#run", "LoadTest#run",
        "LoadTest#run", "org.LoadTest#run[1].again"] ∧
      ∃ m, extract .javaCase (Tree.ofCases "run" longRun) = .ok m ∧
        m.get? "LoadTest#run" = some ⟨"LoadTest#run", .ofNat (Nat.pow 2 64 + 8), .testCase⟩ ∧
        m.get? "org.LoadTest#run" = some ⟨"org.LoadTest#run", .ofNat 7, .testCase⟩ ∧
        m.get? "org.LoadTest#run[1].again"
          = some ⟨"org.LoadTest#run[1].again", .ofNat 2, .testCase⟩ ∧
        m.get? "org.LoadTest#run[1]" = none ∧
        m.total = .ofNat (caseTime longRun) := by
  have hfit : ClassesFit longRun := by decide
  have hone : stripParameters ("run" ++ "[" ++ "1" ++ "]") = "run" :=
    stripParameters_append "1" (by decide)
  have htwo : stripParameters ("run" ++ "[" ++ "2" ++ "]") = "run" :=
    stripParameters_append "2" (by decide)
  have hagain : stripParameters "run[1].again" = "run[1].again" :=
    stripParameters_eq_self (by decide)
  have hkeys : longRun.map (keyOf .javaCase) = ["LoadTest#run", "org.LoadTest#run",
      "LoadTest#run", "LoadTest#run", "org.LoadTest#run[1].again"] := by
    change stripParameters "run[1]" = "run" at hone
    change stripParameters "run[2]" = "run" at htwo
    simp only [longRun, List.map_cons, List.map_nil, keyOf, hone, htwo, hagain]
    decide
  refine ⟨hfit, by decide, extract_keeps_time hfit .testClass "run", hkeys, ?_⟩
  obtain ⟨m, hm, hget, htotal⟩ := extract_keeps_time hfit .javaCase "run"
  refine ⟨m, hm, ?_, ?_, ?_, ?_, htotal⟩
  · rw [hget]
    decide
  · rw [hget]
    decide
  · rw [hget]
    decide
  · rw [hget]
    decide

end Granularity

end TestLanes
