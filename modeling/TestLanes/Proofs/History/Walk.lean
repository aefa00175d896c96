import TestLanes.History.Locator
import TestLanes.Proofs.Steps

/-!
# What a search looks at

A search is specified by a list of builds, `Archive.walks`: the first builds of the chain behind the
current build, and then for each finder the first builds of the chain that it names.  The search
looks at these builds in order until the first usable one (`value_locate`), whatever the chains are
like; they may have no end, or go round in a circle.  What it finds and what it loads are read off
the list (`found_scan`, `loaded_scan`).
-/

namespace TestLanes

open Logged (value_bind)

namespace History

variable {B : Type}

/-! ## 1. Searches in a row

`orElse` is `orContinue` without the lines, as an operation on two finished searches.  It is
associative, which is what lets the walks of a search be put into one list.
-/

namespace Search

/-- Two searches in a row, the second one only if the first finds nothing. -/
def orElse (s s' : Search B) : Search B :=
  if s.found.isSome then s else ⟨s'.found, s.loaded ++ s'.loaded⟩

theorem orElse_assoc (s t u : Search B) : (s.orElse t).orElse u = s.orElse (t.orElse u) := by
  unfold orElse
  by_cases hs : s.found.isSome
  · simp [hs]
  · by_cases ht : t.found.isSome <;> simp [hs, ht, List.append_assoc]

theorem value_orContinue (s : Search B) (next : Unit → Logged (Search B)) :
    (s.orContinue next).value = s.orElse (next ()).value := by
  unfold orContinue orElse
  split <;> rfl

end Search

namespace Archive

variable (a : Archive B)

/-! ## 2. The builds to look at

`chain` follows a build back without looking at any, as far as the depth allows; it is defined for
every archive, since the depth bounds it.  A build is eligible if its results are asked for at all,
and usable if it has some.
-/

/-- The first `depth` builds of a chain. -/
def chain : Nat → Option B → List B
  | 0, _ | _, none => []
  | depth + 1, some b => b :: chain depth (a.previous b).value

/-- The builds of all walks, one walk after the other. -/
def walks (depth : Nat) (finders : List (Finder B)) (current : B) : List B :=
  a.chain depth (a.previous current).value
    ++ finders.flatMap fun f => a.chain depth (f.find current).value

/-- Whether the results of a build are asked for: it is finished, and ended well. -/
def isEligible (b : B) : Bool := !a.isBuilding b && (a.status b).isAccepted

def results? (b : B) : Option Report.Tree :=
  match (a.load b).value with
  | .ok (some tree) => if 0 < tree.totalCount then some tree else none
  | _ => none

def usable? (b : B) : Option Report.Tree := if a.isEligible b then a.results? b else none

theorem length_chain_le (depth : Nat) (start : Option B) :
    (a.chain depth start).length ≤ depth := by
  induction depth generalizing start with
  | zero => exact Nat.le_of_eq (by rw [chain]; rfl)
  | succ depth ih =>
    cases start with
    | none => exact Nat.zero_le _
    | some b => exact Nat.succ_le_succ (ih _)

theorem length_walks_le (depth : Nat) (finders : List (Finder B)) (current : B) :
    (a.walks depth finders current).length ≤ (1 + finders.length) * depth := by
  have hfinders : (finders.flatMap fun f => a.chain depth (f.find current).value).length
      ≤ finders.length * depth := by
    induction finders with
    | nil => exact Nat.zero_le _
    | cons f fs ih =>
      have hf := a.length_chain_le depth (f.find current).value
      rw [List.flatMap_cons, List.length_append, List.length_cons, Nat.succ_mul]
      omega
  have hfirst := a.length_chain_le depth (a.previous current).value
  rw [walks, List.length_append, Nat.add_mul, Nat.one_mul]
  exact Nat.add_le_add hfirst hfinders

/-! ## 3. Looking at builds one after the other

`scan` is the specification: it recurses on the list of builds, with no depth and no finders.  Each
function of the search is shown to be a scan of its own list, from the inside to the outside; for
the walk the induction is on the depth, and for the finders on their list.
-/

/-- The outcome of looking at the builds until one has usable results. -/
def scan : List B → Search B
  | [] => {}
  | b :: bs => (a.inspect b).value.orElse (scan bs)

theorem scan_append (bs bs' : List B) :
    a.scan (bs ++ bs') = (a.scan bs).orElse (a.scan bs') := by
  induction bs with
  | nil => rfl
  | cons b bs ih => rw [List.cons_append, scan, scan, ih, Search.orElse_assoc]

theorem value_loadOnRecord (b : B) : (a.loadOnRecord b).value = ((a.load b).value, [b]) := rfl

/-- Asking for results puts the build on record, and what there is of them is taken. -/
theorem value_loadUsable (b : B) :
    (a.loadUsable b).value = ⟨(a.results? b).map (Located.mk b), [b]⟩ := by
  unfold loadUsable results?
  rw [value_bind, value_loadOnRecord]
  cases (a.load b).value with
  | error e => rfl
  | ok results =>
    cases results with
    | none => rfl
    | some tree =>
      by_cases h : 0 < tree.totalCount
      · simp only [if_pos h]
        rfl
      · simp only [if_neg h]
        rfl

/-- **One build.**  It is loaded if it is eligible, and found if it is usable. -/
theorem value_inspect (b : B) : (a.inspect b).value
    = ⟨(a.usable? b).map (Located.mk b), if a.isEligible b then [b] else []⟩ := by
  unfold inspect usable? isEligible
  cases hbuilding : a.isBuilding b with
  | true => rfl
  | false =>
    cases hstatus : (a.status b).isAccepted with
    | false => rfl
    | true =>
      simp only [Bool.false_eq_true, if_false, Bool.not_true, Bool.not_false, Bool.and_self,
        if_true]
      exact a.value_loadUsable b

/-- A walk looks at the builds of its chain. -/
theorem value_walk (depth : Nat) (start : Option B) :
    (a.walk depth start).value = a.scan (a.chain depth start) := by
  induction depth generalizing start with
  | zero => rw [walk, chain]; rfl
  | succ depth ih =>
    cases start with
    | none => rfl
    | some b =>
      rw [walk, chain, scan, ← ih, value_bind, Search.value_orContinue]
      rfl

/-- The walks of the finders look at their chains in turn. -/
theorem value_walkFinders (depth : Nat) (current : B) (finders : List (Finder B)) :
    (a.walkFinders depth current finders).value
      = a.scan (finders.flatMap fun f => a.chain depth (f.find current).value) := by
  induction finders with
  | nil => rfl
  | cons f fs ih =>
    rw [walkFinders, List.flatMap_cons, value_bind]
    cases (f.find current).value with
    | none => cases depth <;> exact ih
    | some start =>
      rw [scan_append, ← value_walk, ← ih, value_bind, value_bind, Search.value_orContinue]

/-- **A search looks at the builds of its walks.** -/
theorem value_locate (depth : Nat) (finders : List (Finder B)) (current : B) :
    (a.locate depth finders current).value = a.scan (a.walks depth finders current) := by
  rw [locate, walks, scan_append, ← value_walk, ← value_walkFinders, value_bind, value_bind,
    Search.value_orContinue]

/-! ## 4. What is found and what is loaded

Both are read off the list by induction: the scan stops at the first usable build, which is loaded
as well, and in front of it loads those that are eligible.
-/

/-- The first usable build is found, with its results. -/
theorem found_scan (bs : List B) :
    (a.scan bs).found = bs.findSome? fun b => (a.usable? b).map (Located.mk b) := by
  induction bs with
  | nil => rfl
  | cons b bs ih =>
    rw [scan, Search.orElse, value_inspect, List.findSome?_cons, ← ih]
    cases a.usable? b <;> rfl

/-- The eligible builds up to the first usable one are loaded. -/
theorem loaded_scan (bs : List B) : (a.scan bs).loaded
    = (bs.take (bs.findIdx (fun b => (a.usable? b).isSome) + 1)).filter a.isEligible := by
  induction bs with
  | nil => rfl
  | cons b bs ih =>
    rw [scan, Search.orElse, value_inspect, List.findIdx_cons, List.take_succ_cons, List.filter_cons]
    cases hb : a.usable? b with
    | none =>
      simp only [Option.map_none, Option.isSome_none, Bool.false_eq_true, if_false, cond_false, ih]
      cases a.isEligible b <;> rfl
    | some tree =>
      simp only [Option.map_some, Option.isSome_some, if_true, cond_true]
      rfl

theorem totalCount_pos_of_found {depth : Nat} {finders : List (Finder B)} {current : B}
    {located : Located B} (h : (a.locate depth finders current).value.found = some located) :
    0 < located.tree.totalCount := by
  rw [value_locate, found_scan] at h
  obtain ⟨b, -, hb⟩ := List.exists_of_findSome?_eq_some h
  obtain ⟨tree, htree, rfl⟩ := Option.map_eq_some_iff.mp hb
  unfold usable? results? at htree
  split at htree
  · split at htree
    · split at htree
      · rename_i hpos
        exact Option.some.inj htree ▸ hpos
      · exact absurd htree (fun h => nomatch h)
    · exact absurd htree (fun h => nomatch h)
  · exact absurd htree (fun h => nomatch h)

/-- Narrowing gives the part of the tree in the step with the label, if the build has such a step,
and else the tree as it is. -/
theorem value_narrow (located : Located B) (stage : String) : (a.narrow located stage).value
    = match (a.graph located.build).value.bind fun graph => graph.findLabeled stage with
      | some node => { located with tree := located.tree.forBlock node.id }
      | none => located := by
  unfold narrow
  rw [value_bind]
  cases (a.graph located.build).value with
  | none => rfl
  | some graph =>
    rw [Option.bind_some]
    cases hnode : graph.findLabeled stage <;> simp only [hnode] <;> rfl

/-- **What a search does.**  The builds of the walks stand in one list.  The first of them that is
finished, ended well and has results is found, with these results.  The search looks at the builds
up to that one, at all if there is none, so at no more than `depth` for each walk; and it loads
those that are finished and ended well, each in its turn. -/
theorem locate_eq_first_usable (depth : Nat) (finders : List (Finder B)) (current : B) :
    let builds := a.walks depth finders current
    let seen := builds.take (builds.findIdx (fun b => (a.usable? b).isSome) + 1)
    (a.locate depth finders current).value.found
        = builds.findSome? (fun b => (a.usable? b).map (Located.mk b)) ∧
      (a.locate depth finders current).value.loaded = seen.filter a.isEligible ∧
      seen.length ≤ (1 + finders.length) * depth := by
  intro builds seen
  have hseen : seen.length ≤ builds.length := by
    rw [List.length_take]
    exact Nat.min_le_right _ _
  refine ⟨?_, ?_, Nat.le_trans hseen (a.length_walks_le depth finders current)⟩
  · rw [value_locate, found_scan]
  · rw [value_locate, loaded_scan]

end Archive

end History

end TestLanes
