/-!
# Pipeline graphs

The steps of a build; each one names the steps that ran directly before it.  `findLabeled` searches
backwards from the steps that nothing ran after, depth first and entering each id once.

What is recorded need not fit together.  Two steps may have one id, and then the first of them
stands for both (`Graph.IsFirst`); a step may name parents that are not there, and these are passed
over; and steps may name each other in a circle.  The search ends all the same, since each id is
taken from the fresh ones when it is entered (`length_others_lt`).
-/

namespace TestLanes.Pipeline

/-- A step of a pipeline. -/
structure Node where
  id : String
  label : Option String := none
  parents : List String := []
deriving Repr, DecidableEq

/-- The steps of a build in the order in which they were recorded. -/
structure Graph where
  nodes : List Node := []
deriving Repr, DecidableEq

namespace Graph

/-! ## 1. Looking up steps

A lookup takes the first step with an id.  Heads and parents are known by their members: a head is a
step whose id nobody names, a parent is the first step with an id that is named.
-/

def get? (g : Graph) (id : String) : Option Node := g.nodes.find? (·.id = id)

/-- The steps that no step names as its parent. -/
def heads (g : Graph) : List Node :=
  g.nodes.filter fun n => !g.nodes.any fun m => m.parents.contains n.id

def parentsOf (g : Graph) (n : Node) : List Node := n.parents.filterMap g.get?

/-- The step is in the graph, and none before it has its id. -/
def IsFirst (g : Graph) (n : Node) : Prop :=
  ∃ before after, g.nodes = before ++ n :: after ∧ ∀ m ∈ before, m.id ≠ n.id

theorem get?_eq_some_iff {g : Graph} {id : String} {n : Node} :
    g.get? id = some n ↔ n.id = id ∧ g.IsFirst n := by
  rw [get?, List.find?_eq_some_iff_append]
  constructor
  · rintro ⟨hid, before, after, hnodes, hbefore⟩
    obtain rfl := of_decide_eq_true hid
    exact ⟨rfl, before, after, hnodes, fun m hm => by simpa using hbefore m hm⟩
  · rintro ⟨rfl, before, after, hnodes, hbefore⟩
    exact ⟨decide_eq_true rfl, before, after, hnodes, fun m hm => by simpa using hbefore m hm⟩

theorem get?_isSome_iff {g : Graph} {id : String} :
    (g.get? id).isSome ↔ id ∈ g.nodes.map Node.id := by
  simp [get?, List.find?_isSome]

theorem mem_heads {g : Graph} {n : Node} :
    n ∈ g.heads ↔ n ∈ g.nodes ∧ ∀ m ∈ g.nodes, n.id ∉ m.parents := by
  simp [heads]

theorem mem_parentsOf {g : Graph} {n m : Node} :
    m ∈ g.parentsOf n ↔ m.id ∈ n.parents ∧ g.IsFirst m := by
  rw [parentsOf, List.mem_filterMap]
  constructor
  · rintro ⟨id, hid, hget⟩
    obtain ⟨rfl, hfirst⟩ := get?_eq_some_iff.mp hget
    exact ⟨hid, hfirst⟩
  · exact fun ⟨hid, hfirst⟩ => ⟨m.id, hid, get?_eq_some_iff.mpr ⟨rfl, hfirst⟩⟩

/-- The parents stand in the order in which they are named, without those that are not there. -/
theorem map_id_parentsOf (g : Graph) (n : Node) :
    (g.parentsOf n).map Node.id = n.parents.filter (· ∈ g.nodes.map Node.id) := by
  rw [parentsOf]
  induction n.parents with
  | nil => rfl
  | cons id ids ih =>
    cases hget : g.get? id with
    | none =>
      have hmissing : id ∉ g.nodes.map Node.id := fun h => by simpa [hget] using get?_isSome_iff.mpr h
      rw [List.filterMap_cons_none hget, ih, List.filter_cons_of_neg (by simpa using hmissing)]
    | some m =>
      obtain rfl := (get?_eq_some_iff.mp hget).1
      have hlisted : m.id ∈ g.nodes.map Node.id := get?_isSome_iff.mp (by rw [hget]; rfl)
      rw [List.filterMap_cons_some hget, List.map_cons, ih,
        List.filter_cons_of_pos (by simpa using hlisted)]

/-! ## 2. The search

A step is entered if its id is still fresh, and then its id is fresh no more; its parents are put in
front of what is pending, which makes the search go deep before it goes wide.  Each call lowers the
number of fresh steps, or keeps it and lowers the number of pending ones.
-/

def others (id : String) (nodes : List Node) : List Node := nodes.filter (·.id ≠ id)

theorem length_others_lt {id : String} {nodes : List Node}
    (h : nodes.any (·.id = id) = true) : (others id nodes).length < nodes.length := by
  obtain ⟨m, hm, hid⟩ := List.any_eq_true.1 h
  refine Nat.lt_of_le_of_ne (List.length_filter_le _ _) fun heq => ?_
  have := List.length_filter_eq_length_iff.1 heq m hm
  simp_all

/-- Searches through `pending` and what leads to it.  Only ids among those of `fresh` have not been
entered yet. -/
def search (g : Graph) (label : String) (fresh pending : List Node) : Option Node :=
  match pending with
  | [] => none
  | n :: rest =>
    if fresh.any (·.id = n.id) then
      if n.label = some label then some n
      else search g label (others n.id fresh) (g.parentsOf n ++ rest)
    else search g label fresh rest
termination_by (fresh.length, pending.length)
decreasing_by
  · exact Prod.Lex.left _ _ (length_others_lt (by assumption))
  · exact Prod.Lex.right _ (by simp)

/-- The first step with the label on the way back from the heads. -/
def findLabeled (g : Graph) (label : String) : Option Node :=
  g.search label g.nodes g.heads

end Graph

end TestLanes.Pipeline
