import Mathlib.Data.List.Nodup
import TestLanes.Pipeline.Graph

/-!
# The search is depth first

`search` keeps one list of what it has yet to look at; parents go to its front, so a step can wait
there several times and is looked at only the first time.  `DepthFirst` is the recursive search that
is meant: a list of steps is searched one by one, and under each step its parents, before the next
one.

The recursive search comes to an end (`exists_depthFirst`) in one way only (`DepthFirst.unique`),
and what waits after a list does not matter until the search of the list is over
(`DepthFirst.search_append`).  So the two find the same step.  What is found and what is not follows
by induction on the rules: whatever is entered can be reached, and if nothing is found, then what is
entered is closed under parents (`DepthFirst.closed`).
-/

namespace TestLanes.Pipeline.Graph

variable {g : Graph} {label : String}

/-! ## 1. The recursive search

The search is a relation with a rule for each thing that can happen to the first step of a list;
there are two rules for a step that is entered, by whether something is found under it.  What holds
of all searches is shown by induction on these rules: that the steps entered stay, that no id is
entered twice, that a find has the label.
-/

/-- The ids of some steps. -/
def ids (nodes : List Node) : List String := nodes.map Node.id

/-- The recursive search through a list of steps.  It starts with some steps entered, the last one
first; it ends with more of them, and perhaps with the step that it looked for. -/
inductive DepthFirst (g : Graph) (label : String) :
    List Node → List Node → List Node → Option Node → Prop
  /-- There is no step left to look at. -/
  | done {entered : List Node} : DepthFirst g label entered [] entered none
  /-- A step with an id that has been entered is passed over. -/
  | skip {entered entered' rest : List Node} {n : Node} {found : Option Node}
      (hid : n.id ∈ ids entered) (hrest : DepthFirst g label entered rest entered' found) :
      DepthFirst g label entered (n :: rest) entered' found
  /-- A step with the label ends the search. -/
  | found {entered rest : List Node} {n : Node} (hid : n.id ∉ ids entered)
      (hlabel : n.label = some label) :
      DepthFirst g label entered (n :: rest) (n :: entered) (some n)
  /-- What is found under a step ends the search. -/
  | under {entered entered' rest : List Node} {n m : Node} (hid : n.id ∉ ids entered)
      (hlabel : n.label ≠ some label)
      (hunder : DepthFirst g label (n :: entered) (g.parentsOf n) entered' (some m)) :
      DepthFirst g label entered (n :: rest) entered' (some m)
  /-- If nothing is found under a step, the search goes on beside it. -/
  | beside {entered entered' entered'' rest : List Node} {n : Node} {found : Option Node}
      (hid : n.id ∉ ids entered) (hlabel : n.label ≠ some label)
      (hunder : DepthFirst g label (n :: entered) (g.parentsOf n) entered' none)
      (hrest : DepthFirst g label entered' rest entered'' found) :
      DepthFirst g label entered (n :: rest) entered'' found

/-- The recursive search goes one way only. -/
theorem DepthFirst.unique {entered ns e₁ e₂ : List Node} {f₁ f₂ : Option Node}
    (h₁ : DepthFirst g label entered ns e₁ f₁) (h₂ : DepthFirst g label entered ns e₂ f₂) :
    e₁ = e₂ ∧ f₁ = f₂ := by
  induction h₁ generalizing e₂ f₂ with
  | done =>
    cases h₂
    exact ⟨rfl, rfl⟩
  | skip hid _ ih =>
    cases h₂ with
    | skip _ hrest => exact ih hrest
    | found hnew => exact absurd hid hnew
    | under hnew => exact absurd hid hnew
    | beside hnew => exact absurd hid hnew
  | found hnew hlabel =>
    cases h₂ with
    | skip hid => exact absurd hid hnew
    | found => exact ⟨rfl, rfl⟩
    | under _ hother => exact absurd hlabel hother
    | beside _ hother => exact absurd hlabel hother
  | under hnew hother _ ih =>
    cases h₂ with
    | skip hid => exact absurd hid hnew
    | found _ hlabel => exact absurd hlabel hother
    | under _ _ hunder => exact ih hunder
    | beside _ _ hunder => exact nomatch (ih hunder).2
  | beside hnew hother _ _ ihunder ihrest =>
    cases h₂ with
    | skip hid => exact absurd hid hnew
    | found _ hlabel => exact absurd hlabel hother
    | under _ _ hunder => exact nomatch (ihunder hunder).2
    | beside _ _ hunder hrest =>
      obtain ⟨rfl, -⟩ := ihunder hunder
      exact ihrest hrest

/-- Steps that have been entered stay so. -/
theorem DepthFirst.suffix {entered ns entered' : List Node} {found : Option Node}
    (h : DepthFirst g label entered ns entered' found) : entered <:+ entered' := by
  induction h with
  | done => exact List.suffix_refl _
  | skip _ _ ih => exact ih
  | found => exact List.suffix_cons _ _
  | under _ _ _ ih => exact (List.suffix_cons _ _).trans ih
  | beside _ _ _ _ ihunder ihrest => exact (List.suffix_cons _ _).trans (ihunder.trans ihrest)

theorem DepthFirst.ids_subset {entered ns entered' : List Node} {found : Option Node}
    (h : DepthFirst g label entered ns entered' found) : ids entered ⊆ ids entered' :=
  List.map_subset Node.id h.suffix.subset

/-- **Each id is entered at most once.** -/
theorem DepthFirst.nodup {entered ns entered' : List Node} {found : Option Node}
    (h : DepthFirst g label entered ns entered' found) (hdistinct : (ids entered).Nodup) :
    (ids entered').Nodup := by
  induction h with
  | done => exact hdistinct
  | skip _ _ ih => exact ih hdistinct
  | found hid => exact List.nodup_cons.mpr ⟨hid, hdistinct⟩
  | under hid _ _ ih => exact ih (List.nodup_cons.mpr ⟨hid, hdistinct⟩)
  | beside hid _ _ _ ihunder ihrest => exact ihrest (ihunder (List.nodup_cons.mpr ⟨hid, hdistinct⟩))

/-- What is found has the label and was entered last. -/
theorem DepthFirst.of_some {entered ns entered' : List Node} {n : Node}
    (h : DepthFirst g label entered ns entered' (some n)) :
    n.label = some label ∧ entered'.head? = some n := by
  generalize hfound : some n = found at h
  induction h with
  | done => exact nomatch hfound
  | skip _ _ ih => exact ih hfound
  | found _ hlabel =>
    cases hfound
    exact ⟨hlabel, rfl⟩
  | under _ _ _ ih => exact ih hfound
  | beside _ _ _ _ _ ih => exact ih hfound

/-! ## 2. The two searches

`search` does not keep what it has entered but the steps it may still enter, those whose id is new
(`unseen`).  One lemma for each way of its loop says what the loop does where the rules speak of
entered steps; the induction on the rules then compares the searches, for any list that is pending
behind.

There is a search of every list by a descent on two numbers: under a step fewer ids are left to
enter, and beside it the list is shorter, with no more ids left than before.
-/

/-- The steps of the graph with ids that have not been entered. -/
def unseen (g : Graph) (entered : List Node) : List Node :=
  g.nodes.filter fun n => n.id ∉ ids entered

theorem unseen_nil (g : Graph) : g.unseen [] = g.nodes :=
  List.filter_eq_self.mpr fun _ _ => decide_eq_true List.not_mem_nil

/-- To enter a step leaves the other ones. -/
theorem others_unseen (n : Node) (entered : List Node) :
    others n.id (g.unseen entered) = g.unseen (n :: entered) := by
  rw [others, unseen, unseen, List.filter_filter]
  refine List.filter_congr fun m _ => ?_
  simp [ids, not_or]

theorem any_unseen {n : Node} (hn : n ∈ g.nodes) {entered : List Node} :
    (g.unseen entered).any (·.id = n.id) = true ↔ n.id ∉ ids entered := by
  rw [List.any_eq_true]
  constructor
  · rintro ⟨m, hm, hid⟩
    exact of_decide_eq_true hid ▸ of_decide_eq_true (List.mem_filter.mp hm).2
  · exact fun hid => ⟨n, List.mem_filter.mpr ⟨hn, decide_eq_true hid⟩, decide_eq_true rfl⟩

theorem length_unseen_le {entered entered' : List Node} (h : ids entered ⊆ ids entered') :
    (g.unseen entered').length ≤ (g.unseen entered).length := by
  refine (List.monotone_filter_right g.nodes fun n hn => ?_).length_le
  exact decide_eq_true fun hid => of_decide_eq_true hn (h hid)

theorem length_unseen_cons_lt {n : Node} (hn : n ∈ g.nodes) {entered : List Node}
    (hid : n.id ∉ ids entered) : (g.unseen (n :: entered)).length < (g.unseen entered).length :=
  others_unseen n entered ▸ length_others_lt ((any_unseen hn).mpr hid)

theorem heads_subset (g : Graph) : g.heads ⊆ g.nodes := fun _ hn => (mem_heads.mp hn).1

theorem parentsOf_subset (g : Graph) (n : Node) : g.parentsOf n ⊆ g.nodes := by
  intro m hm
  obtain ⟨before, after, hnodes, -⟩ := (mem_parentsOf.mp hm).2
  rw [hnodes]
  exact List.mem_append_cons_self

section Steps

variable {entered : List Node} {n : Node} (rest : List Node)

theorem search_skip (hn : n ∈ g.nodes) (hid : n.id ∈ ids entered) :
    g.search label (g.unseen entered) (n :: rest) = g.search label (g.unseen entered) rest := by
  rw [search, if_neg fun hfresh => (any_unseen hn).mp hfresh hid]

theorem search_found (hn : n ∈ g.nodes) (hid : n.id ∉ ids entered) (hlabel : n.label = some label) :
    g.search label (g.unseen entered) (n :: rest) = some n := by
  rw [search, if_pos ((any_unseen hn).mpr hid), if_pos hlabel]

theorem search_enter (hn : n ∈ g.nodes) (hid : n.id ∉ ids entered) (hlabel : n.label ≠ some label) :
    g.search label (g.unseen entered) (n :: rest)
      = g.search label (g.unseen (n :: entered)) (g.parentsOf n ++ rest) := by
  rw [search, if_pos ((any_unseen hn).mpr hid), if_neg hlabel, others_unseen]

end Steps

/-- **The search follows the recursive one** through the front of what is pending, and goes on with
the rest if nothing was found there. -/
theorem DepthFirst.search_append {entered ns entered' : List Node} {found : Option Node}
    (h : DepthFirst g label entered ns entered' found) (hns : ns ⊆ g.nodes) (later : List Node) :
    g.search label (g.unseen entered) (ns ++ later)
      = found.or (g.search label (g.unseen entered') later) := by
  induction h generalizing later with
  | done => rfl
  | skip hid _ ih =>
    obtain ⟨hn, hrest⟩ := List.cons_subset.mp hns
    rw [List.cons_append, search_skip _ hn hid, ih hrest]
  | found hid hlabel =>
    rw [List.cons_append, search_found _ (List.cons_subset.mp hns).1 hid hlabel, Option.some_or]
  | under hid hlabel _ ih =>
    rw [List.cons_append, search_enter _ (List.cons_subset.mp hns).1 hid hlabel,
      ih (g.parentsOf_subset _), Option.some_or, Option.some_or]
  | beside hid hlabel _ _ ihunder ihrest =>
    obtain ⟨hn, hrest⟩ := List.cons_subset.mp hns
    rw [List.cons_append, search_enter _ hn hid hlabel, ihunder (g.parentsOf_subset _),
      Option.none_or, ihrest hrest]

/-- **The recursive search comes to an end.**  Either fewer ids are left under a step, or fewer
steps beside it. -/
theorem exists_depthFirst (g : Graph) (label : String) (entered ns : List Node)
    (hns : ns ⊆ g.nodes) : ∃ entered' found, DepthFirst g label entered ns entered' found := by
  match ns with
  | [] => exact ⟨entered, none, .done⟩
  | n :: rest =>
    obtain ⟨hn, hrest⟩ := List.cons_subset.mp hns
    by_cases hid : n.id ∈ ids entered
    · obtain ⟨entered', found, h⟩ := exists_depthFirst g label entered rest hrest
      exact ⟨entered', found, .skip hid h⟩
    by_cases hlabel : n.label = some label
    · exact ⟨n :: entered, some n, .found hid hlabel⟩
    have hless := length_unseen_cons_lt hn hid
    obtain ⟨entered', found, hunder⟩ :=
      exists_depthFirst g label (n :: entered) (g.parentsOf n) (g.parentsOf_subset n)
    cases found with
    | some m => exact ⟨entered', some m, .under hid hlabel hunder⟩
    | none =>
      have hgrows := length_unseen_le (g := g) hunder.ids_subset
      obtain ⟨entered'', found, h⟩ := exists_depthFirst g label entered' rest hrest
      exact ⟨entered'', found, .beside hid hlabel hunder h⟩
termination_by ((g.unseen entered).length, ns.length)

/-! ## 3. What can be reached

Soundness is an induction on the rules.  Completeness is one on the way to a step: the heads were
all looked at, and the parents of each step that was entered as well.  To look at a step is to see
its id, so that only with distinct ids it is the step itself that has been entered.
-/

/-- A step can be reached from a head by way of parents. -/
inductive Reaches (g : Graph) : Node → Prop
  | head {n : Node} (hn : n ∈ g.heads) : Reaches g n
  | parent {n m : Node} (hn : Reaches g n) (hm : m ∈ g.parentsOf n) : Reaches g m

theorem Reaches.mem_nodes {n : Node} (h : g.Reaches n) : n ∈ g.nodes := by
  cases h with
  | head hn => exact g.heads_subset hn
  | @parent n _ _ hm => exact g.parentsOf_subset n hm

/-- What is entered can be reached. -/
theorem DepthFirst.reaches {entered ns entered' : List Node} {found : Option Node}
    (h : DepthFirst g label entered ns entered' found) (hentered : ∀ n ∈ entered, g.Reaches n)
    (hns : ∀ n ∈ ns, g.Reaches n) : ∀ n ∈ entered', g.Reaches n := by
  induction h with
  | done => exact hentered
  | skip _ _ ih => exact ih hentered (List.forall_mem_cons.mp hns).2
  | found => exact List.forall_mem_cons.mpr ⟨(List.forall_mem_cons.mp hns).1, hentered⟩
  | under _ _ _ ih =>
    have hn := (List.forall_mem_cons.mp hns).1
    exact ih (List.forall_mem_cons.mpr ⟨hn, hentered⟩) fun _ hm => .parent hn hm
  | beside _ _ _ _ ihunder ihrest =>
    obtain ⟨hn, hrest⟩ := List.forall_mem_cons.mp hns
    exact ihrest (ihunder (List.forall_mem_cons.mpr ⟨hn, hentered⟩) fun _ hm => .parent hn hm) hrest

/-- **A search without a find leaves nothing out**: the ids of what it looked at are entered, and so
are those of the parents of each step that it entered, none of which has the label. -/
theorem DepthFirst.closed {entered ns entered' : List Node}
    (h : DepthFirst g label entered ns entered' none) :
    (∀ n ∈ ns, n.id ∈ ids entered') ∧ ∀ n ∈ entered', n ∈ entered ∨
      n.label ≠ some label ∧ ∀ m ∈ g.parentsOf n, m.id ∈ ids entered' := by
  generalize hnone : none = found at h
  induction h with
  | done => exact ⟨fun _ hn => absurd hn List.not_mem_nil, fun _ hn => .inl hn⟩
  | skip hid hrest ih =>
    obtain ⟨hin, hclosed⟩ := ih hnone
    exact ⟨List.forall_mem_cons.mpr ⟨hrest.ids_subset hid, hin⟩, hclosed⟩
  | found => exact nomatch hnone
  | under => exact nomatch hnone
  | @beside entered entered' entered'' rest n found _ hlabel hunder hrest ihunder ihrest =>
    obtain ⟨hparents, hclosed⟩ := ihunder rfl
    obtain ⟨hin, hclosed'⟩ := ihrest hnone
    have hgrows : ids entered' ⊆ ids entered'' := hrest.ids_subset
    have hn : n ∈ entered' := hunder.suffix.subset List.mem_cons_self
    refine ⟨List.forall_mem_cons.mpr ⟨hgrows (List.mem_map_of_mem hn), hin⟩, fun m hm => ?_⟩
    rcases hclosed' m hm with hm | hm
    · rcases hclosed m hm with hm | ⟨hother, hall⟩
      · rcases List.mem_cons.mp hm with rfl | hm
        · exact .inr ⟨hlabel, fun q hq => hgrows (hparents q hq)⟩
        · exact .inl hm
      · exact .inr ⟨hother, fun q hq => hgrows (hall q hq)⟩
    · exact .inr hm

/-- If ids are distinct, a search without a find enters all that can be reached. -/
theorem DepthFirst.mem_of_reaches {entered' : List Node}
    (h : DepthFirst g label [] g.heads entered' none) (hdistinct : (ids g.nodes).Nodup) {n : Node}
    (hn : g.Reaches n) : n ∈ entered' := by
  obtain ⟨hin, hclosed⟩ := h.closed
  have hsound : ∀ m ∈ entered', g.Reaches m :=
    h.reaches (fun _ hm => absurd hm List.not_mem_nil) fun _ hm => .head hm
  -- the step that was entered with an id is the one that has it
  have hmem : ∀ m ∈ g.nodes, m.id ∈ ids entered' → m ∈ entered' := by
    intro m hm hid
    obtain ⟨m', hm', heq⟩ := List.mem_map.mp hid
    exact List.inj_on_of_nodup_map hdistinct (hsound m' hm').mem_nodes hm heq ▸ hm'
  induction hn with
  | head hn => exact hmem _ (g.heads_subset hn) (hin _ hn)
  | @parent n m _ hm ih =>
    have hall := ((hclosed n ih).resolve_left List.not_mem_nil).2
    exact hmem m (g.parentsOf_subset n hm) (hall m hm)

/-! ## 4. The search from the heads

`findLabeled` starts with nothing entered and the heads pending.  With nothing pending behind them,
it finds what the recursive search finds.
-/

/-- What is found from the heads is what the recursive search finds. -/
theorem exists_depthFirst_findLabeled (g : Graph) (label : String) :
    ∃ entered, DepthFirst g label [] g.heads entered (g.findLabeled label) := by
  obtain ⟨entered, found, h⟩ := exists_depthFirst g label [] g.heads g.heads_subset
  have hsearch := h.search_append g.heads_subset []
  rw [List.append_nil, unseen_nil, search, Option.or_none] at hsearch
  refine ⟨entered, ?_⟩
  rwa [findLabeled, hsearch]

/-- A step that is found has the label and can be reached. -/
theorem reaches_of_findLabeled {n : Node} (h : g.findLabeled label = some n) :
    n.label = some label ∧ g.Reaches n := by
  obtain ⟨entered, hsearch⟩ := exists_depthFirst_findLabeled g label
  rw [h] at hsearch
  obtain ⟨hlabel, hlast⟩ := hsearch.of_some
  have hreaches := hsearch.reaches (fun _ hm => absurd hm List.not_mem_nil) fun _ hm => .head hm
  exact ⟨hlabel, hreaches n (List.mem_of_mem_head? hlast)⟩

/-- If ids are distinct and nothing is found, no step that can be reached has the label. -/
theorem label_ne_of_findLabeled_eq_none (hdistinct : (ids g.nodes).Nodup)
    (h : g.findLabeled label = none) {n : Node} (hn : g.Reaches n) : n.label ≠ some label := by
  obtain ⟨entered, hsearch⟩ := exists_depthFirst_findLabeled g label
  rw [h] at hsearch
  exact ((hsearch.closed.2 n (hsearch.mem_of_reaches hdistinct hn)).resolve_left
    List.not_mem_nil).1

/-- **The search is depth first**, whatever the graph.  The heads are the steps whose id no step
names, as recorded; under a step stand the first steps with the ids that it names, in the order in
which it names them, without ids that are not there.  The recursive search from the heads comes to
an end in one way only, enters each id at most once and finds what `findLabeled` finds.  A step that
is found has the label and can be reached from a head.  If the ids of the graph are distinct and
nothing is found, no step that can be reached has the label. -/
theorem findLabeled_eq_depthFirst (g : Graph) (label : String) :
    (g.heads.Sublist g.nodes ∧
      ∀ n, n ∈ g.heads ↔ n ∈ g.nodes ∧ ∀ m ∈ g.nodes, n.id ∉ m.parents) ∧
    (∀ n, ids (g.parentsOf n) = n.parents.filter (· ∈ ids g.nodes) ∧
      ∀ m, m ∈ g.parentsOf n ↔ m.id ∈ n.parents ∧ g.IsFirst m) ∧
    ∃ entered found, DepthFirst g label [] g.heads entered found ∧
      (∀ entered' found', DepthFirst g label [] g.heads entered' found' →
        entered' = entered ∧ found' = found) ∧
      (ids entered).Nodup ∧
      g.findLabeled label = found ∧
      (∀ n, g.findLabeled label = some n → n.label = some label ∧ g.Reaches n) ∧
      ((ids g.nodes).Nodup → g.findLabeled label = none → ∀ n, g.Reaches n →
        n.label ≠ some label) := by
  obtain ⟨entered, h⟩ := exists_depthFirst_findLabeled g label
  refine ⟨⟨List.filter_sublist, fun n => mem_heads⟩,
    fun n => ⟨g.map_id_parentsOf n, fun m => mem_parentsOf⟩,
    entered, g.findLabeled label, h, fun _ _ h' => h'.unique h, h.nodup List.nodup_nil, rfl,
    fun n hn => reaches_of_findLabeled hn, fun hdistinct hnone n hn => ?_⟩
  exact label_ne_of_findLabeled_eq_none hdistinct hnone hn

/-- Distinct ids are needed: of two heads with one id only the first is looked at. -/
example : findLabeled ⟨[{ id := "1" }, { id := "1", label := some "Test" }]⟩ "Test" = none := by cbv

end TestLanes.Pipeline.Graph
