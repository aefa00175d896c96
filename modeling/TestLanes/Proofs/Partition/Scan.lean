import TestLanes.Proofs.Partition.Greedy
import TestLanes.Proofs.Text.ByteOrder

/-!
# A queue is as good as looking at all lanes

Entities are placed in the order of their times, and in the order of their keys where these are the
same, since sorting is stable (`filter_heaviestFirst`).  The place of an entity is told by the loads
that the entities before it make, so the rule "the first of the lightest lanes" leaves no choice:
`greedy_reverse_iff` reads it position by position, and `Greedy.eq_of_map_entity_eq` says that no
two assignments follow it.

The plain way to follow the rule is to look at the loads of all lanes for each entity
(`Partition.scan`).  As this follows the rule too (`greedy_scanPlace`), it gives the partition that
the queue gives (`Partition.compute_eq_scan`).
-/

namespace TestLanes

/-! ## 1. The order of placing

That sorting is stable is used in the form that it does not disturb the entities of one time.  Two
entities of the same time then stand as they stand in the map, and this is in the order of keys.
-/

/-- Sorting does not move entities of the same time past each other. -/
theorem filter_heaviestFirst (m : EntityMap) (d : Millis) :
    (heaviestFirst m).filter (fun e => e.duration = d)
      = m.toList.filter fun e => e.duration = d := by
  have hsame : (m.toList.filter fun e => e.duration = d).Pairwise
      fun a b => decide (b.duration ≤ a.duration) = true := by
    refine List.pairwise_of_forall_mem_list fun a ha b hb => decide_eq_true ?_
    have hda : a.duration = d := of_decide_eq_true (List.mem_filter.mp ha).2
    have hdb : b.duration = d := of_decide_eq_true (List.mem_filter.mp hb).2
    rw [hda, hdb]
    exact Nat.le_refl _
  have hsublist : (m.toList.filter fun e => e.duration = d).Sublist (heaviestFirst m) := by
    refine List.sublist_mergeSort ?_ ?_ hsame List.filter_sublist
    · exact fun a b c hab hbc => decide_eq_true
        (Nat.le_trans (of_decide_eq_true hbc) (of_decide_eq_true hab))
    · intro a b
      simpa [Millis.le_def] using Nat.le_total b.duration.val a.duration.val
  have hfiltered := hsublist.filter fun e => decide (e.duration = d)
  rw [List.filter_filter, List.filter_congr fun e _ => Bool.and_self _] at hfiltered
  exact (hfiltered.eq_of_length ((heaviestFirst_perm m).filter _).length_eq.symm).symm

/-- An entity comes before another one if it is heavier, or as heavy with smaller bytes in its
key. -/
def Entity.Precedes (a b : Entity) : Prop :=
  b.duration < a.duration ∨ a.duration = b.duration ∧ Text.bytes a.key < Text.bytes b.key

/-- **The order of placing**: by descending time, and by ascending key for the same time. -/
theorem pairwise_precedes_heaviestFirst (m : EntityMap) :
    (heaviestFirst m).Pairwise Entity.Precedes := by
  rw [List.pairwise_iff_forall_sublist]
  intro a b hab
  have hle : b.duration ≤ a.duration :=
    List.pairwise_iff_forall_sublist.mp (pairwise_heaviestFirst m) hab
  rcases Nat.lt_or_eq_of_le hle with hlt | heq
  · exact Or.inl hlt
  · have hduration : a.duration = b.duration := Millis.ext heq.symm
    have hpair := hab.filter fun e => decide (e.duration = b.duration)
    rw [filter_heaviestFirst] at hpair
    simp only [hduration, decide_true, List.filter_cons_of_pos, List.filter_nil] at hpair
    exact Or.inr ⟨hduration, Text.bytes_lt_bytes
      (List.pairwise_iff_forall_sublist.mp m.sorted (hpair.trans List.filter_sublist))⟩

/-! ## 2. The rule leaves no choice

`Greedy` lists the last placement first and a partition lists it last.  `greedy_reverse_iff`, by
induction from the end of the list, translates between the two: the placements behind one are those
at the positions before it.  That loads do not depend on the order of placing makes up for the
reversal.
-/

theorem FirstLightest.unique {n : Nat} {placed : List Placement} {l l' : Nat}
    (h : FirstLightest n placed l) (h' : FirstLightest n placed l') : l = l' := by
  rcases Nat.lt_trichotomy l l' with hlt | heq | hgt
  · exact absurd (h'.first l hlt) (Nat.not_lt.mpr (h.least l' h'.lt))
  · exact heq
  · exact absurd (h.first l' hgt) (Nat.not_lt.mpr (h'.least l h.lt))

/-- Which lane it is does not depend on the order of placing. -/
theorem FirstLightest.perm {n lane : Nat} {placed placed' : List Placement}
    (h : FirstLightest n placed lane) (hperm : placed.Perm placed') :
    FirstLightest n placed' lane := by
  have hload := laneLoad_perm hperm
  exact ⟨h.lt, hload ▸ h.least, hload ▸ h.first⟩

/-- **The rule read position by position**: each lane is the first of those that are lightest with
the entities placed before. -/
theorem greedy_reverse_iff {n : Nat} {placements : List Placement} : Greedy n placements.reverse ↔
    ∀ k q, placements[k]? = some q → FirstLightest n (placements.take k) q.lane := by
  induction placements using List.reverseRecOn with
  | nil => exact iff_of_true trivial fun k q hq => nomatch hq
  | append_singleton ps p ih =>
    rw [List.reverse_append, List.reverse_singleton, List.singleton_append, Greedy, ih]
    constructor
    · rintro ⟨hlast, hfront⟩ k q hq
      rcases Nat.lt_trichotomy k ps.length with hlt | rfl | hgt
      · rw [List.getElem?_append_left hlt] at hq
        rw [List.take_append_of_le_length (Nat.le_of_lt hlt)]
        exact hfront k q hq
      · rw [List.getElem?_concat_length] at hq
        cases hq
        rw [List.take_left]
        exact hlast.perm (List.reverse_perm ps)
      · rw [List.getElem?_eq_none (by simp; omega)] at hq
        cases hq
    · intro h
      refine ⟨?_, fun k q hq => ?_⟩
      · have hlast := h ps.length p List.getElem?_concat_length
        rw [List.take_left] at hlast
        exact hlast.perm (List.reverse_perm ps).symm
      · have hlt : k < ps.length := (List.getElem?_eq_some_iff.mp hq).1
        have hfront := h k q ((List.getElem?_append_left hlt).trans hq)
        rwa [List.take_append_of_le_length (Nat.le_of_lt hlt)] at hfront

/-- **No two assignments follow the rule.** -/
theorem Greedy.eq_of_map_entity_eq {n : Nat} {ps qs : List Placement} (hp : Greedy n ps)
    (hq : Greedy n qs) (h : ps.map Placement.entity = qs.map Placement.entity) : ps = qs := by
  induction ps generalizing qs with
  | nil => exact (List.map_eq_nil_iff.mp h.symm).symm
  | cons p ps ih =>
    cases qs with
    | nil => cases h
    | cons q qs =>
      obtain ⟨hentity, hrest⟩ := List.cons.inj h
      obtain rfl := ih hp.2 hq.2 hrest
      have hlane : p.lane = q.lane := hp.1.unique hq.1
      cases p
      cases q
      simp_all

/-! ## 3. Looking at all lanes

The scan of the loads carries the best slot so far, and its invariant is that this is the best of
the loads seen (`Slot.IsLeast`).  A load replaces the best one only if it is smaller, which is why
of equal loads the first one stays.  Along the run, the list of loads is that of the lanes with the
entities placed so far (`modify_map_laneLoad`), so what the scan finds is what the rule names.
-/

/-- Looks at the loads of the lanes from number `lane` on; `best` is the lightest one so far. -/
def scanFrom (best : Slot) (lane : Nat) : List Millis → Nat
  | [] => best.lane
  | load :: loads =>
    scanFrom (if load < best.load then ⟨load, lane⟩ else best) (lane + 1) loads

/-- The first of the lightest lanes. -/
def scanLoads : List Millis → Nat
  | [] => 0
  | load :: loads => scanFrom ⟨load, 0⟩ 1 loads

/-- Places entities one after the other, each in the first of the lightest lanes, and gives the
loads at the end. -/
def scanPlace (loads : List Millis) : List Entity → List Placement × List Millis
  | [] => ([], loads)
  | e :: es =>
    let lane := scanLoads loads
    let (placements, loads) := scanPlace (loads.modify lane (· + e.duration)) es
    (⟨e, lane⟩ :: placements, loads)

/-- The partition that looking at all lanes gives. -/
def Partition.scan (m : EntityMap) (n : Nat) : Partition :=
  let (placements, totals) := scanPlace (List.replicate n 0) (heaviestFirst m)
  ⟨placements, totals⟩

/-- A slot of the first of the smallest loads. -/
structure Slot.IsLeast (s : Slot) (loads : List Millis) : Prop where
  load : loads[s.lane]? = some s.load
  least : ∀ (l : Nat) (x : Millis), loads[l]? = some x → s.load ≤ x
  first : ∀ (l : Nat) (x : Millis), l < s.lane → loads[l]? = some x → s.load < x

/-- The better one of the best slot so far and a further one is the best of all. -/
theorem Slot.IsLeast.append_singleton {s : Slot} {seen : List Millis} (h : s.IsLeast seen)
    (x : Millis) : (if x < s.load then (⟨x, seen.length⟩ : Slot) else s).IsLeast (seen ++ [x]) := by
  have hlt : s.lane < seen.length := (List.getElem?_eq_some_iff.mp h.load).1
  -- a further load is among those seen or the last one
  have hcases : ∀ l y, (seen ++ [x])[l]? = some y →
      seen[l]? = some y ∨ l = seen.length ∧ y = x := by
    intro l y hy
    rcases Nat.lt_trichotomy l seen.length with hl | rfl | hl
    · exact Or.inl ((List.getElem?_append_left hl).symm.trans hy)
    · exact Or.inr ⟨rfl, Option.some.inj (hy.symm.trans List.getElem?_concat_length)⟩
    · rw [List.getElem?_eq_none (by simp; omega)] at hy
      cases hy
  split
  · next hx =>
    refine ⟨List.getElem?_concat_length, fun l y hy => ?_, fun l y hl hy => ?_⟩
    · rcases hcases l y hy with hseen | ⟨-, rfl⟩
      · exact Nat.le_of_lt (Nat.lt_of_lt_of_le hx (h.least l y hseen))
      · exact Nat.le_refl _
    · rcases hcases l y hy with hseen | ⟨rfl, -⟩
      · exact Nat.lt_of_lt_of_le hx (h.least l y hseen)
      · exact absurd hl (Nat.lt_irrefl _)
  · next hx =>
    refine ⟨(List.getElem?_append_left hlt).trans h.load, fun l y hy => ?_, fun l y hl hy => ?_⟩
    · rcases hcases l y hy with hseen | ⟨-, rfl⟩
      · exact h.least l y hseen
      · exact Nat.not_lt.mp hx
    · exact h.first l y hl ((List.getElem?_append_left (Nat.lt_trans hl hlt)).symm.trans hy)

/-- What is found is the best of the lanes that were seen before and those that are looked at. -/
theorem exists_isLeast_scanFrom {best : Slot} {seen : List Millis} (h : best.IsLeast seen)
    (loads : List Millis) :
    ∃ load, (⟨load, scanFrom best seen.length loads⟩ : Slot).IsLeast (seen ++ loads) := by
  induction loads generalizing best seen with
  | nil => exact ⟨best.load, (List.append_nil seen).symm ▸ h⟩
  | cons x loads ih =>
    obtain ⟨load, hload⟩ := ih (h.append_singleton x)
    rw [List.length_append, List.append_assoc] at hload
    exact ⟨load, hload⟩

/-- **What is found is the first of the lightest lanes.** -/
theorem firstLightest_scanLoads {n : Nat} (hn : 0 < n) (placed : List Placement) :
    FirstLightest n placed (scanLoads ((List.range n).map (laneLoad placed))) := by
  have hlanes : ∀ l < n, ((List.range n).map (laneLoad placed))[l]? = some (laneLoad placed l) :=
    fun l hl => by rw [List.getElem?_map, List.getElem?_range hl, Option.map_some]
  obtain ⟨x, xs, hloads⟩ : ∃ x xs, (List.range n).map (laneLoad placed) = x :: xs :=
    List.exists_cons_of_ne_nil (by simp; omega)
  have hfirst : (⟨x, 0⟩ : Slot).IsLeast [x] := by
    refine ⟨rfl, fun l y hy => ?_, fun l y hl => absurd hl (Nat.not_lt_zero l)⟩
    exact List.mem_singleton.mp (List.mem_of_getElem? hy) ▸ Nat.le_refl _
  obtain ⟨load, hleast⟩ := exists_isLeast_scanFrom hfirst xs
  rw [List.singleton_append, ← hloads] at hleast
  rw [hloads, scanLoads]
  have hlt : scanFrom ⟨x, 0⟩ 1 xs < n := by
    simpa using (List.getElem?_eq_some_iff.mp hleast.load).1
  obtain rfl : laneLoad placed (scanFrom ⟨x, 0⟩ 1 xs) = load :=
    Option.some.inj ((hlanes _ hlt).symm.trans hleast.load)
  exact ⟨hlt, fun l hl => hleast.least l _ (hlanes l hl),
    fun l hl => hleast.first l _ hl (hlanes l (Nat.lt_trans hl hlt))⟩

/-- A new entity changes the load of its lane only. -/
theorem modify_map_laneLoad (n : Nat) (p : Placement) (placed : List Placement) :
    ((List.range n).map (laneLoad placed)).modify p.lane (· + p.entity.duration)
      = (List.range n).map (laneLoad (p :: placed)) := by
  refine List.ext_getElem? fun l => ?_
  rw [List.getElem?_modify, List.getElem?_map, List.getElem?_map]
  by_cases hl : l < n
  · rw [List.getElem?_range hl, Option.map_some, Option.map_some, laneLoad_cons]
    rfl
  · rw [List.getElem?_eq_none (by simpa using hl)]
    rfl

/-- **Looking at all lanes follows the rule**, and the loads at the end are those of the lanes. -/
theorem greedy_scanPlace {n : Nat} (hn : 0 < n) (es : List Entity) {placed : List Placement}
    (h : Greedy n placed) {placements : List Placement} {loads : List Millis}
    (hscan : scanPlace ((List.range n).map (laneLoad placed)) es = (placements, loads)) :
    Greedy n (placements.reverse ++ placed) ∧ placements.map Placement.entity = es ∧
      loads = (List.range n).map (laneLoad (placements.reverse ++ placed)) := by
  induction es generalizing placed placements with
  | nil =>
    cases hscan
    exact ⟨h, rfl, rfl⟩
  | cons e es ih =>
    have hlane := firstLightest_scanLoads hn placed
    rw [scanPlace] at hscan
    generalize scanLoads ((List.range n).map (laneLoad placed)) = lane at hlane hscan
    rw [modify_map_laneLoad n ⟨e, lane⟩ placed] at hscan
    rcases hrest : scanPlace ((List.range n).map (laneLoad (⟨e, lane⟩ :: placed))) es with ⟨ps, ls⟩
    rw [hrest] at hscan
    cases hscan
    have hplaced : Greedy n (⟨e, lane⟩ :: placed) := ⟨hlane, h⟩
    obtain ⟨hgreedy, hentities, hloads⟩ := ih hplaced hrest
    have hsplit : (⟨e, lane⟩ :: ps).reverse ++ placed = ps.reverse ++ ⟨e, lane⟩ :: placed := by
      rw [List.reverse_cons, List.append_assoc, List.singleton_append]
    rw [hsplit]
    exact ⟨hgreedy, congrArg _ hentities, hloads⟩

namespace Partition

/-- **Looking at all lanes gives the partition that follows the rule.** -/
theorem Spreads.eq_scan {p : Partition} {m : EntityMap} {n : Nat} (hn : 0 < n)
    (h : p.Spreads m n) : p = scan m n := by
  have hfresh : List.replicate n (0 : Millis) = (List.range n).map (laneLoad []) := by
    rw [show laneLoad [] = fun _ => 0 from rfl, List.map_const', List.length_range]
  rcases hscan : scanPlace (List.replicate n 0) (heaviestFirst m) with ⟨placements, totals⟩
  have hnothing : Greedy n [] := trivial
  obtain ⟨hgreedy, hentities, htotals⟩ :=
    greedy_scanPlace hn (heaviestFirst m) hnothing (hfresh ▸ hscan)
  rw [List.append_nil] at hgreedy htotals
  have hplacements : p.placements = placements := by
    refine List.reverse_injective (h.greedy.eq_of_map_entity_eq hgreedy ?_)
    rw [List.map_reverse, List.map_reverse, h.entities, hentities]
  have htotals' : p.totals = totals := by
    rw [h.totals, htotals, hplacements, laneLoad_perm (List.reverse_perm placements)]
  rw [scan, hscan, ← hplacements, ← htotals']

/-! ## 4. Partitions

The partition of the queue and that of the scan have the same entities in the same order, and both
follow the rule.  There are no two such lists of placements; and the totals are told by them.
-/

/-- **The queue is as good as looking at all lanes.**  For any entities and any number of lanes but
zero there is a partition.  It holds the entities of the map by descending time and, for the same
time, by ascending bytes of their keys.  At every position the lane of the entity is the first of
those that are lightest with the entities at the positions before, where loads are cut off at the
ceiling.  No other assignment of these entities in this order has this property, and the partition
is the one that looking at all lanes for each entity gives. -/
theorem compute_eq_scan (m : EntityMap) {n : Nat} (hn : 0 < n) :
    ∃ p, compute m n = .ok p ∧
      p.entities.Perm m.toList ∧
      p.entities.Pairwise Entity.Precedes ∧
      (∀ k q, p.placements[k]? = some q →
        p.entities[k]? = some q.entity ∧ p.laneOf? q.entity.key = some q.lane ∧
          FirstLightest n (p.placements.take k) q.lane) ∧
      (∀ placements : List Placement, placements.map Placement.entity = p.entities →
        (∀ k q, placements[k]? = some q → FirstLightest n (placements.take k) q.lane) →
        placements = p.placements) ∧
      p = scan m n := by
  obtain ⟨p, hp, hspread⟩ := exists_compute m hn
  have horder : p.entities.Pairwise Entity.Precedes := by
    rw [show p.entities = heaviestFirst m from hspread.entities]
    exact pairwise_precedes_heaviestFirst m
  refine ⟨p, hp, hspread.entities_perm, horder, ?_, ?_, hspread.eq_scan hn⟩
  · intro k q hq
    refine ⟨?_, hspread.laneOf?_eq (List.mem_of_getElem? hq), ?_⟩
    · rw [entities, List.getElem?_map, hq, Option.map_some]
    · exact greedy_reverse_iff.mp hspread.greedy k q hq
  · intro placements hsame hrule
    have hgreedy := greedy_reverse_iff.mpr hrule
    refine List.reverse_injective (hgreedy.eq_of_map_entity_eq hspread.greedy ?_)
    rw [List.map_reverse, List.map_reverse, hsame, entities]

def tied : EntityMap :=
  ((((EntityMap.empty.put ⟨"ü", .ofNat 0, .testCase⟩).put ⟨"z", .ofNat 0, .testCase⟩).put
    ⟨"b", .ofNat (Nat.pow 2 64), .testCase⟩).put ⟨"a", .ofNat (Nat.pow 2 64), .testCase⟩).put
    ⟨"c", .ofNat 5, .testCase⟩

/-- Their partition over two lanes. -/
theorem compute_eq_scan_tied :
    0 < 2 ∧ ∃ p, compute tied 2 = .ok p ∧
      p.entities.Perm tied.toList ∧
      p.entities.Pairwise Entity.Precedes ∧
      (∀ k q, p.placements[k]? = some q →
        p.entities[k]? = some q.entity ∧ p.laneOf? q.entity.key = some q.lane ∧
          FirstLightest 2 (p.placements.take k) q.lane) ∧
      (∀ placements : List Placement, placements.map Placement.entity = p.entities →
        (∀ k q, placements[k]? = some q → FirstLightest 2 (placements.take k) q.lane) →
        placements = p.placements) ∧
      p = scan tied 2 :=
  ⟨by decide, compute_eq_scan tied (by decide)⟩

end Partition

end TestLanes
