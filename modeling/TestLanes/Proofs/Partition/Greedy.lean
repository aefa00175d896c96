import TestLanes.Partition.Basic
import TestLanes.Proofs.Entity.Gather

/-!
# Placing is greedy

The queue of lanes is an implementation of one rule: each entity goes to the first of the lanes that
hold the least time (`FirstLightest`).

`Placing.Sound` says that the queue stands for the entities placed so far: it holds each lane once,
with the load that these entities give it, and it is in order.  The lane at its head is then the one
that the rule names (`Placing.Sound.firstLightest`).  One step keeps this (`Placing.exists_place`),
so a whole run does (`exists_foldlM_place`), and a partition is what the rule gives for the entities
in the order of their times (`Partition.exists_compute`).

Nothing else is to be known about the queue.  Whatever is proved of partitions elsewhere starts from
`Partition.Spreads`, which speaks of placements and totals only.
-/

namespace TestLanes

/-! ## 1. The time that a lane holds

The load is what the queue keeps, cut off at the ceiling with every entity; the time is the exact
sum.  As cutting off many times is cutting off once, one is told by the other (`val_laneLoad`), and
what is shown of times, by the lemmas about `sumIn`, carries over to loads.
-/

/-- The time of the entities placed in a lane, cut off at the ceiling. -/
def laneLoad (placed : List Placement) (lane : Nat) : Millis :=
  Millis.sum ((placed.filter fun p => p.lane = lane).map fun p => p.entity.duration)

/-- The time of the entities placed in a lane, exactly. -/
def laneTime (placed : List Placement) (lane : Nat) : Nat :=
  sumIn Placement.lane (fun p => p.entity.duration.val) placed lane

/-- A load is the exact time, cut off once. -/
theorem val_laneLoad (placed : List Placement) (lane : Nat) :
    (laneLoad placed lane).val = min (laneTime placed lane) Millis.ceiling := by
  rw [laneLoad, Millis.val_sum, List.map_map]
  rfl

/-- All lanes of a placing together hold everything. -/
theorem sumOf_range_laneTime {n : Nat} {placed : List Placement} (h : ∀ p ∈ placed, p.lane < n) :
    sumOf ((List.range n).map (laneTime placed)) = totalTime (placed.map Placement.entity) := by
  rw [totalTime, List.map_map]
  exact sumOf_range_sumIn h _

/-- The time of a lane does not depend on the order of placing. -/
theorem laneTime_perm {placed placed' : List Placement} (h : placed.Perm placed') :
    laneTime placed = laneTime placed' :=
  funext (sumIn_perm _ _ h)

theorem laneLoad_perm {placed placed' : List Placement} (h : placed.Perm placed') :
    laneLoad placed = laneLoad placed' := by
  funext lane
  refine Millis.ext ?_
  rw [val_laneLoad, val_laneLoad, laneTime_perm h]

/-- An entity adds its time to its lane and leaves the others as they are. -/
theorem laneTime_cons (p : Placement) (placed : List Placement) (lane : Nat) :
    laneTime (p :: placed) lane
      = if p.lane = lane then p.entity.time + laneTime placed lane else laneTime placed lane :=
  sumIn_cons _ _ p placed lane

theorem laneLoad_cons (p : Placement) (placed : List Placement) (lane : Nat) :
    laneLoad (p :: placed) lane
      = if p.lane = lane then laneLoad placed lane + p.entity.duration
        else laneLoad placed lane := by
  refine Millis.ext ?_
  rw [val_laneLoad, laneTime_cons]
  split
  · rw [Millis.val_add, val_laneLoad, Entity.time]
    omega
  · rw [val_laneLoad]

/-! ## 2. The rule

Placements are listed with the last one first, as a run makes them.  So `Greedy` says of each of
them that it follows the rule with those behind it in the list.
-/

/-- Of the first `n` lanes, this one holds the least time, and all before it hold more. -/
structure FirstLightest (n : Nat) (placed : List Placement) (lane : Nat) : Prop where
  lt : lane < n
  least : ∀ l < n, laneLoad placed lane ≤ laneLoad placed l
  first : ∀ l < lane, laneLoad placed lane < laneLoad placed l

/-- Each entity was put in the first of the lightest lanes.  The last one stands first. -/
def Greedy (n : Nat) : List Placement → Prop
  | [] => True
  | p :: placed => FirstLightest n placed p.lane ∧ Greedy n placed

/-- Greedy placing uses the `n` lanes only. -/
theorem Greedy.lane_lt {n : Nat} {placed : List Placement} (h : Greedy n placed) :
    ∀ p ∈ placed, p.lane < n := by
  induction placed with
  | nil => exact fun p hp => absurd hp List.not_mem_nil
  | cons q placed ih =>
    intro p hp
    rcases List.mem_cons.mp hp with rfl | hp
    · exact h.1.lt
    · exact ih h.2 p hp

/-! ## 3. The queue is in order

Slots are ordered by load and, for the same load, by lane.  The order is total only on slots of
different lanes, so a slot is put back under the condition that its lane is not in the queue.
-/

theorem Slot.before_iff {s t : Slot} :
    s.before t = true ↔ s.load < t.load ∨ s.load = t.load ∧ s.lane < t.lane := by
  simp [Slot.before]

theorem Slot.before_trans {s t u : Slot} (hst : s.before t = true) (htu : t.before u = true) :
    s.before u = true := by
  rw [before_iff, Millis.lt_def] at *
  rcases hst with hst | ⟨hst, hst'⟩ <;> rcases htu with htu | ⟨htu, htu'⟩
  · exact Or.inl (Nat.lt_trans hst htu)
  · exact Or.inl (htu ▸ hst)
  · exact Or.inl (hst ▸ htu)
  · exact Or.inr ⟨hst.trans htu, Nat.lt_trans hst' htu'⟩

/-- Of two lanes one comes before the other. -/
theorem Slot.before_total {s t : Slot} (hlane : s.lane ≠ t.lane) (h : ¬ s.before t = true) :
    t.before s = true := by
  rw [before_iff, Millis.lt_def] at *
  rcases Nat.lt_trichotomy s.load.val t.load.val with hlt | heq | hgt
  · exact absurd (Or.inl hlt) h
  · refine Or.inr ⟨Millis.ext heq.symm, ?_⟩
    have hnlt : ¬ s.lane < t.lane := fun hl => h (Or.inr ⟨Millis.ext heq, hl⟩)
    omega
  · exact Or.inl hgt

theorem enqueue_perm (s : Slot) (queue : List Slot) : (enqueue s queue).Perm (s :: queue) := by
  induction queue with
  | nil => exact List.Perm.refl _
  | cons t queue ih =>
    unfold enqueue
    split
    · exact List.Perm.refl _
    · exact (ih.cons t).trans (List.Perm.swap s t queue)

/-- Putting a lane back that is not in the queue keeps the order. -/
theorem pairwise_enqueue {s : Slot} {queue : List Slot}
    (hs : ∀ t ∈ queue, s.lane ≠ t.lane)
    (h : queue.Pairwise fun a b => a.before b = true) :
    (enqueue s queue).Pairwise fun a b => a.before b = true := by
  induction queue with
  | nil => exact List.pairwise_singleton _ _
  | cons t queue ih =>
    obtain ⟨ht, hq⟩ := List.pairwise_cons.mp h
    unfold enqueue
    split
    · rename_i hst
      refine List.pairwise_cons.mpr ⟨fun u hu => ?_, h⟩
      rcases List.mem_cons.mp hu with rfl | hu
      · exact hst
      · exact Slot.before_trans hst (ht u hu)
    · rename_i hst
      have hts : t.before s = true := Slot.before_total (hs t List.mem_cons_self) hst
      have hrest := ih (fun u hu => hs u (List.mem_cons_of_mem t hu)) hq
      refine List.pairwise_cons.mpr ⟨fun u hu => ?_, hrest⟩
      rcases List.mem_cons.mp ((enqueue_perm s queue).mem_iff.mp hu) with rfl | hu
      · exact hts
      · exact ht u hu

/-! ## 4. One step

A step takes the slot at the head, adds the entity to it and puts it back.  Two facts about the
state are used: the head is the lane that the rule names, since the queue is in order; and no slot
behind it is of the same lane, since the queue is a permutation of the slots of all lanes.
-/

/-- The lanes with the loads that the placed entities give them. -/
def slotsOf (n : Nat) (placed : List Placement) : List Slot :=
  (List.range n).map fun lane => ⟨laneLoad placed lane, lane⟩

/-- The state of a greedy run: the queue holds each lane with its load, in order. -/
structure Placing.Sound (n : Nat) (s : Placing) : Prop where
  ordered : s.queue.Pairwise fun a b => a.before b = true
  slots : s.queue.Perm (slotsOf n s.placed)
  greedy : Greedy n s.placed

theorem map_lane_slotsOf (n : Nat) (placed : List Placement) :
    (slotsOf n placed).map Slot.lane = List.range n := by
  rw [slotsOf, List.map_map]
  exact List.map_id' _

/-- The queue holds no lane twice. -/
theorem Placing.Sound.nodup_lanes {n : Nat} {s : Placing} (h : s.Sound n) :
    (s.queue.map Slot.lane).Nodup := by
  have hperm : (s.queue.map Slot.lane).Perm (List.range n) :=
    map_lane_slotsOf n s.placed ▸ h.slots.map Slot.lane
  exact hperm.nodup_iff.mpr List.nodup_range

/-- The first lane of the queue is the one that the rule names. -/
theorem Placing.Sound.firstLightest {n : Nat} {s : Placing} (h : s.Sound n) {slot : Slot}
    {rest : List Slot} (hq : s.queue = slot :: rest) :
    slot.load = laneLoad s.placed slot.lane ∧ FirstLightest n s.placed slot.lane := by
  have hmem : slot ∈ slotsOf n s.placed := h.slots.mem_iff.mp (hq ▸ List.mem_cons_self)
  obtain ⟨lane, hlane, rfl⟩ := List.mem_map.mp hmem
  have hord := List.pairwise_cons.mp (hq ▸ h.ordered)
  -- any lane is the first one itself, or stands behind it
  have hother : ∀ l < n, l ≠ lane →
      (⟨laneLoad s.placed lane, lane⟩ : Slot).before ⟨laneLoad s.placed l, l⟩ = true := by
    intro l hl hne
    have hin : (⟨laneLoad s.placed l, l⟩ : Slot) ∈ s.queue :=
      h.slots.mem_iff.mpr (List.mem_map.mpr ⟨l, List.mem_range.mpr hl, rfl⟩)
    rw [hq] at hin
    rcases List.mem_cons.mp hin with heq | hin
    · exact absurd (congrArg Slot.lane heq) hne
    · exact hord.1 _ hin
  refine ⟨rfl, List.mem_range.mp hlane, fun l hl => ?_, fun l hl => ?_⟩
  · by_cases hne : l = lane
    · exact hne ▸ Nat.le_refl _
    · rcases Slot.before_iff.mp (hother l hl hne) with hlt | ⟨heq, -⟩
      · exact Nat.le_of_lt hlt
      · exact Nat.le_of_eq (congrArg Millis.val heq)
  · have hn : l < n := Nat.lt_trans hl (List.mem_range.mp hlane)
    rcases Slot.before_iff.mp (hother l hn (Nat.ne_of_lt hl)) with hlt | ⟨-, hlt⟩
    · exact hlt
    · exact absurd hlt (Nat.lt_asymm hl)

/-- With one more entity only the slot of its lane changes. -/
theorem slotsOf_cons (n : Nat) (p : Placement) (placed : List Placement) :
    slotsOf n (p :: placed) = (slotsOf n placed).map fun t =>
      if p.lane = t.lane then { t with load := t.load + p.entity.duration } else t := by
  rw [slotsOf, slotsOf, List.map_map]
  refine List.map_congr_left fun lane _ => ?_
  rw [laneLoad_cons, Function.comp]
  split <;> rfl

/-- The queue with the entity added to its first lane holds the new slots. -/
theorem Placing.Sound.slots_cons {n : Nat} {s : Placing} (h : s.Sound n) {slot : Slot}
    {rest : List Slot} (hq : s.queue = slot :: rest) (e : Entity) :
    ({ slot with load := slot.load + e.duration } :: rest).Perm
      (slotsOf n (⟨e, slot.lane⟩ :: s.placed)) := by
  have hnodup : slot.lane ∉ rest.map Slot.lane :=
    (List.nodup_cons.mp (List.map_cons ▸ hq ▸ h.nodup_lanes)).1
  have hrest : rest.map (fun t =>
      if slot.lane = t.lane then { t with load := t.load + e.duration } else t) = rest := by
    refine (List.map_congr_left fun t ht => ?_).trans (List.map_id rest)
    rw [if_neg fun heq => hnodup (List.mem_map.mpr ⟨t, ht, heq.symm⟩)]
    rfl
  have hmap := (hq ▸ h.slots).map fun t : Slot =>
    if slot.lane = t.lane then { t with load := t.load + e.duration } else t
  rwa [List.map_cons, hrest, if_pos rfl, ← slotsOf_cons n ⟨e, slot.lane⟩] at hmap

/-- **One step.**  An entity whose key is new is placed, and the state stays sound. -/
theorem Placing.Sound.exists_place {n : Nat} (hn : 0 < n) {s : Placing} (h : s.Sound n) {e : Entity}
    (hkey : ∀ p ∈ s.placed, p.entity.key ≠ e.key) :
    ∃ s', s.place e = .ok s' ∧ s'.Sound n ∧
      s'.placed.map Placement.entity = e :: s.placed.map Placement.entity := by
  have hlen : s.queue.length = n := by
    rw [h.slots.length_eq, slotsOf, List.length_map, List.length_range]
  have hnew : s.placed.find? (fun p => p.entity.key = e.key) = none :=
    List.find?_eq_none.mpr fun p hp => by simpa using hkey p hp
  cases hq : s.queue with
  | nil => rw [hq] at hlen; exact absurd hlen (Nat.ne_of_lt hn)
  | cons slot rest =>
    have hnodup : slot.lane ∉ rest.map Slot.lane :=
      (List.nodup_cons.mp (List.map_cons ▸ hq ▸ h.nodup_lanes)).1
    refine ⟨⟨enqueue { slot with load := slot.load + e.duration } rest,
      ⟨e, slot.lane⟩ :: s.placed⟩, ?_, ⟨?_, ?_, ?_⟩, rfl⟩
    · rw [place, hq]
      simp only [hnew]
    · refine pairwise_enqueue (fun t ht heq => hnodup ?_) (List.pairwise_cons.mp (hq ▸ h.ordered)).2
      exact List.mem_map.mpr ⟨t, ht, heq.symm⟩
    · exact (enqueue_perm _ rest).trans (h.slots_cons hq e)
    · exact ⟨(h.firstLightest hq).2, h.greedy⟩

/-! ## 5. A run

The induction is over the entities still to be placed, for any sound state.  Its hypothesis on keys
speaks of these and of the placed ones together, so that one step moves a key from one side to the
other and the condition stays.
-/

/-- The lanes without entities are a sound state. -/
theorem Placing.sound_fresh (n : Nat) : (⟨freshQueue n, []⟩ : Placing).Sound n where
  ordered := by
    refine List.pairwise_map.mpr (List.pairwise_lt_range.imp fun {a b} hab => ?_)
    exact Slot.before_iff.mpr (Or.inr ⟨rfl, hab⟩)
  slots := List.Perm.refl _
  greedy := trivial

/-- **A run.**  Entities with new and distinct keys are all placed, one after the other. -/
theorem Placing.Sound.exists_foldlM_place {n : Nat} (hn : 0 < n) (es : List Entity) :
    ∀ {s : Placing}, s.Sound n →
      (es.map Entity.key ++ s.placed.map fun p => p.entity.key).Nodup →
      ∃ s', es.foldlM Placing.place s = .ok s' ∧ s'.Sound n ∧
        s'.placed.map Placement.entity = es.reverse ++ s.placed.map Placement.entity := by
  induction es with
  | nil => exact fun {s} h _ => ⟨s, rfl, h, rfl⟩
  | cons e es ih =>
    intro s h hkeys
    rw [List.map_cons, List.cons_append, List.nodup_cons] at hkeys
    have hnew : ∀ p ∈ s.placed, p.entity.key ≠ e.key := by
      intro p hp heq
      exact hkeys.1 (List.mem_append_right _ (List.mem_map.mpr ⟨p, hp, heq⟩))
    obtain ⟨s₁, hplace, hsound, hentities⟩ := h.exists_place hn hnew
    have hkeys₁ : s₁.placed.map (fun p => p.entity.key) =
        e.key :: s.placed.map fun p => p.entity.key := by
      have hmap := congrArg (List.map Entity.key) hentities
      rwa [List.map_cons, List.map_map, List.map_map] at hmap
    have hnodup₁ : (es.map Entity.key ++ s₁.placed.map fun p => p.entity.key).Nodup := by
      rw [hkeys₁]
      exact List.perm_middle.nodup_iff.mpr (List.nodup_cons.mpr hkeys)
    obtain ⟨s', hrun, hsound', hentities'⟩ := ih hsound hnodup₁
    refine ⟨s', ?_, hsound', ?_⟩
    · rw [List.foldlM_cons, hplace]
      exact hrun
    · rw [hentities', hentities, List.reverse_cons, List.append_assoc]
      rfl

/-! ## 6. Partitions

At the end the queue is sorted by lane and its loads are read off.  Since it holds each lane once,
this is the list of the loads of all lanes.  Before the run the entities are sorted by descending
time; only that this keeps the entities, and sorts them, is needed for now.
-/

/-- Sorting the queue by lane gives back the slots in order. -/
theorem Placing.Sound.loads_queue {n : Nat} {s : Placing} (h : s.Sound n) :
    Partition.loads s.queue = (List.range n).map (laneLoad s.placed) := by
  have hsort : s.queue.mergeSort (fun a b => decide (a.lane ≤ b.lane)) = slotsOf n s.placed := by
    have hsorted : (s.queue.mergeSort fun a b => decide (a.lane ≤ b.lane)).Pairwise
        (fun a b => a.lane ≤ b.lane) := by
      refine (List.pairwise_mergeSort ?_ ?_ s.queue).imp fun {a b} hab => of_decide_eq_true hab
      · exact fun a b c hab hbc => decide_eq_true
          (Nat.le_trans (of_decide_eq_true hab) (of_decide_eq_true hbc))
      · intro a b
        simpa using Nat.le_total a.lane b.lane
    have hslots : (slotsOf n s.placed).Pairwise (fun a b => a.lane ≤ b.lane) :=
      List.pairwise_map.mpr List.pairwise_le_range
    refine List.Perm.eq_of_pairwise ?_ hsorted hslots ((List.mergeSort_perm _ _).trans h.slots)
    intro a b ha hb hab hba
    have hb' : b ∈ s.queue := h.slots.mem_iff.mpr hb
    have ha' : a ∈ s.queue := List.mem_mergeSort.mp ha
    exact List.inj_on_of_nodup_map h.nodup_lanes ha' hb' (Nat.le_antisymm hab hba)
  rw [Partition.loads, hsort, slotsOf, List.map_map]
  rfl

theorem heaviestFirst_perm (m : EntityMap) : (heaviestFirst m).Perm m.toList :=
  List.mergeSort_perm _ _

/-- No entity is heavier than one that is placed before it. -/
theorem pairwise_heaviestFirst (m : EntityMap) :
    (heaviestFirst m).Pairwise fun a b => b.duration ≤ a.duration := by
  refine (List.pairwise_mergeSort ?_ ?_ m.toList).imp fun {a b} hab => of_decide_eq_true hab
  · exact fun a b c hab hbc => decide_eq_true
      (Nat.le_trans (of_decide_eq_true hbc) (of_decide_eq_true hab))
  · intro a b
    simpa [Millis.le_def] using Nat.le_total b.duration.val a.duration.val

theorem nodup_keys_heaviestFirst (m : EntityMap) : ((heaviestFirst m).map Entity.key).Nodup :=
  ((heaviestFirst_perm m).map Entity.key).nodup_iff.mpr m.nodup_keys

/-- What it means that a partition spreads the entities over `n` lanes greedily. -/
structure Partition.Spreads (p : Partition) (m : EntityMap) (n : Nat) : Prop where
  entities : p.placements.map Placement.entity = heaviestFirst m
  greedy : Greedy n p.placements.reverse
  totals : p.totals = (List.range n).map (laneLoad p.placements)

/-- **A partition is made, and it follows the rule**, for all entities and any number of lanes
but zero. -/
theorem Partition.exists_compute (m : EntityMap) {n : Nat} (hn : 0 < n) :
    ∃ p, Partition.compute m n = .ok p ∧ p.Spreads m n := by
  obtain ⟨s, hrun, hsound, hentities⟩ :=
    (Placing.sound_fresh n).exists_foldlM_place hn (heaviestFirst m)
      (by simpa using nodup_keys_heaviestFirst m)
  refine ⟨⟨s.placed.reverse, loads s.queue⟩, ?_, ?_, ?_, ?_⟩
  · rw [compute, if_neg (Nat.ne_of_gt hn), hrun]
    rfl
  · rw [List.map_reverse, hentities]
    simp
  · rw [List.reverse_reverse]
    exact hsound.greedy
  · rw [hsound.loads_queue, laneLoad_perm (List.reverse_perm s.placed)]

/-- Entities that stand in the order of placing already, on lanes whose queue ends in the order of
their numbers. -/
theorem Partition.compute_of_pairwise {m : EntityMap} {n : Nat} {s : Placing} (hn : n ≠ 0)
    (hsorted : m.toList.Pairwise fun a b => decide (b.duration ≤ a.duration) = true)
    (hrun : m.toList.foldlM Placing.place ⟨freshQueue n, []⟩ = .ok s)
    (hqueue : s.queue.Pairwise fun a b => decide (a.lane ≤ b.lane) = true) :
    Partition.compute m n = .ok ⟨s.placed.reverse, s.queue.map Slot.load⟩ := by
  rw [compute, if_neg hn, heaviestFirst, List.mergeSort_of_pairwise hsorted, hrun]
  simp only [bind, Except.bind, loads, List.mergeSort_of_pairwise hqueue]

/-! ## 7. What a partition shows

The views of a partition, told by its placements.  Keys of placements are distinct, since those of a
map are; so the first placement with a key is the only one, and a lane can be asked for by key.
-/

namespace Partition.Spreads

variable {p : Partition} {m : EntityMap} {n : Nat}

theorem laneCount_eq (h : p.Spreads m n) : p.laneCount = n := by
  rw [laneCount, h.totals, List.length_map, List.length_range]

/-- The entities of the partition are those of the map. -/
theorem entities_perm (h : p.Spreads m n) : (p.placements.map Placement.entity).Perm m.toList :=
  h.entities ▸ heaviestFirst_perm m

/-- Each entity of the map is placed. -/
theorem exists_placement (h : p.Spreads m n) {e : Entity} (he : e ∈ m.toList) :
    ∃ q ∈ p.placements, q.entity = e :=
  List.mem_map.mp (h.entities_perm.mem_iff.mpr he)

/-- What is placed is an entity of the map. -/
theorem entity_mem (h : p.Spreads m n) {q : Placement} (hq : q ∈ p.placements) :
    q.entity ∈ m.toList :=
  h.entities_perm.mem_iff.mp (List.mem_map.mpr ⟨q, hq, rfl⟩)

theorem lane_lt (h : p.Spreads m n) {q : Placement} (hq : q ∈ p.placements) : q.lane < n :=
  h.greedy.lane_lt q (List.mem_reverse.mpr hq)

/-- Two placements do not share a key. -/
theorem eq_of_key_eq (h : p.Spreads m n) {q r : Placement} (hq : q ∈ p.placements)
    (hr : r ∈ p.placements) (hkey : q.entity.key = r.entity.key) : q = r := by
  have hnodup : (p.placements.map fun q => q.entity.key).Nodup := by
    have hmap := nodup_keys_heaviestFirst m
    rwa [← h.entities, List.map_map] at hmap
  exact List.inj_on_of_nodup_map hnodup hq hr hkey

/-- The lane of an entity is the one that it was placed in. -/
theorem laneOf?_eq (h : p.Spreads m n) {q : Placement} (hq : q ∈ p.placements) :
    p.laneOf? q.entity.key = some q.lane := by
  rw [laneOf?]
  cases hfind : p.placements.find? (fun r => r.entity.key = q.entity.key) with
  | none => exact absurd (decide_eq_true rfl) (List.find?_eq_none.mp hfind q hq)
  | some r =>
    have hkey : r.entity.key = q.entity.key := by simpa using List.find?_some hfind
    rw [h.eq_of_key_eq (List.mem_of_find?_eq_some hfind) hq hkey]
    rfl

end Partition.Spreads

end TestLanes
