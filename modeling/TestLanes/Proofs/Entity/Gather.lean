import Mathlib.Data.List.Induction
import Mathlib.Data.List.Nodup
import TestLanes.Entity.Map
import TestLanes.Proofs.Sum

/-!
# Entities gathered by key

A map is known by its answers to `get?` (`EntityMap.ext_get?`), and putting and merging are known by
what they do to these answers (`get?_put`, `get?_merge`).  Entities that are merged one by one make
one entity for each key, with the time of all that have the key, cut off once (`get?_gather`); so
the order in which they come does not matter (`gather_perm`), and all together have the time that
went in (`val_total_gather`).

Extraction, merging of trees and the claims about time all go through `gather`: what is extracted
from a tree is the gathering of the entities of its cases, whatever the granularity, and a statement
about extraction becomes one about sums over a list.
-/

namespace TestLanes

/-! ## 1. Exact times

Times are added as naturals, before anything is cut off.  `timeAt` is the sum over the entities with
one key; both sums follow the list they are taken over and do not depend on its order.
-/

def Entity.time (e : Entity) : Nat := e.duration.val

/-- The time of all entities together. -/
def totalTime (es : List Entity) : Nat := sumOf (es.map Entity.time)

/-- The time of the entities with a key together. -/
def timeAt (key : String) (es : List Entity) : Nat := totalTime (es.filter fun e => e.key = key)

theorem totalTime_cons (e : Entity) (es : List Entity) :
    totalTime (e :: es) = e.time + totalTime es := rfl

theorem totalTime_append (es es' : List Entity) :
    totalTime (es ++ es') = totalTime es + totalTime es' := by
  rw [totalTime, List.map_append, sumOf_append]
  rfl

theorem totalTime_perm {es es' : List Entity} (h : es.Perm es') : totalTime es = totalTime es' :=
  sumOf_perm (h.map Entity.time)

theorem timeAt_perm {es es' : List Entity} (h : es.Perm es') (key : String) :
    timeAt key es = timeAt key es' :=
  totalTime_perm (h.filter _)

theorem timeAt_append (key : String) (es es' : List Entity) :
    timeAt key (es ++ es') = timeAt key es + timeAt key es' := by
  rw [timeAt, List.filter_append, totalTime_append]
  rfl

theorem timeAt_eq_zero {key : String} {es : List Entity} (h : key ∉ es.map Entity.key) :
    timeAt key es = 0 := by
  have hnone : es.filter (fun e => e.key = key) = [] := by
    refine List.filter_eq_nil_iff.mpr fun e he heq => h ?_
    exact List.mem_map.mpr ⟨e, he, of_decide_eq_true heq⟩
  rw [timeAt, hnone]
  rfl

theorem timeAt_eq_totalTime {key : String} {es : List Entity} (h : ∀ e ∈ es, e.key = key) :
    timeAt key es = totalTime es := by
  rw [timeAt, List.filter_eq_self.mpr fun e he => decide_eq_true (h e he)]

/-! ## 2. Answers of a map

Looking up is described once for insertion with any rule, on the list and with its order as a
hypothesis; putting and merging are two instances.  No proof after that looks at positions in the
list.  The cases of the induction follow the comparison of the new key with the first one: before
it, at it, behind it.
-/

/-- **Looking up after putting in.**  The new entity is found at its key, joined with the one that
was there; the rest is as before. -/
theorem find?_insertByKey (combine : Combine)
    (hc : ∀ x e, x.key = e.key → (combine x e).key = x.key) (e : Entity) {xs : List Entity}
    (h : xs.Pairwise (·.key < ·.key)) (k : String) :
    (insertByKey combine e xs).find? (fun x => x.key = k)
      = if e.key = k then some (((xs.find? fun x => x.key = k).map fun x => combine x e).getD e)
        else xs.find? fun x => x.key = k := by
  induction xs with
  | nil => by_cases hk : e.key = k <;> simp [insertByKey, hk]
  | cons x xs ih =>
    obtain ⟨hx, hxs⟩ := List.pairwise_cons.mp h
    unfold insertByKey
    split
    · rename_i hlt
      by_cases hk : e.key = k
      · -- all keys of the list are larger than the new one
        have hnone : (x :: xs).find? (fun y => y.key = k) = none := by
          refine List.find?_eq_none.mpr fun y hy heq => ?_
          have hkey : y.key = e.key := (of_decide_eq_true heq).trans hk.symm
          rcases List.mem_cons.mp hy with rfl | hy
          · exact String.lt_irrefl _ (hkey ▸ hlt)
          · exact String.lt_irrefl _ (hkey ▸ String.lt_trans hlt (hx y hy))
        rw [if_pos hk, hnone]
        exact List.find?_cons_of_pos (decide_eq_true hk)
      · rw [if_neg hk, List.find?_cons_of_neg (by simpa using hk)]
    · split
      · rename_i heq
        have hcombine : (combine x e).key = e.key := (hc x e heq.symm).trans heq.symm
        by_cases hk : e.key = k
        · rw [if_pos hk, List.find?_cons_of_pos (by simpa [hcombine] using hk),
            List.find?_cons_of_pos (by simpa [← heq] using hk)]
          rfl
        · rw [if_neg hk, List.find?_cons_of_neg (by simpa [hcombine] using hk),
            List.find?_cons_of_neg (by simpa [← heq] using hk)]
      · rename_i hne
        by_cases hxk : x.key = k
        · rw [if_neg fun hk => hne (hk.trans hxk.symm),
            List.find?_cons_of_pos (by simpa using hxk), List.find?_cons_of_pos (by simpa using hxk)]
        · rw [List.find?_cons_of_neg (by simpa using hxk),
            List.find?_cons_of_neg (by simpa using hxk), ih hxs]

theorem isEmpty_insertByKey (combine : Combine) (e : Entity) (xs : List Entity) :
    (insertByKey combine e xs).isEmpty = false := by
  cases xs with
  | nil => rfl
  | cons x xs =>
    unfold insertByKey
    split
    · rfl
    · split <;> rfl

namespace EntityMap

theorem get?_put (m : EntityMap) (e : Entity) (k : String) :
    (m.put e).get? k = if e.key = k then some e else m.get? k := by
  have hfind : (m.put e).get? k
      = if e.key = k then some (((m.get? k).map fun x => Combine.replace x e).getD e)
        else m.get? k :=
    find?_insertByKey .replace (fun _ _ h => h.symm) e m.sorted k
  rw [hfind]
  cases m.get? k <;> rfl

theorem get?_merge (m : EntityMap) (e : Entity) (k : String) :
    (m.merge e).get? k
      = if e.key = k then some (((m.get? k).map fun x => Combine.addTime x e).getD e)
        else m.get? k :=
  find?_insertByKey .addTime (fun _ _ _ => rfl) e m.sorted k

theorem nodup_keys (m : EntityMap) : (m.toList.map Entity.key).Nodup :=
  List.pairwise_map.mpr (m.sorted.imp String.ne_of_lt)

/-- What a map answers is what it holds. -/
theorem get?_eq_some_iff {m : EntityMap} {k : String} {e : Entity} :
    m.get? k = some e ↔ e ∈ m.toList ∧ e.key = k := by
  constructor
  · intro h
    exact ⟨List.mem_of_find?_eq_some h, by simpa using List.find?_some h⟩
  · rintro ⟨he, rfl⟩
    cases hfind : m.get? e.key with
    | none => exact absurd (decide_eq_true rfl) (List.find?_eq_none.mp hfind e he)
    | some x =>
      have hkey : x.key = e.key := by simpa using List.find?_some hfind
      rw [List.inj_on_of_nodup_map m.nodup_keys (List.mem_of_find?_eq_some hfind) he hkey]

/-- **A map is known by its answers.** -/
theorem ext_get? {m m' : EntityMap} (h : ∀ k, m.get? k = m'.get? k) : m = m' := by
  have hmem : ∀ e, e ∈ m.toList ↔ e ∈ m'.toList := by
    intro e
    have hm := get?_eq_some_iff (m := m) (k := e.key) (e := e)
    rw [h e.key, get?_eq_some_iff] at hm
    simpa using hm.symm
  have hperm : m.toList.Perm m'.toList :=
    (List.perm_ext_iff_of_nodup m.nodup_keys.of_map m'.nodup_keys.of_map).mpr hmem
  have hlist : m.toList = m'.toList :=
    List.Perm.eq_of_pairwise (fun a b _ _ hab hba => absurd hba (String.lt_asymm hab))
      m.sorted m'.sorted hperm
  cases m
  cases m'
  cases hlist
  rfl

theorem isEmpty_put (m : EntityMap) (e : Entity) : (m.put e).isEmpty = false :=
  isEmpty_insertByKey .replace e m.toList

theorem isEmpty_merge (m : EntityMap) (e : Entity) : (m.merge e).isEmpty = false :=
  isEmpty_insertByKey .addTime e m.toList

theorem isEmpty_foldl {add : EntityMap → Entity → EntityMap}
    (hadd : ∀ m e, (add m e).isEmpty = false) {es : List Entity} (h : es ≠ []) (m : EntityMap) :
    (es.foldl add m).isEmpty = false := by
  obtain ⟨front, e, rfl⟩ := List.eq_nil_or_concat' es |>.resolve_left h
  rw [List.foldl_append]
  exact hadd _ e

theorem ofList_append_singleton (es : List Entity) (e : Entity) :
    ofList (es ++ [e]) = (ofList es).put e := by
  rw [ofList, List.foldl_append]
  rfl

/-- **Entities with distinct keys all stay.** -/
theorem get?_ofList_eq_some_iff {es : List Entity} (h : (es.map Entity.key).Nodup) {k : String}
    {x : Entity} : (ofList es).get? k = some x ↔ x ∈ es ∧ x.key = k := by
  induction es using List.reverseRecOn with
  | nil => simp [ofList, get?, empty]
  | append_singleton es e ih =>
    rw [List.map_append, List.map_singleton] at h
    obtain ⟨hes, -, hdisjoint⟩ := List.nodup_append.mp h
    rw [ofList_append_singleton, get?_put, List.mem_append, List.mem_singleton]
    by_cases hek : e.key = k
    · -- none of the earlier entities has the key
      have hnew : ¬ (x ∈ es ∧ x.key = k) := fun ⟨hx, hxk⟩ =>
        hdisjoint _ (List.mem_map_of_mem hx) _ List.mem_cons_self (hxk.trans hek.symm)
      rw [if_pos hek, Option.some.injEq]
      constructor
      · rintro rfl
        exact ⟨.inr rfl, hek⟩
      · rintro ⟨hx | rfl, hxk⟩
        · exact absurd ⟨hx, hxk⟩ hnew
        · rfl
    · rw [if_neg hek, ih hes]
      constructor
      · rintro ⟨hx, hxk⟩
        exact ⟨.inl hx, hxk⟩
      · rintro ⟨hx | rfl, hxk⟩
        · exact ⟨hx, hxk⟩
        · exact absurd hxk hek

theorem mem_put {m : EntityMap} {e x : Entity} :
    x ∈ (m.put e).toList ↔ x = e ∨ x ∈ m.toList ∧ x.key ≠ e.key := by
  have hget : ∀ m : EntityMap, x ∈ m.toList ↔ m.get? x.key = some x := fun m => by
    rw [get?_eq_some_iff, and_iff_left rfl]
  rw [hget, hget, get?_put]
  by_cases hkey : e.key = x.key
  · simp [hkey, eq_comm]
  · have hne : x ≠ e := fun h => hkey (h ▸ rfl)
    simp [hkey, hne, Ne.symm hkey]

theorem mem_of_mem_ofList {es : List Entity} {x : Entity} (h : x ∈ (ofList es).toList) : x ∈ es := by
  induction es using List.reverseRecOn with
  | nil => exact h
  | append_singleton es e ih =>
    rw [ofList_append_singleton, mem_put] at h
    rcases h with rfl | ⟨hx, -⟩
    · exact List.mem_append_right es List.mem_cons_self
    · exact List.mem_append_left _ (ih hx)

/-- Entities all stay if those with one key are the same. -/
theorem mem_ofList_iff {es : List Entity} (h : ∀ a ∈ es, ∀ b ∈ es, a.key = b.key → a = b)
    {x : Entity} : x ∈ (ofList es).toList ↔ x ∈ es := by
  refine ⟨mem_of_mem_ofList, fun hx => ?_⟩
  induction es using List.reverseRecOn with
  | nil => exact hx
  | append_singleton es e ih =>
    rw [ofList_append_singleton, mem_put]
    refine Decidable.or_iff_not_imp_left.mpr fun hne => ?_
    have hes : x ∈ es := (List.mem_append.mp hx).resolve_right (by simpa using hne)
    refine ⟨ih (fun a ha b hb => h a (List.mem_append_left _ ha) b (List.mem_append_left _ hb)) hes,
      fun hkey => hne ?_⟩
    exact h x hx e (List.mem_append_right es List.mem_cons_self) hkey

/-! ## 3. Gathering

The induction is on the list from behind, since the last entity is merged last.  What has been cut
off already is added to and cut off again, which is the same as cutting off the whole sum
(`Millis.ofNat`); for the total of a map this needs that merging loses nothing but what is beyond
the ceiling (`totalTime_insertByKey`).
-/

/-- The entities merged one after the other. -/
def gather (es : List Entity) : EntityMap := es.foldl merge empty

theorem gather_append_singleton (es : List Entity) (e : Entity) :
    gather (es ++ [e]) = (gather es).merge e := by
  rw [gather, List.foldl_append]
  rfl

/-- **One entity for each key.**  It has the time of all entities with the key, cut off once. -/
theorem get?_gather {kind : EntityKind} {es : List Entity} (h : ∀ e ∈ es, e.kind = kind)
    (k : String) : (gather es).get? k
      = if k ∈ es.map Entity.key then some ⟨k, Millis.ofNat (timeAt k es), kind⟩ else none := by
  induction es using List.reverseRecOn with
  | nil => rfl
  | append_singleton es e ih =>
    have hkind : e.kind = kind := h e (List.mem_append_right _ List.mem_cons_self)
    rw [gather_append_singleton, get?_merge, ih fun x hx => h x (List.mem_append_left _ hx),
      timeAt_append, List.map_append, List.map_singleton]
    by_cases hek : e.key = k
    · have hone : timeAt k [e] = e.time := by
        rw [timeAt_eq_totalTime (by simpa using hek)]
        rfl
      rw [if_pos hek, if_pos (List.mem_append_right _ (List.mem_singleton.mpr hek.symm)), hone]
      by_cases hmem : k ∈ es.map Entity.key
      · have hval : (Millis.ofNat (timeAt k es) + e.duration)
            = Millis.ofNat (timeAt k es + e.time) := by
          refine Millis.ext ?_
          rw [Millis.val_add, Millis.val_ofNat, Millis.val_ofNat, Entity.time]
          omega
        rw [if_pos hmem, Option.map_some, Option.getD_some, Combine.addTime, hval]
      · have hval : Millis.ofNat (0 + e.time) = e.duration := by
          rw [Nat.zero_add, Entity.time, Millis.ofNat_val]
        rw [if_neg hmem, Option.map_none, Option.getD_none, timeAt_eq_zero hmem, hval, ← hek,
          ← hkind]
    · have hnil : timeAt k [e] = 0 := timeAt_eq_zero (by simpa using fun h => hek h.symm)
      have hiff : k ∈ es.map Entity.key ++ [e.key] ↔ k ∈ es.map Entity.key := by
        rw [List.mem_append, List.mem_singleton]
        exact or_iff_left fun hke => hek hke.symm
      rw [if_neg hek, hnil, Nat.add_zero]
      simp only [hiff]

theorem kind_of_mem_gather {kind : EntityKind} {es : List Entity} (h : ∀ e ∈ es, e.kind = kind) :
    ∀ e ∈ (gather es).toList, e.kind = kind := by
  intro e he
  have hget : (gather es).get? e.key = some e := get?_eq_some_iff.mpr ⟨he, rfl⟩
  rw [get?_gather h] at hget
  split at hget
  · exact (congrArg Entity.kind (Option.some.inj hget)).symm
  · exact nomatch hget

/-- Where an entity is put in or joined, its time is added; the ceiling is all that can be
missing. -/
theorem totalTime_insertByKey (e : Entity) (xs : List Entity) :
    totalTime (insertByKey .addTime e xs) ≤ totalTime xs + e.time ∧
      min (totalTime xs + e.time) Millis.ceiling ≤ totalTime (insertByKey .addTime e xs) := by
  induction xs with
  | nil =>
    simp only [insertByKey, totalTime_cons]
    omega
  | cons x xs ih =>
    unfold insertByKey
    split
    · simp only [totalTime_cons]
      omega
    · split
      · have hjoined : (Combine.addTime x e).time = min (x.time + e.time) Millis.ceiling := rfl
        simp only [totalTime_cons, hjoined]
        omega
      · simp only [totalTime_cons]
        omega

theorem val_total (m : EntityMap) : m.total.val = min (totalTime m.toList) Millis.ceiling := by
  rw [total, Millis.val_sum, List.map_map]
  rfl

theorem total_merge (m : EntityMap) (e : Entity) : (m.merge e).total = m.total + e.duration := by
  refine Millis.ext ?_
  have hinsert : totalTime (m.merge e).toList ≤ totalTime m.toList + e.duration.val ∧
      min (totalTime m.toList + e.duration.val) Millis.ceiling ≤ totalTime (m.merge e).toList :=
    totalTime_insertByKey e m.toList
  rw [Millis.val_add, val_total, val_total]
  omega

/-- **Nothing is lost and nothing is added**: all times together are cut off once. -/
theorem val_total_gather (es : List Entity) :
    (gather es).total.val = min (totalTime es) Millis.ceiling := by
  induction es using List.reverseRecOn with
  | nil => rfl
  | append_singleton es e ih =>
    have hlast : totalTime (es ++ [e]) = totalTime es + e.duration.val := totalTime_append es [e]
    rw [gather_append_singleton, total_merge, Millis.val_add, ih, hlast]
    omega

theorem totalTime_gather_le (es : List Entity) : totalTime (gather es).toList ≤ totalTime es := by
  induction es using List.reverseRecOn with
  | nil => exact Nat.le_refl 0
  | append_singleton es e ih =>
    have hlast : totalTime (es ++ [e]) = totalTime es + e.time := totalTime_append es [e]
    rw [gather_append_singleton, hlast]
    exact Nat.le_trans (totalTime_insertByKey e _).1 (Nat.add_le_add_right ih e.time)

/-- **The order of the entities does not matter**, as long as all are of one kind. -/
theorem gather_perm {kind : EntityKind} {es es' : List Entity} (h : ∀ e ∈ es, e.kind = kind)
    (hperm : es.Perm es') : gather es = gather es' := by
  refine ext_get? fun k => ?_
  rw [get?_gather h, get?_gather fun e he => h e (hperm.mem_iff.mpr he), timeAt_perm hperm]
  simp only [(hperm.map Entity.key).mem_iff]

end EntityMap

end TestLanes
