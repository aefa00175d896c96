import Mathlib.Data.List.Basic
import Mathlib.Data.List.Induction

/-!
# Things sorted into buckets

Each thing has a key.  The buckets of different keys, one after the other, hold the things that have
one of the keys, each once (`flatMap_filter_perm`).  The keys of some things in the order in which
they are first seen are `(xs.map key).eraseDups`; one more thing adds at most its own key, at the
end (`eraseDups_append_singleton`).

A row of blocks, each of which holds things with one key, gives its blocks back
(`filter_flatMap_blocks`) and shows their keys in the order of the blocks
(`eraseDups_map_flatMap_blocks`), so sorting a row of buckets once more changes nothing, even if
some of them have been emptied (`flatMap_buckets_of_blocks`).
-/

namespace TestLanes

variable {α κ : Type} [DecidableEq κ]

/-! ## 1. Keys in the order in which they are first seen

`eraseDups` keeps the first of several equal keys.  The keys of two parts are those of the first
part, and then those of the second part that the first one does not have; all lemmas here are cases
of this (`eraseDups_append_eq`).
-/

/-- A key that has been seen changes nothing, and a new one comes last. -/
theorem eraseDups_append_singleton (ks : List κ) (k : κ) :
    (ks ++ [k]).eraseDups = if k ∈ ks.eraseDups then ks.eraseDups else ks.eraseDups ++ [k] := by
  rw [List.eraseDups_append]
  by_cases hk : k ∈ ks
  · rw [if_pos (List.mem_eraseDups.mpr hk)]
    simp [List.removeAll, hk]
  · rw [if_neg fun hmem => hk (List.mem_eraseDups.mp hmem)]
    simp [List.removeAll, hk, List.eraseDups_cons]

theorem nodup_eraseDups (ks : List κ) : ks.eraseDups.Nodup := by
  induction ks using List.reverseRecOn with
  | nil => exact List.nodup_nil
  | append_singleton ks k ih =>
    rw [eraseDups_append_singleton]
    split
    · exact ih
    · rename_i hk
      exact List.nodup_append.mpr ⟨ih, List.pairwise_singleton _ k, fun a ha b hb hab =>
        hk (List.mem_singleton.mp hb ▸ hab ▸ ha)⟩

theorem eraseDups_append_eq (ks ls : List κ) :
    (ks ++ ls).eraseDups = ks.eraseDups ++ ls.eraseDups.filter (· ∉ ks) := by
  induction ls using List.reverseRecOn with
  | nil => simp
  | append_singleton ls l ih =>
    rw [← List.append_assoc, eraseDups_append_singleton, eraseDups_append_singleton, ih]
    simp only [List.mem_append, List.mem_filter, List.mem_eraseDups, decide_eq_true_eq]
    by_cases hk : l ∈ ks <;> by_cases hl : l ∈ ls <;> simp [hk, hl]

theorem eraseDups_eq_singleton {ks : List κ} {k : κ} (hne : ks ≠ []) (h : ∀ l ∈ ks, l = k) :
    ks.eraseDups = [k] := by
  cases ks with
  | nil => exact absurd rfl hne
  | cons l ls =>
    have hnone : (ls.filter fun x => !x == l) = [] :=
      List.filter_eq_nil_iff.mpr fun x hx => by
        simp [h x (List.mem_cons_of_mem l hx), h l List.mem_cons_self]
    rw [List.eraseDups_cons, hnone, h l List.mem_cons_self, List.eraseDups_nil]

/-- What is first seen in two parts depends on what is first seen in each. -/
theorem eraseDups_append_congr {ks ks' ls ls' : List κ} (hk : ks.eraseDups = ks'.eraseDups)
    (hl : ls.eraseDups = ls'.eraseDups) : (ks ++ ls).eraseDups = (ks' ++ ls').eraseDups := by
  have hmem : ∀ k, k ∈ ks ↔ k ∈ ks' := fun k => by
    rw [← List.mem_eraseDups, hk, List.mem_eraseDups]
  simp only [eraseDups_append_eq, hk, hl, hmem]

/-! ## 2. Buckets

The induction is on the keys: the bucket of the first key is split off, and none of the things that
are left has this key, as no key is listed twice.
-/

/-- **The buckets hold what has their keys**, each thing once. -/
theorem flatMap_filter_perm (key : α → κ) (xs : List α) {keys : List κ} (h : keys.Nodup) :
    (keys.flatMap fun k => xs.filter fun x => key x = k).Perm
      (xs.filter fun x => key x ∈ keys) := by
  induction keys with
  | nil => simp
  | cons k ks ih =>
    obtain ⟨hk, hks⟩ := List.nodup_cons.mp h
    have hfirst : (xs.filter fun x => key x ∈ k :: ks).filter (fun x => key x = k)
        = xs.filter fun x => key x = k := by
      rw [List.filter_filter]
      refine List.filter_congr fun x _ => ?_
      by_cases hx : key x = k <;> simp [hx]
    have hrest : (xs.filter fun x => key x ∈ k :: ks).filter (fun x => !decide (key x = k))
        = xs.filter fun x => key x ∈ ks := by
      rw [List.filter_filter]
      refine List.filter_congr fun x _ => ?_
      by_cases hx : key x = k
      · simp [hx, hk]
      · simp [hx]
    have hsplit := List.filter_append_perm (fun x => decide (key x = k))
      (xs.filter fun x => key x ∈ k :: ks)
    rw [hfirst, hrest] at hsplit
    rw [List.flatMap_cons]
    exact ((ih hks).append_left _).trans hsplit

theorem flatMap_filter_perm_self {key : α → κ} {xs : List α} {keys : List κ} (h : keys.Nodup)
    (hxs : ∀ x ∈ xs, key x ∈ keys) :
    (keys.flatMap fun k => xs.filter fun x => key x = k).Perm xs := by
  have hperm := flatMap_filter_perm key xs h
  rwa [List.filter_eq_self.mpr fun x hx => decide_eq_true (hxs x hx)] at hperm

/-! ## 3. Blocks in a row

A row of blocks is what sorting makes.  Narrowing a sorted row may leave blocks empty; these are
skipped when the row is sorted again, so they are taken out first.
-/

/-- The things with a key are those of its block. -/
theorem filter_flatMap_blocks {key : α → κ} {blocks : κ → List α} {keys : List κ} (h : keys.Nodup)
    (hkey : ∀ k ∈ keys, ∀ x ∈ blocks k, key x = k) (k : κ) :
    ((keys.flatMap blocks).filter fun x => key x = k) = if k ∈ keys then blocks k else [] := by
  induction keys with
  | nil => rfl
  | cons l ls ih =>
    obtain ⟨hl, hls⟩ := List.nodup_cons.mp h
    have hfirst : ∀ x ∈ blocks l, key x = l := hkey l List.mem_cons_self
    rw [List.flatMap_cons, List.filter_append,
      ih hls fun k hk => hkey k (List.mem_cons_of_mem l hk)]
    by_cases hk : k = l
    · subst hk
      have hall : (blocks k).filter (fun x => key x = k) = blocks k :=
        List.filter_eq_self.mpr fun x hx => decide_eq_true (hfirst x hx)
      rw [if_neg hl, if_pos List.mem_cons_self, hall, List.append_nil]
    · have hnone : (blocks l).filter (fun x => key x = k) = [] :=
        List.filter_eq_nil_iff.mpr fun x hx heq =>
          hk ((of_decide_eq_true heq).symm.trans (hfirst x hx))
      rw [hnone, List.nil_append]
      simp only [List.mem_cons, hk, false_or]

/-- The keys are first seen in the order of the blocks, if no block is empty. -/
theorem eraseDups_map_flatMap_blocks {key : α → κ} {blocks : κ → List α} {keys : List κ}
    (h : keys.Nodup) (hkey : ∀ k ∈ keys, ∀ x ∈ blocks k, key x = k)
    (hne : ∀ k ∈ keys, blocks k ≠ []) : ((keys.flatMap blocks).map key).eraseDups = keys := by
  induction keys with
  | nil => rfl
  | cons k ks ih =>
    obtain ⟨hk, hks⟩ := List.nodup_cons.mp h
    have hrest := ih hks (fun l hl => hkey l (List.mem_cons_of_mem k hl))
      fun l hl => hne l (List.mem_cons_of_mem k hl)
    have hfirst : ∀ l ∈ (blocks k).map key, l = k := by
      intro l hl
      obtain ⟨x, hx, rfl⟩ := List.mem_map.mp hl
      exact hkey k List.mem_cons_self x hx
    have hnonempty : (blocks k).map key ≠ [] := fun hnil =>
      hne k List.mem_cons_self (List.map_eq_nil_iff.mp hnil)
    have hlater : ks.filter (· ∉ (blocks k).map key) = ks :=
      List.filter_eq_self.mpr fun l hl => decide_eq_true fun hmem => hk (hfirst l hmem ▸ hl)
    rw [List.flatMap_cons, List.map_append, eraseDups_append_eq, hrest, hlater,
      eraseDups_eq_singleton hnonempty hfirst, List.singleton_append]

theorem flatMap_filter_isEmpty {κ : Type} (blocks : κ → List α) (keys : List κ) :
    (keys.filter fun k => !(blocks k).isEmpty).flatMap blocks = keys.flatMap blocks := by
  induction keys with
  | nil => rfl
  | cons k ks ih =>
    cases hk : (blocks k).isEmpty with
    | true =>
      rw [List.filter_cons_of_neg (by simp [hk]), ih, List.flatMap_cons, List.isEmpty_iff.mp hk,
        List.nil_append]
    | false =>
      rw [List.filter_cons_of_pos (by simp [hk]), List.flatMap_cons, List.flatMap_cons, ih]

/-- **A row of blocks is sorted already**: its buckets, in the order in which their keys are first
seen, are the row again. -/
theorem flatMap_buckets_of_blocks {key : α → κ} {blocks : κ → List α} {keys : List κ} {xs : List α}
    (hxs : xs = keys.flatMap blocks) (h : keys.Nodup) (hkey : ∀ k ∈ keys, ∀ x ∈ blocks k, key x = k) :
    ((xs.map key).eraseDups.flatMap fun k => xs.filter fun x => key x = k) = xs := by
  let full := keys.filter fun k => !(blocks k).isEmpty
  have hfull : full.Nodup := h.filter _
  have hkeyFull : ∀ k ∈ full, ∀ x ∈ blocks k, key x = k :=
    fun k hk => hkey k (List.mem_filter.mp hk).1
  have hne : ∀ k ∈ full, blocks k ≠ [] := by
    intro k hk hnil
    simpa [hnil] using (List.mem_filter.mp hk).2
  obtain rfl : xs = full.flatMap blocks := hxs.trans (flatMap_filter_isEmpty blocks keys).symm
  rw [eraseDups_map_flatMap_blocks hfull hkeyFull hne]
  refine List.flatMap_congr fun k hk => ?_
  rw [filter_flatMap_blocks hfull hkeyFull, if_pos hk]

end TestLanes
