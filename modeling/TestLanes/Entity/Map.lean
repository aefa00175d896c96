import TestLanes.Entity.Basic

/-!
# Entity maps

Entities with distinct keys, in ascending order of their keys.  `put` replaces the entity of a key,
`merge` adds to its time.

The order is a field of the map, so that distinctness of the keys and the position of an entity need
no hypothesis later.  Both operations are `insertByKey` with a rule for two entities of one key; the
only thing asked of such a rule is that it leaves the key as it is, and then the insertion keeps the
order (`pairwise_insertByKey`).
-/

namespace TestLanes

/-- The entity that stays when another one with its key arrives. -/
abbrev Combine := Entity → Entity → Entity

/-- Puts an entity in its place; `combine` joins it with the one that has the same key. -/
def insertByKey (combine : Combine) (e : Entity) : List Entity → List Entity
  | [] => [e]
  | x :: xs =>
    if e.key < x.key then e :: x :: xs
    else if e.key = x.key then combine x e :: xs
    else x :: insertByKey combine e xs

theorem lt_of_mem_insertByKey {combine : Combine}
    (hc : ∀ x e, x.key = e.key → (combine x e).key = x.key) {e : Entity} {k : String}
    (he : k < e.key) {xs : List Entity} (hxs : ∀ x ∈ xs, k < x.key) :
    ∀ y ∈ insertByKey combine e xs, k < y.key := by
  induction xs with
  | nil => simpa [insertByKey] using he
  | cons x xs ih =>
    intro y hy
    have hx : k < x.key := hxs x List.mem_cons_self
    have hxs' : ∀ z ∈ xs, k < z.key := fun z hz => hxs z (List.mem_cons_of_mem _ hz)
    unfold insertByKey at hy
    split at hy
    · rcases List.mem_cons.1 hy with rfl | hy
      · exact he
      · exact hxs y hy
    · split at hy
      · next h =>
        rcases List.mem_cons.1 hy with rfl | hy
        · rw [hc x e h.symm]; exact hx
        · exact hxs' y hy
      · rcases List.mem_cons.1 hy with rfl | hy
        · exact hx
        · exact ih hxs' y hy

theorem pairwise_insertByKey (combine : Combine)
    (hc : ∀ x e, x.key = e.key → (combine x e).key = x.key) (e : Entity) {xs : List Entity}
    (h : xs.Pairwise (·.key < ·.key)) : (insertByKey combine e xs).Pairwise (·.key < ·.key) := by
  induction xs with
  | nil => simp [insertByKey]
  | cons x xs ih =>
    have hx := List.pairwise_cons.1 h
    unfold insertByKey
    split
    · next hlt =>
      refine List.pairwise_cons.2 ⟨fun y hy => ?_, h⟩
      rcases List.mem_cons.1 hy with rfl | hy
      · exact hlt
      · exact String.lt_trans hlt (hx.1 y hy)
    · next hnlt =>
      split
      · next heq =>
        refine List.pairwise_cons.2 ⟨fun y hy => ?_, hx.2⟩
        rw [hc x e heq.symm]; exact hx.1 y hy
      · next hne =>
        refine List.pairwise_cons.2 ⟨?_, ih hx.2⟩
        have hlt : x.key < e.key := by
          refine Decidable.byContradiction fun h => hne ?_
          exact String.le_antisymm (String.not_lt.1 h) (String.not_lt.1 hnlt)
        exact lt_of_mem_insertByKey hc hlt hx.1

/-- The new entity takes the place of the old one. -/
def Combine.replace : Combine := fun _ new => new

/-- The time of the new entity is added to the old one. -/
def Combine.addTime : Combine := fun old new => { old with duration := old.duration + new.duration }

/-- Entities by key. -/
structure EntityMap where
  toList : List Entity
  sorted : toList.Pairwise (·.key < ·.key)

namespace EntityMap

def empty : EntityMap := ⟨[], .nil⟩

instance : Inhabited EntityMap := ⟨empty⟩

/-- Puts an entity in, in place of the one with its key. -/
def put (m : EntityMap) (e : Entity) : EntityMap :=
  ⟨insertByKey .replace e m.toList, pairwise_insertByKey .replace (fun _ _ h => h.symm) e m.sorted⟩

/-- Puts an entity in, or adds its time to the one with its key. -/
def merge (m : EntityMap) (e : Entity) : EntityMap :=
  ⟨insertByKey .addTime e m.toList, pairwise_insertByKey .addTime (fun _ _ _ => rfl) e m.sorted⟩

def ofList (es : List Entity) : EntityMap := es.foldl put empty

def get? (m : EntityMap) (key : String) : Option Entity := m.toList.find? (·.key = key)

def size (m : EntityMap) : Nat := m.toList.length

def isEmpty (m : EntityMap) : Bool := m.toList.isEmpty

/-- The time of all entities together, cut off at the ceiling. -/
def total (m : EntityMap) : Millis := Millis.sum (m.toList.map (·.duration))

end EntityMap

end TestLanes
