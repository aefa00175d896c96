import TestLanes.Markup.Event

/-!
# Elements

Elements that stand side by side are a list of trees, so statements about them follow the first
element into its children and then go on with the rest (`elements_induction`).  Two functions are of
use for all elements alike: their tags in the order in which they begin (`tagsOfAll`), and the
elements with none of them written as one tag (`longAll`), which has the same tags.

The type of elements is nested in lists, so its own induction principle speaks of elements and of
lists of them apart.  What is proved here is about lists, and one principle for lists is enough.
-/

namespace TestLanes.Markup.Element

/-- What holds of no elements, and of an element with others behind it if it holds of its children
and of these others, holds of all elements. -/
@[elab_as_elim]
theorem elements_induction {P : List Element → Prop} (nil : P [])
    (cons : ∀ tag children short es, P children → P es → P (.mk tag children short :: es)) :
    ∀ es, P es
  | [] => nil
  | .mk tag children short :: es =>
    cons tag children short es (elements_induction nil cons children)
      (elements_induction nil cons es)

mutual

/-- The tags of an element and of all that is in it, in the order in which they begin. -/
def tags : Element → List Tag
  | .mk tag children _ => tag :: tagsOfAll children

/-- The tags of elements one after the other. -/
def tagsOfAll : List Element → List Tag
  | [] => []
  | e :: es => tags e ++ tagsOfAll es

end

theorem tagsOfAll_cons (tag : Tag) (children : List Element) (short : Bool) (es : List Element) :
    tagsOfAll (.mk tag children short :: es) = tag :: (tagsOfAll children ++ tagsOfAll es) := rfl

theorem tagsOfAll_append (es es' : List Element) :
    tagsOfAll (es ++ es') = tagsOfAll es ++ tagsOfAll es' := by
  induction es with
  | nil => rfl
  | cons e es ih => rw [List.cons_append, tagsOfAll, ih, tagsOfAll, List.append_assoc]

mutual

/-- The element with a closing tag of its own for each opening one. -/
def long : Element → Element
  | .mk tag children _ => .mk tag (longAll children) false

/-- Elements in this form. -/
def longAll : List Element → List Element
  | [] => []
  | e :: es => long e :: longAll es

end

theorem longAll_cons (tag : Tag) (children : List Element) (short : Bool) (es : List Element) :
    longAll (.mk tag children short :: es) = .mk tag (longAll children) false :: longAll es := rfl

theorem tagsOfAll_longAll (es : List Element) : tagsOfAll (longAll es) = tagsOfAll es := by
  induction es using elements_induction with
  | nil => rfl
  | cons tag children short es ihchildren ih =>
    rw [longAll_cons, tagsOfAll_cons, tagsOfAll_cons, ihchildren, ih]

/-- An element is written as one tag, which can only be if it has no children, or as two. -/
theorem eventsOfAll_cons (tag : Tag) (children : List Element) (short : Bool)
    (es : List Element) :
    (children = [] ∧ eventsOfAll (.mk tag children short :: es) = .empty tag :: eventsOfAll es) ∨
      eventsOfAll (.mk tag children short :: es)
        = .start tag :: (eventsOfAll children ++ .stop tag.name :: eventsOfAll es) := by
  cases children with
  | nil =>
    cases short with
    | true => exact .inl ⟨rfl, rfl⟩
    | false => exact .inr rfl
  | cons e children =>
    refine .inr ?_
    rw [eventsOfAll, events, List.cons_append, List.append_assoc, List.singleton_append]
    exact fun h => nomatch h

end TestLanes.Markup.Element
