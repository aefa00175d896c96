import Mathlib.Data.List.Induction
import TestLanes.Proofs.Steps
import TestLanes.Report.Reader

/-!
# Fields of a tag

The attributes of a tag are read one after the other, and of several for one field the last one
stays.  If all of them have texts, the fields that are read are the texts of these last attributes
(`exists_ofRun`), so a field of a tag is a matter of the tag alone (`fieldText?`).

The induction is from the end of the attributes, since the last attribute for a field is what
counts: one more attribute sets its field, if the reader uses it, and leaves the others as they are.
A tag with a malformed attribute is not read at all, nor is one whose attribute for a field in use
has no text; `Markup.Tag.Decodes` leaves out both.
-/

namespace TestLanes

/-- The attributes of a tag are well formed, and each has a text. -/
def Markup.Tag.Decodes (tag : Markup.Tag) : Prop :=
  tag.run.malformed = false ∧ ∀ a ∈ tag.run.attributes, a.text.toOption.isSome = true

instance (tag : Markup.Tag) : Decidable tag.Decodes :=
  inferInstanceAs (Decidable (_ ∧ _))

namespace Report

open Markup (Attribute Tag)

/-- The text of the last attribute for a field. -/
def lastText? (field : Field) (attributes : List Attribute) : Option String :=
  (attributes.filter fun a => Field.ofName? a.name = some field).getLast?.bind
    fun a => a.text.toOption

/-- The text that a tag gives a field. -/
def fieldText? (field : Field) (tag : Tag) : Option String := lastText? field tag.run.attributes

theorem lastText?_append_singleton (field : Field) (attributes : List Attribute) (a : Attribute) :
    lastText? field (attributes ++ [a])
      = if Field.ofName? a.name = some field then a.text.toOption
        else lastText? field attributes := by
  unfold lastText?
  rw [List.filter_append]
  by_cases h : Field.ofName? a.name = some field
  · rw [if_pos h, List.filter_cons_of_pos (by simpa using h), List.filter_nil,
      List.getLast?_concat, Option.bind_some]
  · rw [if_neg h, List.filter_cons_of_neg (by simpa using h), List.filter_nil, List.append_nil]

namespace Fields

/-- The text of a field. -/
def get (fs : Fields) : Field → Option String
  | .name => fs.name
  | .className => fs.className
  | .time => fs.time
  | .blocks => fs.blocks

theorem get_set (fs : Fields) (text : String) (field f : Field) :
    (fs.set text field).get f = if field = f then some text else fs.get f := by
  cases field <;> cases f <;> rfl

/-- One attribute more, if it has a text: it gives its field the text if the field is used. -/
theorem exists_addAttribute (used : Field → Bool) (fs : Fields) {a : Attribute}
    (h : a.text.toOption.isSome = true) :
    ∃ fs', Fields.addAttribute used fs a = .ok fs' ∧ ∀ f, used f = true →
      fs'.get f = if Field.ofName? a.name = some f then a.text.toOption else fs.get f := by
  obtain ⟨text, htext⟩ := Option.isSome_iff_exists.mp h
  have hok : a.text = .ok text := by
    cases hread : a.text with
    | error e => rw [hread] at htext; exact nomatch htext
    | ok text' => rw [hread] at htext; exact congrArg _ (Option.some.inj htext)
  unfold addAttribute
  cases hname : (Field.ofName? a.name).filter used with
  | none =>
    refine ⟨fs, rfl, fun f hf => (if_neg fun hfield => ?_).symm⟩
    rw [hfield, Option.filter_some, if_pos hf] at hname
    exact nomatch hname
  | some field =>
    obtain ⟨hfield, -⟩ := Option.filter_eq_some_iff.mp hname
    refine ⟨fs.set text field, by simp only [hok], fun f hf => ?_⟩
    rw [get_set, hfield, htext]
    simp only [Option.some.injEq]

/-- **The fields of a tag** are the texts of its last attributes for them. -/
theorem exists_ofRun (used : Field → Bool) {tag : Tag} (h : tag.Decodes) :
    ∃ fs, Fields.ofRun used tag.run = .ok fs ∧
      ∀ f, used f = true → fs.get f = fieldText? f tag := by
  obtain ⟨hwell, htexts⟩ := h
  have hfold : ∃ fs, tag.run.attributes.foldlM (addAttribute used) {} = .ok fs ∧
      ∀ f, used f = true → fs.get f = fieldText? f tag := by
    unfold fieldText?
    generalize tag.run.attributes = attributes at htexts
    induction attributes using List.reverseRecOn with
    | nil => exact ⟨{}, rfl, fun f _ => by cases f <;> rfl⟩
    | append_singleton attributes a ih =>
      obtain ⟨fs, hfs, hget⟩ := ih fun a' ha' => htexts a' (List.mem_append_left _ ha')
      obtain ⟨fs', hfs', hget'⟩ := exists_addAttribute used fs
        (htexts a (List.mem_append_right _ List.mem_cons_self))
      refine ⟨fs', ?_, fun f hf => ?_⟩
      · rw [List.foldlM_append, hfs]
        simp only [List.foldlM_cons, List.foldlM_nil, bind, Except.bind, hfs', pure, Except.pure]
      · rw [hget' f hf, hget f hf, lastText?_append_singleton]
  obtain ⟨fs, hfs, hget⟩ := hfold
  refine ⟨fs, ?_, hget⟩
  simp only [ofRun, hfs, hwell, bind, Except.bind, Bool.false_eq_true, if_false]

end Fields

end Report

end TestLanes
