import TestLanes.Plan.Text
import TestLanes.Proofs.Json.Range
import TestLanes.Proofs.Json.RoundTrip
import TestLanes.Summary.Decode

/-!
# Summaries are read as they were written

A summary whose numbers have 64 bits is read from its text, on one line or on many, as that very
summary.  Numbers that are read never have more, so this holds of every summary that any text gives
(`fits_of_ofJson?`): writing what was read and reading it again changes nothing
(`read_text_roundTrip`).  Between text and summary stands a JSON value, so the argument has two
halves: what is written for a summary is a value of which the text tells all (`isPlain_toJson`), and
that value is decoded to the summary (`ofJson?_toJson`).
-/

namespace TestLanes

open Json (Value required nullable structure?_object mapM_eq_some_self exists_of_mem_mapM
  exists_of_required exists_of_nullable exists_of_items?)
open Text (wordBound)

/-! ## 1. Numbers of 64 bits

Numbers of a summary are natural numbers of any size here.  What `Fits` asks of them is all that a
program with 64-bit numbers guarantees, and it is asked of a plan in the same way: its lanes are
numbered from zero, so their number may be the bound itself.
-/

/-- All numbers of the statistics have 64 bits. -/
def Stats.Fits (s : Stats) : Prop := ∀ n ∈ s.numbers, n < wordBound

/-- The numbers of a lane have 64 bits. -/
structure LaneSummary.Fits (l : LaneSummary) : Prop where
  index : l.index < wordBound
  patternCount : l.patternCount < wordBound

/-- All numbers of a summary have 64 bits. -/
structure Summary.Fits (s : Summary) : Prop where
  stats : ∀ x, s.stats = some x → x.Fits
  lanes : ∀ l ∈ s.lanes, l.Fits

/-- The lanes and patterns of a plan are counted with 64 bits, and so are its statistics. -/
structure Plan.Fits (p : Plan) : Prop where
  stats : ∀ x, p.stats = some x → x.Fits
  lanes : p.selections.length ≤ wordBound
  patterns : ∀ s ∈ p.selections, s.patterns.length < wordBound

/-- Each lane of a summary is one of the plan. -/
theorem Plan.exists_of_mem_laneSummaries {directory : Option String} {lane : Nat}
    {selections : List Selection} {l : LaneSummary}
    (h : l ∈ laneSummaries directory lane selections) :
    l.index < lane + selections.length ∧ ∃ s ∈ selections, l.patternCount = s.patterns.length := by
  induction selections generalizing lane with
  | nil => exact absurd h List.not_mem_nil
  | cons s selections ih =>
    rw [List.length_cons]
    rcases List.mem_cons.mp h with rfl | h
    · exact ⟨by dsimp only; omega, s, List.mem_cons_self, rfl⟩
    · obtain ⟨hindex, t, ht, hcount⟩ := ih h
      exact ⟨by omega, t, List.mem_cons_of_mem s ht, hcount⟩

/-- **The summary of a plan that is counted with 64 bits has 64 bits.** -/
theorem Plan.Fits.summary {p : Plan} (hp : p.Fits) (directory : Option String) :
    (p.summary directory).Fits where
  stats := hp.stats
  lanes l hl := by
    obtain ⟨hindex, s, hs, hcount⟩ := exists_of_mem_laneSummaries hl
    have hlanes := hp.lanes
    exact ⟨by omega, hcount ▸ hp.patterns s hs⟩

/-! ## 2. What is written for a summary

One lemma for each part of a summary, from the statistics to the whole.  A structure is an object
whose names are zipped with its values, so it is plain if its values are.
-/

namespace Json

/-- A number of 64 bits. -/
theorem isPlain_ofNat {n : Nat} (h : n < wordBound) : (Value.ofNat n).IsPlain := .number h

/-- A text or null. -/
theorem isPlain_ofOption (s : Option String) : (Value.ofOption s).IsPlain := by
  cases s with
  | none => exact .null
  | some s => exact .string s

/-- An object of plain values. -/
theorem isPlain_object_zip {names : List String} {values : List Value}
    (h : ∀ v ∈ values, v.IsPlain) : (Value.object (names.zip values)).IsPlain :=
  .object fun f hf => h f.2 (List.of_mem_zip (show (f.1, f.2) ∈ names.zip values from hf)).2

end Json

theorem Stats.isPlain_toJson {s : Stats} (hs : s.Fits) : s.toJson.IsPlain := by
  refine Json.isPlain_object_zip fun v hv => ?_
  obtain ⟨n, hn, rfl⟩ := List.mem_map.mp hv
  exact Json.isPlain_ofNat (hs n hn)

theorem Source.isPlain_toJson (s : Source) : s.toJson.IsPlain := by
  cases s with
  | reference build stage =>
    refine .object (List.forall_mem_cons.mpr ⟨.string _, List.forall_mem_cons.mpr ⟨.string _, ?_⟩⟩)
    exact List.forall_mem_singleton.mpr (Json.isPlain_ofOption stage)
  | estimate => exact .object (List.forall_mem_singleton.mpr (.string _))
  | nothing => exact .object (List.forall_mem_singleton.mpr (.string _))

theorem LaneSummary.isPlain_toJson {l : LaneSummary} (hl : l.Fits) : l.toJson.IsPlain := by
  refine Json.isPlain_object_zip ?_
  simp only [List.forall_mem_cons]
  exact ⟨Json.isPlain_ofNat hl.index, .string _, Json.isPlain_ofNat hl.patternCount,
    Json.isPlain_ofOption l.path, List.forall_mem_nil _⟩

/-- **A summary of 64 bits is plain.** -/
theorem Summary.isPlain_toJson {s : Summary} (hs : s.Fits) : s.toJson.IsPlain := by
  refine Json.isPlain_object_zip ?_
  simp only [List.forall_mem_cons]
  refine ⟨s.source.isPlain_toJson, .string _, ?_, .array fun v hv => ?_, List.forall_mem_nil _⟩
  · cases hstats : s.stats with
    | none => exact .null
    | some x => exact Stats.isPlain_toJson (hs.stats x hstats)
  · obtain ⟨l, hl, rfl⟩ := List.mem_map.mp hv
    exact LaneSummary.isPlain_toJson (hs.lanes l hl)

/-! ## 3. What is decoded is what was written

Again one lemma for each part.  The fields of an object are looked up by their names, which are
distinct, so each of them is found with the value that was written for it (`structure?_object`).
-/

namespace Json

/-- A text or null is decoded as such. -/
theorem nullable_text?_ofOption (s : Option String) :
    nullable Value.text? (some (.ofOption s)) = some s := by
  cases s <;> rfl

end Json

theorem Stats.ofJson?_toJson (s : Stats) : ofJson? s.toJson = some s := by
  have hfields : s.toJson.structure? fieldNames = some ((s.numbers.map Value.ofNat).map some) :=
    structure?_object (by decide) rfl
  have hnumbers : ((s.numbers.map Value.ofNat).map some).mapM (required Value.natural?)
      = some s.numbers := by
    rw [List.mapM_map, List.mapM_map]
    exact mapM_eq_some_self fun n _ => rfl
  simp only [ofJson?, hfields, Option.bind_eq_bind, Option.bind_some, hnumbers]
  rfl

theorem Source.ofJson?_toJson (s : Source) : ofJson? s.toJson = some s := by
  cases s with
  | reference build stage => cases stage <;> rfl
  | estimate => rfl
  | nothing => rfl

theorem SelectionKind.variant?_name (k : SelectionKind) :
    (Value.string k.name).variant? ofName? = some k := by
  cases k <;> decide

theorem LaneSummary.ofJson?_toJson (l : LaneSummary) : ofJson? l.toJson = some l := by
  have hfields : l.toJson.structure? fieldNames = some _ := structure?_object (by decide) rfl
  simp only [ofJson?, hfields, Option.bind_eq_bind, Option.bind_some, List.map_cons, List.map_nil,
    required, SelectionKind.variant?_name, Json.nullable_text?_ofOption]
  rfl

/-- **A summary is decoded as it was written.** -/
theorem Summary.ofJson?_toJson (s : Summary) : ofJson? s.toJson = some s := by
  have hfields : s.toJson.structure? fieldNames = some _ := structure?_object (by decide) rfl
  have hstats : nullable Stats.ofJson? (some ((s.stats.map Stats.toJson).getD .null))
      = some s.stats := by
    cases s.stats with
    | none => rfl
    | some x => exact congrArg (Option.map some) x.ofJson?_toJson
  have hlanes : (Value.array (s.lanes.map LaneSummary.toJson)).items? LaneSummary.ofJson?
      = some s.lanes := by
    rw [Value.items?, List.mapM_map]
    exact mapM_eq_some_self fun l _ => l.ofJson?_toJson
  simp only [ofJson?, hfields, Option.bind_eq_bind, Option.bind_some, List.map_cons, List.map_nil,
    required, Source.ofJson?_toJson, hstats, hlanes]
  rfl

/-! ## 4. What is decoded has 64 bits

Values that are parsed from a text are in range: no natural number in them has more than 64 bits.  A
structure may have been read from an object or from an array of its values, and in either case what
its fields are read from is in range too.
-/

namespace Json

/-- The values of the fields of a structure in range. -/
theorem inRange_of_structure? {v w : Value} (hv : v.InRange) {names : List String}
    {fields : List (Option Value)} (h : v.structure? names = some fields)
    (hw : some w ∈ fields) : w.InRange := by
  cases hv with
  | object hfields =>
    obtain ⟨name, -, hname⟩ := exists_of_mem_mapM h hw
    exact hfields _ (mem_of_field? hname)
  | @array items hitems =>
    simp only [Value.structure?] at h
    split at h
    · cases h
      rcases List.mem_append.mp hw with hw | hw
      · obtain ⟨x, hx, heq⟩ := List.mem_map.mp hw
        cases heq
        exact hitems _ hx
      · cases List.eq_of_mem_replicate hw
    · cases h
  | _ => cases h

/-- What is decoded as a natural number is one. -/
theorem natural?_eq_some {v : Value} {n : Nat} (h : v.natural? = some n) :
    v = .number (.natural n) := by
  unfold Value.natural? at h
  split at h
  · cases h
    rfl
  · cases h

/-- A natural number of a value in range. -/
theorem lt_of_required_natural? {fields : List (Option Value)}
    (hfields : ∀ w, some w ∈ fields → w.InRange) {o : Option Value} (ho : o ∈ fields) {n : Nat}
    (h : required Value.natural? o = some n) : n < wordBound := by
  cases o with
  | none => cases h
  | some w =>
    have hnumber := hfields w ho
    rw [natural?_eq_some h] at hnumber
    cases hnumber with
    | number hn => exact hn

end Json

theorem Stats.fits_of_ofJson? {v : Value} (hv : v.InRange) {s : Stats} (h : ofJson? v = some s) :
    s.Fits := by
  obtain ⟨fields, hfields, h⟩ := Option.bind_eq_some_iff.mp h
  obtain ⟨ns, hns, h⟩ := Option.bind_eq_some_iff.mp h
  split at h
  · cases h
    intro n hn
    obtain ⟨o, ho, hread⟩ := exists_of_mem_mapM hns hn
    exact Json.lt_of_required_natural? (fun w hw => Json.inRange_of_structure? hv hfields hw) ho hread
  · cases h

theorem LaneSummary.fits_of_ofJson? {v : Value} (hv : v.InRange) {l : LaneSummary}
    (h : ofJson? v = some l) : l.Fits := by
  obtain ⟨fields, hfields, h⟩ := Option.bind_eq_some_iff.mp h
  have hrange := fun w hw => Json.inRange_of_structure? (w := w) hv hfields hw
  split at h
  · obtain ⟨index, hindex, h⟩ := Option.bind_eq_some_iff.mp h
    obtain ⟨kind, -, h⟩ := Option.bind_eq_some_iff.mp h
    obtain ⟨count, hcount, h⟩ := Option.bind_eq_some_iff.mp h
    obtain ⟨path, -, h⟩ := Option.bind_eq_some_iff.mp h
    cases h
    exact ⟨Json.lt_of_required_natural? hrange (by simp) hindex,
      Json.lt_of_required_natural? hrange (by simp) hcount⟩
  · cases h

/-- **A summary that is decoded has 64 bits.** -/
theorem Summary.fits_of_ofJson? {v : Value} (hv : v.InRange) {s : Summary}
    (h : ofJson? v = some s) : s.Fits := by
  obtain ⟨fields, hfields, h⟩ := Option.bind_eq_some_iff.mp h
  have hrange := fun w hw => Json.inRange_of_structure? (w := w) hv hfields hw
  split at h
  · obtain ⟨source, -, h⟩ := Option.bind_eq_some_iff.mp h
    obtain ⟨granularity, -, h⟩ := Option.bind_eq_some_iff.mp h
    obtain ⟨stats, hstats, h⟩ := Option.bind_eq_some_iff.mp h
    obtain ⟨lanes, hlanes, h⟩ := Option.bind_eq_some_iff.mp h
    cases h
    refine ⟨fun x hx => ?_, fun l hl => ?_⟩
    · obtain rfl : stats = some x := hx
      obtain ⟨w, rfl, hread⟩ := exists_of_nullable hstats
      exact Stats.fits_of_ofJson? (hrange w (by simp)) hread
    · obtain ⟨w, rfl, hread⟩ := exists_of_required hlanes
      obtain ⟨items, rfl, hread⟩ := exists_of_items? hread
      obtain ⟨x, hx, hlane⟩ := exists_of_mem_mapM hread hl
      have harray := hrange (.array items) (by simp)
      cases harray with
      | array hitems => exact LaneSummary.fits_of_ofJson? (hitems x hx) hlane
  · cases h

/-! ## 5. Texts

The layout of a text does not matter to the parser, so both layouts give the value that was written,
with a line end after it or without.
-/

namespace Summary

/-- **A summary of 64 bits is read as it was written**, on one line or on many, with an end of line
or without. -/
theorem read_written {s : Summary} (hs : s.Fits) :
    read (Json.compact s.toJson) = some s ∧ read (Json.compact s.toJson ++ "\n") = some s ∧
      read (Json.pretty s.toJson) = some s ∧ read (Json.pretty s.toJson ++ "\n") = some s := by
  have hplain := isPlain_toJson hs
  have hread : ∀ {text}, Json.parse text = some s.toJson → read text = some s := by
    intro text htext
    rw [read, htext, Option.bind_some, ofJson?_toJson]
  obtain ⟨hcompact, hcompactLine⟩ := Json.parse_compact hplain
  obtain ⟨hpretty, hprettyLine⟩ := Json.parse_pretty hplain
  exact ⟨hread hcompact, hread hcompactLine, hread hpretty, hread hprettyLine⟩

/-- **A summary that is read has 64 bits.** -/
theorem fits_of_read {text : String} {s : Summary} (h : read text = some s) : s.Fits := by
  obtain ⟨v, hv, hs⟩ := Option.bind_eq_some_iff.mp h
  exact fits_of_ofJson? (Json.inRange_of_parse hv) hs

/-- **Summaries go through JSON and back.**  A summary whose numbers have 64 bits is read from
either of its texts as that summary.  Of every text that gives a summary, the summary is read again
from its text on one line, which is then written again as the same text.  And the text that is shown
for a plan in either format gives the summary of that plan, with the directory if there is one. -/
theorem read_roundTrip :
    (∀ s : Summary, s.Fits →
      read (Json.compact s.toJson) = some s ∧ read (Json.pretty s.toJson) = some s) ∧
    (∀ text s, read text = some s →
      read (Json.compact s.toJson) = some s ∧
        (read (Json.compact s.toJson)).map (fun t => Json.compact t.toJson)
          = some (Json.compact s.toJson)) ∧
    ∀ (p : Plan) (directory : Option String) (colours : Plan.Colours), p.Fits →
      read (p.text .json colours directory) = some (p.summary directory) ∧
        read (p.text .jsonPretty colours directory) = some (p.summary directory) := by
  refine ⟨fun s hs => ?_, fun text s h => ?_, fun p directory colours hp => ?_⟩
  · obtain ⟨hcompact, -, hpretty, -⟩ := read_written hs
    exact ⟨hcompact, hpretty⟩
  · obtain ⟨hcompact, -⟩ := read_written (fits_of_read h)
    exact ⟨hcompact, by rw [hcompact]; rfl⟩
  · obtain ⟨-, hcompact, -, hpretty⟩ := read_written (hp.summary directory)
    exact ⟨hcompact, hpretty⟩

/-- A text of arrays, of fields in another order, of escapes and of the largest number. -/
def oddText : String :=
  "[\x7b\"stage\": null, \"kind\": \"reference\", \"build\": \"\\u00e9\\ud83d\\ude00\"\x7d, "
    ++ "\"file\", null, [[1, \x7b\"include\": null\x7d, 18446744073709551615]]]"

def oddSummary : Summary where
  source := .reference "é😀" none
  granularity := "file"
  lanes := [⟨1, .inclusion, 18446744073709551615, none⟩]

def smallPlan : Plan where
  granularity := .testClass
  selections := [⟨.exclusion, ["a/B.java"]⟩, ⟨.inclusion, ["a/B.java"]⟩]
  stats := some ⟨1, 2, 7, 0, 3, 7, 3⟩
  source := .estimate

/-- The odd text is read, and its summary and the plan go through JSON and back. -/
theorem read_roundTrip_oddText :
    oddSummary.Fits ∧ read oddText = some oddSummary ∧ smallPlan.Fits ∧
      (read (Json.compact oddSummary.toJson) = some oddSummary ∧
        read (Json.pretty oddSummary.toJson) = some oddSummary) ∧
      (read (Json.compact oddSummary.toJson)).map (fun t => Json.compact t.toJson)
        = some (Json.compact oddSummary.toJson) ∧
      read (smallPlan.text .json .vivid (some "out")) = some (smallPlan.summary (some "out")) ∧
      read (smallPlan.text .jsonPretty .vivid none) = some (smallPlan.summary none) := by
  have hread : read oddText = some oddSummary := by decide +kernel
  have hfits : oddSummary.Fits := fits_of_read hread
  have hstats : Stats.Fits ⟨1, 2, 7, 0, 3, 7, 3⟩ := by
    unfold Stats.Fits
    decide
  have hplan : smallPlan.Fits :=
    ⟨fun x hx => Option.some.inj hx ▸ hstats, by decide, by decide⟩
  obtain ⟨hwritten, hagain, htexts⟩ := read_roundTrip
  exact ⟨hfits, hread, hplan, hwritten oddSummary hfits, (hagain oddText oddSummary hread).2,
    (htexts smallPlan (some "out") .vivid hplan).1, (htexts smallPlan none .vivid hplan).2⟩

end Summary

end TestLanes
