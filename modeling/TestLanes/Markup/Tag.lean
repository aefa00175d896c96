import TestLanes.Markup.Event

/-!
# Tags

The inside of an opening tag is a name and then attributes `key="value"` or `key='value'`.  A key
that occurs twice is a fault, like a key without a quoted value.

Attributes are read one step at a time from what is left of the tag.  A step gives an attribute and
a shorter rest, and the lemmas on lengths say so for each part of a step; blanks around the equals
sign and in front of a key are dropped.
-/

namespace TestLanes.Markup

inductive AttributeStep where
  | nothing
  | malformed
  | found (a : Attribute) (rest : Bytes)
deriving Repr, DecidableEq

/-- The value that starts with its quote, and what follows its closing quote. -/
def readValue : Bytes → Option (Bytes × Bytes)
  | [] => none
  | q :: rest =>
    if q == ascii '"' || q == ascii '\'' then
      match rest.dropWhile (· != q) with
      | [] => none
      | _ :: after => some (rest.takeWhile (· != q), after)
    else none

theorem length_dropWhile_le (p : UInt8 → Bool) (bytes : Bytes) :
    (bytes.dropWhile p).length ≤ bytes.length :=
  (List.dropWhile_sublist p).length_le

theorem length_lt_of_readValue {bytes value after : Bytes}
    (h : readValue bytes = some (value, after)) : after.length < bytes.length := by
  unfold readValue at h
  split at h
  · contradiction
  · next q rest =>
    have hd := length_dropWhile_le (· != q) rest
    split at h
    · split at h
      · contradiction
      · next heq =>
        simp only [Option.some.injEq, Prod.mk.injEq] at h
        rw [heq, h.2] at hd
        simp only [List.length_cons] at hd ⊢
        omega
    · contradiction

/-- Reads the first attribute of the rest of a tag. -/
def readAttribute (bytes : Bytes) : AttributeStep :=
  match bytes.dropWhile isSpace with
  | [] => .nothing
  | b :: rest =>
    let inKey (c : UInt8) : Bool := !(c == ascii '=' || isSpace c)
    match (rest.dropWhile inKey).dropWhile isSpace with
    | [] => .malformed
    | e :: after =>
      if e == ascii '=' then
        match readValue (after.dropWhile isSpace) with
        | none => .malformed
        | some (value, rest') => .found ⟨b :: rest.takeWhile inKey, value⟩ rest'
      else .malformed

theorem length_lt_of_readAttribute {bytes rest : Bytes} {a : Attribute}
    (h : readAttribute bytes = .found a rest) : rest.length < bytes.length := by
  unfold readAttribute at h
  split at h
  · contradiction
  · next b rest' heq =>
    have h₀ := length_dropWhile_le isSpace bytes
    rw [heq, List.length_cons] at h₀
    dsimp only at h
    split at h
    · contradiction
    · next e after heq' =>
      have h₁ := length_dropWhile_le isSpace
        (rest'.dropWhile fun c => !(c == ascii '=' || isSpace c))
      rw [heq', List.length_cons] at h₁
      have h₂ := length_dropWhile_le (fun c => !(c == ascii '=' || isSpace c)) rest'
      have h₃ := length_dropWhile_le isSpace after
      split at h
      · split at h
        · contradiction
        · next hv =>
          have h₄ := length_lt_of_readValue hv
          simp only [AttributeStep.found.injEq] at h
          rw [h.2] at h₄
          omega
      · contradiction

/-- Reads attributes up to the first fault; `seen` are the ones in front. -/
def readAttributes (seen : List Attribute) (bytes : Bytes) : AttributeRun :=
  match _h : readAttribute bytes with
  | .nothing => ⟨[], false⟩
  | .malformed => ⟨[], true⟩
  | .found a rest =>
    if seen.any (fun s => s.name == a.name) then ⟨[], true⟩
    else
      let run := readAttributes (a :: seen) rest
      ⟨a :: run.attributes, run.malformed⟩
termination_by bytes.length
decreasing_by exact length_lt_of_readAttribute (by assumption)

def Tag.ofInside (inside : Bytes) : Tag :=
  ⟨inside.takeWhile (fun b => !isSpace b),
    readAttributes [] (inside.dropWhile (fun b => !isSpace b))⟩

end TestLanes.Markup
