import TestLanes.Json.Token

/-!
# Reading JSON

`parse` gives the value of a text that holds exactly one value.  The first argument of the mutual
functions bounds their recursion; the number of tokens is always enough.

Each of the three functions consumes what it reads from the front of the tokens.  The bound is there
for the recursion to be structural, so that the reader computes inside a proof; every call consumes
a token or is followed by one that does, and `2 * n + 1` steps do for `n` tokens.
-/

namespace TestLanes.Json

/-- The value of a token that stands for one by itself. -/
def Token.value? : Token → Option Value
  | .null => some .null
  | .boolean b => some (.boolean b)
  | .number (some n) => some (.number n)
  | .number none => some .unreadable
  | .text (some s) => some (.string s)
  | .text none => some .unreadable
  | _ => none

/-- An object; one of its names may denote nothing, and then neither does the object. -/
def objectOf (fields : List (Option String × Value)) : Value :=
  match fields.mapM (fun (k, v) => k.map (·, v)) with
  | some fs => .object fs
  | none => .unreadable

mutual

/-- The value in front. -/
def readValue : Nat → List Token → Option (Value × List Token)
  | 0, _ => none
  | _ + 1, [] => none
  | _ + 1, .openArray :: .closeArray :: ts => some (.array [], ts)
  | n + 1, .openArray :: ts => do
    let (vs, ts) ← readItems n ts
    some (.array vs, ts)
  | _ + 1, .openObject :: .closeObject :: ts => some (.object [], ts)
  | n + 1, .openObject :: ts => do
    let (fs, ts) ← readFields n ts
    some (objectOf fs, ts)
  | _ + 1, t :: ts => t.value?.map (·, ts)

def readItems : Nat → List Token → Option (List Value × List Token)
  | 0, _ => none
  | n + 1, ts => do
    let (v, ts) ← readValue n ts
    match ts with
    | .comma :: ts => do
      let (vs, ts) ← readItems n ts
      some (v :: vs, ts)
    | .closeArray :: ts => some ([v], ts)
    | _ => none

/-- One or more fields up to the end of their object. -/
def readFields : Nat → List Token → Option (List (Option String × Value) × List Token)
  | 0, _ => none
  | n + 1, ts =>
    match ts with
    | .text k :: .colon :: ts => do
      let (v, ts) ← readValue n ts
      match ts with
      | .comma :: ts => do
        let (fs, ts) ← readFields n ts
        some ((k, v) :: fs, ts)
      | .closeObject :: ts => some ([(k, v)], ts)
      | _ => none
    | _ => none

end

def ofTokens (ts : List Token) : Option Value :=
  match readValue (2 * ts.length + 1) ts with
  | some (v, []) => some v
  | _ => none

def parse (text : String) : Option Value := (scan text.toList).bind ofTokens

end TestLanes.Json
