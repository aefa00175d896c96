import TestLanes.Markup.Tag
import TestLanes.Text.Blank

/-!
# Scanning a document

`scan` splits the bytes of a document into events, up to the end or the first fault.  Closing tags
have to match the innermost open element.  The end of the document is no fault even if elements are
still open.

The scanner needs no grammar of documents: it looks for the next `<`, cuts off the construct that
begins there, and goes on behind it.  Each cutter comes with a lemma that bounds the length of what
follows; the recursion of `scanFrom` ends for the same reason as each of them, and needs no fuel.
-/

namespace TestLanes.Markup

open Text (dropPrefix?)

inductive SyntaxError where
  | unclosedTag
  | unclosedInstruction
  | unclosedComment
  | unclosedCharacterData
  | unclosedDoctype
  | namelessDoctype
  | unknownDeclaration
  | mismatchedClose
  | unmatchedClose
deriving Repr, DecidableEq

/-- The events of a document, and the fault that ended it. -/
structure Scan where
  events : List Event
  fault : Option SyntaxError
deriving Repr, DecidableEq

/-! ## 1. Cutting the input

A tag ends at the first `>` outside quotes, a comment at `-->`, character data at `]]>`, an
instruction at `?>`, and a document type at the `>` that closes no inner bracket.  A cutter gives
what precedes the end and what follows it, or nothing if the end is missing; what follows is shorter
than the whole.
-/

def consFirst (b : UInt8) : Option (Bytes × Bytes) → Option (Bytes × Bytes)
  | none => none
  | some (front, rest) => some (b :: front, rest)

/-- What precedes the first `>` outside quotes, and what follows it. -/
def cutTag : Option UInt8 → Bytes → Option (Bytes × Bytes)
  | _, [] => none
  | none, b :: bs =>
    if b == ascii '>' then some ([], bs)
    else consFirst b (cutTag (if b == ascii '"' || b == ascii '\'' then some b else none) bs)
  | some q, b :: bs => consFirst b (cutTag (if b == q then none else some q) bs)

theorem length_lt_of_consFirst {b : UInt8} {cut : Option (Bytes × Bytes)} {n : Nat}
    (ih : ∀ {front rest}, cut = some (front, rest) → rest.length < n) {front rest : Bytes}
    (h : consFirst b cut = some (front, rest)) : rest.length < n := by
  unfold consFirst at h
  split at h
  · contradiction
  · rw [← (Prod.mk.inj (Option.some.inj h)).2]
    exact ih rfl

theorem length_lt_of_cutTag {quote : Option UInt8} {bytes front rest : Bytes}
    (h : cutTag quote bytes = some (front, rest)) : rest.length < bytes.length := by
  fun_induction cutTag quote bytes generalizing front rest with
  | case1 => contradiction
  | case2 b bs =>
    rw [← (Prod.mk.inj (Option.some.inj h)).2]
    exact Nat.lt_succ_self _
  | case3 b bs _ ih => exact Nat.lt_succ_of_lt (length_lt_of_consFirst ih h)
  | case4 q b bs ih => exact Nat.lt_succ_of_lt (length_lt_of_consFirst ih h)

/-- What precedes the first occurrence of `ending`, and what follows it. -/
def cutAt (ending : Bytes) : Bytes → Option (Bytes × Bytes)
  | [] => none
  | b :: bs =>
    match dropPrefix? ending (b :: bs) with
    | some rest => some ([], rest)
    | none => consFirst b (cutAt ending bs)

theorem length_le_of_cutAt {ending bytes front rest : Bytes}
    (h : cutAt ending bytes = some (front, rest)) : rest.length ≤ bytes.length := by
  induction bytes generalizing front rest with
  | nil => contradiction
  | cons b bs ih =>
    unfold cutAt at h
    split at h
    · next hp =>
      rw [← (Prod.mk.inj (Option.some.inj h)).2]
      exact Text.length_le_of_dropPrefix? hp
    · exact Nat.le_of_lt_succ (length_lt_of_consFirst
        (fun h' => Nat.lt_succ_of_le (Nat.le_succ_of_le (ih h'))) h)

/-- What precedes the first `>` that closes no inner `<`, and what follows it. -/
def cutBalanced : Nat → Bytes → Option (Bytes × Bytes)
  | _, [] => none
  | depth, b :: bs =>
    if b == ascii '<' then consFirst b (cutBalanced (depth + 1) bs)
    else if b == ascii '>' then
      match depth with
      | 0 => some ([], bs)
      | depth + 1 => consFirst b (cutBalanced depth bs)
    else consFirst b (cutBalanced depth bs)

theorem length_lt_of_cutBalanced {depth : Nat} {bytes front rest : Bytes}
    (h : cutBalanced depth bytes = some (front, rest)) : rest.length < bytes.length := by
  induction bytes generalizing depth front rest with
  | nil => contradiction
  | cons b bs ih =>
    unfold cutBalanced at h
    split at h
    · exact Nat.lt_succ_of_lt (length_lt_of_consFirst ih h)
    · split at h
      · split at h
        · rw [← (Prod.mk.inj (Option.some.inj h)).2]
          exact Nat.lt_succ_self _
        · exact Nat.lt_succ_of_lt (length_lt_of_consFirst ih h)
      · exact Nat.lt_succ_of_lt (length_lt_of_consFirst ih h)

/-- An ASCII letter in lower case; other bytes as they are. -/
def lowerByte (b : UInt8) : UInt8 :=
  if ascii 'A' ≤ b ∧ b ≤ ascii 'Z' then b + 32 else b

/-! ## 2. One construct

The first bytes after `<` tell the kind of a construct.  Only tags are events; the rest is silent.
A construct whose end is missing is a fault, and which fault depends on how far its kind could be
told.
-/

/-- What a construct between `<` and its end amounts to. -/
inductive Construct where
  | event (e : Event) (rest : Bytes)
  | silent (rest : Bytes)
  | fault (e : SyntaxError)
deriving Repr, DecidableEq

/-- What follows a construct, nothing if it is a fault. -/
def Construct.rest : Construct → Bytes
  | .event _ rest | .silent rest => rest
  | .fault _ => []

def readDeclaration : Bytes → Construct
  | [] => .fault .unknownDeclaration
  | b :: bs =>
    if b == ascii '-' then
      match dropPrefix? (Bytes.ofString "-") bs with
      | none => .fault .unclosedComment
      | some body =>
        match cutAt (Bytes.ofString "-->") body with
        | none => .fault .unclosedComment
        | some (_, rest) => .silent rest
    else if b == ascii '[' then
      match dropPrefix? (Bytes.ofString "CDATA[") bs with
      | none => .fault .unclosedCharacterData
      | some body =>
        match cutAt (Bytes.ofString "]]>") body with
        | none => .fault .unclosedCharacterData
        | some (_, rest) => .silent rest
    else if lowerByte b == ascii 'd' then
      match cutBalanced 0 (b :: bs) with
      | none => .fault .unclosedDoctype
      | some (inside, rest) =>
        match dropPrefix? (Bytes.ofString "doctype") (inside.map lowerByte) with
        | none => .fault .unclosedDoctype
        | some name => if name.all isSpace then .fault .namelessDoctype else .silent rest
    else .fault .unknownDeclaration

def readInstruction (bytes : Bytes) : Construct :=
  match bytes with
  | [] => .fault .unclosedInstruction
  | b :: _ =>
    if b == ascii '>' then .fault .unclosedInstruction
    else match cutAt (Bytes.ofString "?>") bytes with
      | none => .fault .unclosedInstruction
      | some (_, rest) => .silent rest

/-- The name in a closing tag: blanks at its end do not count, unless there is nothing else. -/
def closingName (inside : Bytes) : Bytes :=
  if inside.all isSpace then inside else (inside.reverse.dropWhile isSpace).reverse

/-- The tag with this inside, closed at once if it ends with a slash. -/
def openingEvent (inside : Bytes) : Event :=
  match inside.reverse with
  | b :: front => if b == ascii '/' then .empty (Tag.ofInside front.reverse)
    else .start (Tag.ofInside inside)
  | [] => .start (Tag.ofInside inside)

/-- Reads what follows `<`. -/
def readConstruct (bytes : Bytes) : Construct :=
  match bytes with
  | [] => .fault .unclosedTag
  | b :: bs =>
    if b == ascii '!' then readDeclaration bs
    else if b == ascii '?' then readInstruction bs
    else if b == ascii '/' then
      match cutTag none bs with
      | none => .fault .unclosedTag
      | some (inside, rest) => .event (.stop (closingName inside)) rest
    else
      match cutTag none bytes with
      | none => .fault .unclosedTag
      | some (inside, rest) => .event (openingEvent inside) rest

theorem length_rest_readDeclaration (bytes : Bytes) :
    (readDeclaration bytes).rest.length ≤ bytes.length := by
  unfold readDeclaration
  split
  · exact Nat.zero_le _
  · split
    · split
      · exact Nat.zero_le _
      · next hp =>
        split
        · exact Nat.zero_le _
        · next hc =>
          exact Nat.le_succ_of_le
            (Nat.le_trans (length_le_of_cutAt hc) (Text.length_le_of_dropPrefix? hp))
    · split
      · split
        · exact Nat.zero_le _
        · next hp =>
          split
          · exact Nat.zero_le _
          · next hc =>
            exact Nat.le_succ_of_le
              (Nat.le_trans (length_le_of_cutAt hc) (Text.length_le_of_dropPrefix? hp))
      · split
        · split
          · exact Nat.zero_le _
          · next hc =>
            split
            · exact Nat.zero_le _
            · split
              · exact Nat.zero_le _
              · exact Nat.le_of_lt (length_lt_of_cutBalanced hc)
        · exact Nat.zero_le _

theorem length_rest_readInstruction (bytes : Bytes) :
    (readInstruction bytes).rest.length ≤ bytes.length := by
  unfold readInstruction
  split
  · exact Nat.zero_le _
  · split
    · exact Nat.zero_le _
    · split
      · exact Nat.zero_le _
      · next hc => exact length_le_of_cutAt hc

theorem length_rest_readConstruct (bytes : Bytes) :
    (readConstruct bytes).rest.length ≤ bytes.length := by
  unfold readConstruct
  split
  · exact Nat.zero_le _
  · next b bs =>
    split
    · exact Nat.le_succ_of_le (length_rest_readDeclaration bs)
    · split
      · exact Nat.le_succ_of_le (length_rest_readInstruction bs)
      · split
        · split
          · exact Nat.zero_le _
          · next hc => exact Nat.le_succ_of_le (Nat.le_of_lt (length_lt_of_cutTag hc))
        · split
          · exact Nat.zero_le _
          · next hc => exact Nat.le_of_lt (length_lt_of_cutTag hc)

/-! ## 3. The document

The names of the open elements are the only state of a scan.  A fault ends it, with the events in
front of the fault as its result: a reader that stops earlier does not see the fault.
-/

/-- The open elements after an event, innermost first, or why it may not come next. -/
def nesting (opened : List Bytes) : Event → Except SyntaxError (List Bytes)
  | .start tag => .ok (tag.name :: opened)
  | .empty _ => .ok opened
  | .stop name =>
    match opened with
    | [] => .error .unmatchedClose
    | top :: below => if top = name then .ok below else .error .mismatchedClose

theorem length_lt_of_readConstruct {bytes bs : Bytes} {b : UInt8} {c : Construct}
    (h : bytes.dropWhile (· != ascii '<') = b :: bs) (hc : readConstruct bs = c) :
    c.rest.length < bytes.length := by
  have h₀ := length_dropWhile_le (· != ascii '<') bytes
  have h₁ := length_rest_readConstruct bs
  rw [h, List.length_cons] at h₀
  rw [hc] at h₁
  omega

/-- Scans the rest of a document in which `opened` are the open elements, innermost first. -/
def scanFrom (opened : List Bytes) (bytes : Bytes) : Scan :=
  match h : bytes.dropWhile (· != ascii '<') with
  | [] => ⟨[], none⟩
  | _ :: bs =>
    match hc : readConstruct bs with
    | .fault e => ⟨[], some e⟩
    | .silent rest =>
      have : rest.length < bytes.length := length_lt_of_readConstruct h hc
      scanFrom opened rest
    | .event e rest =>
      have : rest.length < bytes.length := length_lt_of_readConstruct h hc
      match nesting opened e with
      | .error fault => ⟨[], some fault⟩
      | .ok opened' =>
        let s := scanFrom opened' rest
        ⟨e :: s.events, s.fault⟩
termination_by bytes.length

def scan (bytes : Bytes) : Scan := scanFrom [] bytes

end TestLanes.Markup
