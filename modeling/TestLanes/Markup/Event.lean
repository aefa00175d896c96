/-!
# Markup events

A marked-up document is read as a sequence of events: tags that open an element, tags that open and
close one at once, and tags that close one.  Text, comments and declarations are no events, since
nothing here depends on them.  Names and values are bytes; only values that are used get decoded.

`Element` is the document as a tree, `Element.events` the events it is written as.  Readers work on
events, as they come from a file that may break off anywhere; statements about whole documents are
made about elements.

The attributes of a tag are kept up to the first fault in them.  A reader that finds what it needs
in front of the fault never meets it, so the fault is part of the tag and not of the document.
-/

namespace TestLanes.Markup

abbrev Bytes := List UInt8

abbrev ascii (c : Char) : UInt8 := c.toUInt8

def Bytes.ofString (s : String) : Bytes := s.toUTF8.toList

def isSpace (b : UInt8) : Bool :=
  b == ascii ' ' || b == ascii '\t' || b == ascii '\n' || b == ascii '\r'

/-- An attribute as it is written, between its quotes. -/
structure Attribute where
  name : Bytes
  value : Bytes
deriving Repr, DecidableEq

/-- The attributes in front of the first fault, and whether there is a fault. -/
structure AttributeRun where
  attributes : List Attribute
  malformed : Bool
deriving Repr, DecidableEq

/-- An opening tag. -/
structure Tag where
  name : Bytes
  run : AttributeRun
deriving Repr, DecidableEq

/-- What a document consists of. -/
inductive Event where
  | start (tag : Tag)
  | empty (tag : Tag)
  | stop (name : Bytes)
deriving Repr, DecidableEq

/-- A name without its namespace prefix: what follows the first colon. -/
def localName (name : Bytes) : Bytes :=
  match name.dropWhile (· != ascii ':') with
  | [] => name
  | _ :: rest => rest

/-! ## Documents as trees -/

/-- An element; `short` tells whether an element without children is written as one tag. -/
inductive Element where
  | mk (tag : Tag) (children : List Element) (short : Bool)

namespace Element

mutual

/-- The events that an element is written as. -/
def events : Element → List Event
  | .mk tag [] true => [.empty tag]
  | .mk tag children _ => .start tag :: (eventsOfAll children ++ [.stop tag.name])

/-- The events of elements one after the other. -/
def eventsOfAll : List Element → List Event
  | [] => []
  | e :: es => events e ++ eventsOfAll es

end

end Element

end TestLanes.Markup
