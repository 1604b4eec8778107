/-!
Occurrences of one text in another, from the left. The position of an occurrence is counted in characters, its offset in
bytes.
-/
namespace PolicyEngine.Text

/-- What follows a beginning, if the text has it. -/
def dropStart? : List Char → List Char → Option (List Char)
  | [], cs => some cs
  | p :: ps, c :: cs => if p == c then dropStart? ps cs else none
  | _ :: _, [] => none

/-- The position of the first occurrence. -/
def indexOf? (needle : List Char) : List Char → Option Nat
  | [] => if needle.isEmpty then some 0 else none
  | c :: cs =>
    match dropStart? needle (c :: cs) with
    | some _ => some 0
    | none => (indexOf? needle cs).map (· + 1)

/-- The number of bytes before the first occurrence. -/
def offsetOf? (needle : List Char) : List Char → Option Nat
  | [] => if needle.isEmpty then some 0 else none
  | c :: cs =>
    match dropStart? needle (c :: cs) with
    | some _ => some 0
    | none => (offsetOf? needle cs).map (c.utf8Size + ·)

/-- The characters before an offset. -/
def upTo : Nat → List Char → List Char
  | _, [] => []
  | offset, c :: cs => if offset = 0 then [] else c :: upTo (offset - c.utf8Size) cs

/-- Puts a character in front of the first of several pieces. -/
def consPiece (c : Char) : List (List Char) → List (List Char)
  | [] => [[c]]
  | piece :: pieces => (c :: piece) :: pieces

/-- The pieces between the occurrences of a delimiter that is not empty, found from the left without
overlap. `skip` characters of an occurrence are still to be passed over. -/
def splitFrom (delimiter : List Char) : Nat → List Char → List (List Char)
  | _, [] => [[]]
  | skip + 1, _ :: cs => splitFrom delimiter skip cs
  | 0, c :: cs =>
    match dropStart? delimiter (c :: cs) with
    | some _ => [] :: splitFrom delimiter (delimiter.length - 1) cs
    | none => consPiece c (splitFrom delimiter 0 cs)

/-- The pieces of a text; an empty delimiter splits it into its characters. -/
def split (delimiter cs : List Char) : List (List Char) :=
  if delimiter.isEmpty then cs.map ([·]) else splitFrom delimiter 0 cs

/-- Pieces joined with a text between them. -/
def join (delimiter : List Char) : List (List Char) → List Char
  | [] => []
  | [piece] => piece
  | piece :: pieces => piece ++ delimiter ++ join delimiter pieces

/-- The text with the occurrences of a text that is not empty replaced, found from the left without overlap. `skip`
characters of an occurrence are still to be passed over. -/
def replaceFrom (old new : List Char) : Nat → List Char → List Char
  | _, [] => []
  | skip + 1, _ :: cs => replaceFrom old new skip cs
  | 0, c :: cs =>
    match dropStart? old (c :: cs) with
    | some _ => new ++ replaceFrom old new (old.length - 1) cs
    | none => c :: replaceFrom old new 0 cs

/-- The text with every occurrence replaced. An empty text occurs before every character and at the end. -/
def replace (old new cs : List Char) : List Char :=
  if old.isEmpty then new ++ cs.flatMap (· :: new) else replaceFrom old new 0 cs

def endsWith (ending cs : List Char) : Bool := (dropStart? ending.reverse cs.reverse).isSome

end PolicyEngine.Text
