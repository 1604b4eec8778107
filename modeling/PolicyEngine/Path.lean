import PolicyEngine.Term.Basic

/-!
Paths of documents below `data`, their dotted names, and the static beginning of a reference.
-/
namespace PolicyEngine

/-- The keys that lead to a document below `data`. -/
abbrev DataPath := List String

namespace DataPath

/-- The dotted name of a path. -/
def name (path : DataPath) : String := path.foldl (fun s key => s ++ "." ++ key) "data"

end DataPath

/-- The pieces of a text between points. -/
def splitDots (s : String) : List String := go s.toList []
where
  /-- `piece` holds the characters of the current piece, the last one first. -/
  go : List Char → List Char → List String
  | [], piece => [String.ofList piece.reverse]
  | c :: rest, piece => if c == '.' then String.ofList piece.reverse :: go rest [] else go rest (c :: piece)

/-- The path named by a dotted text that starts with `data`. Empty pieces are passed over. -/
def DataPath.parse? (text : String) : Option DataPath :=
  match splitDots text with
  | "data" :: rest => some (rest.filter (!·.isEmpty))
  | _ => none

/-- A reference from a named root: the string keys it starts with, and the operands after them. -/
structure RefChain where
  root : String
  keys : List String
  rest : List Term

namespace RefChain

/-- The string keys at the start of a list of operands, and the operands after them. -/
def splitKeys : List Term → List String × List Term
  | .string s :: operands =>
    let (keys, rest) := splitKeys operands
    (s :: keys, rest)
  | operands => ([], operands)

/-- Splits a reference whose head is a variable. -/
def ofTerm? : Term → Option RefChain
  | .ref (.var root) operands =>
    let (keys, rest) := splitKeys operands
    some ⟨root, keys, rest⟩
  | _ => none

def isStatic (c : RefChain) : Bool := c.rest.isEmpty

/-- The dotted name of a chain without further operands. -/
def name? (c : RefChain) : Option String :=
  if c.isStatic then some (".".intercalate (c.root :: c.keys)) else none

end RefChain
end PolicyEngine
