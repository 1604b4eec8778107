import PolicyEngine.Number.Basic

/-!
JSON values. Fields keep the order and the repetitions of the text; `Json.normalize` is the value a text
stands for, where the last of several equal keys wins and keys are sorted.
-/
namespace PolicyEngine

inductive Json where
  | null
  | bool (value : Bool)
  | number (value : Number)
  | string (value : String)
  | array (items : List Json)
  | object (fields : List (String × Json))

namespace Json

/-- Puts a field into sorted fields, in place of one with the same key. -/
def insertField (key : String) (value : Json) : List (String × Json) → List (String × Json)
  | [] => [(key, value)]
  | (k, v) :: rest =>
    match compare key k with
    | .lt => (key, value) :: (k, v) :: rest
    | .eq => (key, value) :: rest
    | .gt => (k, v) :: insertField key value rest

mutual
def normalize : Json → Json
  | .array items => .array (normalizeItems items)
  | .object fields => .object ((normalizeFields fields).foldl (fun fs (k, v) => insertField k v fs) [])
  | value => value
def normalizeItems : List Json → List Json
  | [] => []
  | v :: rest => normalize v :: normalizeItems rest
def normalizeFields : List (String × Json) → List (String × Json)
  | [] => []
  | (k, v) :: rest => (k, normalize v) :: normalizeFields rest
end

/-! ## Limits of a text -/

/-- Arrays and objects may be nested this deep. -/
def maxDepth : Nat := 127

def numberFinite : Number → Bool
  | .float d => d.isFinite
  | _ => true

mutual
/-- Nesting stays within `depth`, and no number is beyond the range of a floating-point word. -/
def withinDepth : Nat → Json → Bool
  | _, .number n => numberFinite n
  | 0, .array _ | 0, .object _ => false
  | depth + 1, .array items => itemsWithinDepth depth items
  | depth + 1, .object fields => fieldsWithinDepth depth fields
  | _, _ => true
def itemsWithinDepth : Nat → List Json → Bool
  | _, [] => true
  | depth, v :: rest => withinDepth depth v && itemsWithinDepth depth rest
def fieldsWithinDepth : Nat → List (String × Json) → Bool
  | _, [] => true
  | depth, (_, v) :: rest => withinDepth depth v && fieldsWithinDepth depth rest
end

def withinLimits (value : Json) : Bool := withinDepth maxDepth value

/-! ## Access -/

/-- The value of a field of an object with distinct keys. -/
def field? (key : String) (fields : List (String × Json)) : Option Json := fields.lookup key

def isNull : Json → Bool
  | .null => true
  | _ => false

/-- The value of a field that is present and not null. -/
def present? (key : String) (fields : List (String × Json)) : Option Json :=
  (field? key fields).filter (!·.isNull)

def string? : Json → Option String
  | .string s => some s
  | _ => none

def bool? : Json → Option Bool
  | .bool b => some b
  | _ => none

/-- The value of a number written as a natural number. -/
def nat? : Json → Option Nat
  | .number (.unsigned v) => some v.toNat
  | _ => none

end Json
end PolicyEngine
