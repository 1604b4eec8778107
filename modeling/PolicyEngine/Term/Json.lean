import PolicyEngine.Term.Printer
import PolicyEngine.Term.Order
import PolicyEngine.Json.Reader

/-!
Documents as JSON text. Sets are written as arrays and keys that are not strings as their own JSON text.
-/
namespace PolicyEngine.Term

/-! ## Reading -/

/-- An object that starts with this field stands for the number written in it. -/
def numberField : String := "$serde_json::private::Number"

/-- A number of a JSON text; small integral ones become integers. -/
def ofJsonNumber : Number → Term
  | .float d => .number (.ofDouble d)
  | n => .number n

mutual
/-- The document a JSON value stands for. -/
def ofJson? : Json → Option Term
  | .null => some .null
  | .bool b => some (.bool b)
  | .number n => some (ofJsonNumber n)
  | .string s => some (.string s)
  | .array items => (ofJsonItems? items).map .array
  | .object ((key, .string s) :: rest) =>
    if key == numberField then
      if rest.isEmpty then (Number.ofText? s).map .number else none
    else (ofJsonFields? rest [(.string key, .string s)]).map .object
  | .object fields => (ofJsonFields? fields []).map .object
def ofJsonItems? : List Json → Option (List Term)
  | [] => some []
  | v :: rest =>
    match ofJson? v with
    | none => none
    | some t => (ofJsonItems? rest).map (t :: ·)
/-- Adds the fields of a JSON object to sorted fields; the last of several equal keys wins. -/
def ofJsonFields? : List (String × Json) → List (Term × Term) → Option (List (Term × Term))
  | [], fields => some fields
  | (k, v) :: rest, fields =>
    match ofJson? v with
    | none => none
    | some t => ofJsonFields? rest (insertField (.string k) t fields)
end

/-- Reads a document. -/
def parse? (text : String) : Option Term := (Json.parse? text).bind ofJson?

/-! ## Writing -/

/-- Why a term has no JSON text. -/
inductive SerializeError where
  | notGround (term : Term)
  | numberRange

def SerializeError.message : SerializeError → String
  | .notGround t => s!"cannot serialize non-ground term `{t.text}`"
  | .numberRange => "could not serialize number"

/-- Integers that do not fit in a machine word are written as the floating-point word their digits stand
for in JSON text. -/
def numberToJson : Number → Except SerializeError Json
  | .big v =>
    let d := Json.wordOfLiteral ⟨v < 0, Nat.toDigits 10 v.natAbs, [], false, none⟩
    if d.isFinite then .ok (.number (.float d)) else .error .numberRange
  | n => .ok (.number n)

mutual
def toJson : Term → Except SerializeError Json
  | .null => .ok .null
  | .bool b => .ok (.bool b)
  | .number n => numberToJson n
  | .string s => .ok (.string s)
  | .array items => (listToJson items).map .array
  | .set members => (listToJson members).map .array
  | .object fields => (fieldsToJson fields).map .object
  | t => .error (.notGround t)
def listToJson : List Term → Except SerializeError (List Json)
  | [] => .ok []
  | t :: rest =>
    match toJson t with
    | .error e => .error e
    | .ok v => (listToJson rest).map (v :: ·)
def fieldsToJson : List (Term × Term) → Except SerializeError (List (String × Json))
  | [] => .ok []
  | (k, v) :: rest =>
    match toJson k with
    | .error e => .error e
    | .ok key =>
      let name := match key with
        | .string s => s
        | key => key.compact
      match toJson v with
      | .error e => .error e
      | .ok value => (fieldsToJson rest).map ((name, value) :: ·)
end

/-- The document in one line. -/
def compactJson (t : Term) : Except SerializeError String := t.toJson.map Json.compact

/-- The document with two spaces of indentation for each level. -/
def prettyJson (t : Term) : Except SerializeError String := t.toJson.map Json.pretty

end PolicyEngine.Term
