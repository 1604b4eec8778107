import PolicyEngine.Json.Reader
import PolicyEngine.Policy.Error
import PolicyEngine.Term.Order

/-!
Reader of the JSON encoding of modules and queries. A term is an object with a `type` and a `value`, an
expression carries its operands under `terms`. The reader works on normalized JSON: keys are distinct and
sorted, and that is how a value is shown in an error.
-/
namespace PolicyEngine

abbrev Reading := Except ModuleError

namespace Reading

/-- The value, or the error when it is absent. -/
def require (e : ModuleError) : Option α → Reading α
  | some a => .ok a
  | none => .error e

def object (what : String) : Json → Reading (List (String × Json))
  | .object fields => .ok fields
  | v => .error (.notObject what v)

def array (what : String) : Json → Reading (List Json)
  | .array items => .ok items
  | v => .error (.notArray what v)

/-- A boolean field that is off unless it is written. -/
def flag (key : String) (fields : List (String × Json)) : Bool :=
  ((Json.present? key fields).bind Json.bool?).getD false

/-- The text of a number literal: numbers are rendered first, strings are taken as they are. -/
def numberLiteral (value : Json) : Reading String :=
  match value with
  | .number n => .ok (Json.numberText n)
  | .string s => .ok s
  | v => .error (.invalidNumber v.compact)

mutual
/-- Reads a term. Every call goes one level down in the JSON value, so its depth is fuel enough. -/
def term : Nat → Json → Reading Term
  | 0, v => .error (.termWithoutType v)
  | fuel + 1, v => do
    let fields ← object "term" v
    let type ← require (.termWithoutType v) ((Json.field? "type" fields).bind Json.string?)
    let value := (Json.field? "value" fields).getD .null
    match type with
    | "null" => .ok .null
    | "boolean" => .bool <$> require (.invalidBoolean value) value.bool?
    | "number" =>
      let text ← numberLiteral value
      .number <$> require (.invalidNumber text) (Number.ofText? text)
    | "string" => .string <$> require (.invalidString value) value.string?
    | "var" => .var <$> require (.invalidVar value) value.string?
    | "ref" =>
      match ← terms fuel "ref" value with
      | [] => .error .emptyRef
      | head :: operands => .ok (.ref head operands)
    | "array" => .array <$> terms fuel "array" value
    | "set" => Term.setOf <$> terms fuel "set" value
    | "object" => do
      let items ← array "object" value
      .object <$> items.foldlM (objectItem fuel) []
    | "call" =>
      match ← terms fuel "call" value with
      | [] => .error .emptyCall
      | operator :: arguments => .ok (.call operator arguments)
    | "arraycomprehension" => do
      let (t, b) ← comprehension fuel type value
      .ok (.arrayCompr t b)
    | "setcomprehension" => do
      let (t, b) ← comprehension fuel type value
      .ok (.setCompr t b)
    | "objectcomprehension" => do
      let fields ← object type value
      let key ← term fuel (← require (.missing "key") (Json.field? "key" fields))
      let value ← term fuel (← require (.missing "value") (Json.field? "value" fields))
      let exprs ← body fuel (← require (.missing "body") (Json.field? "body" fields))
      .ok (.objectCompr key value exprs)
    | type => .error (.unknownTermType type)
def terms : Nat → String → Json → Reading (List Term)
  | 0, what, v => .error (.notArray what v)
  | fuel + 1, what, v => do (← array what v).mapM (term fuel)
/-- Adds an item of an object to the fields read before it. -/
def objectItem : Nat → List (Term × Term) → Json → Reading (List (Term × Term))
  | 0, _, v => .error (.invalidObjectItem v)
  | fuel + 1, fields, item => do
    match ← array "object item" item with
    | [k, v] => .ok (Term.insertField (← term fuel k) (← term fuel v) fields)
    | _ => .error (.invalidObjectItem item)
def comprehension : Nat → String → Json → Reading (Term × Body)
  | 0, what, v => .error (.notObject what v)
  | fuel + 1, what, v => do
    let fields ← object what v
    let t ← term fuel (← require (.missing "term") (Json.field? "term" fields))
    let b ← body fuel (← require (.missing "body") (Json.field? "body" fields))
    .ok (t, b)
def body : Nat → Json → Reading Body
  | 0, v => .error (.notArray "body" v)
  | fuel + 1, v => do (← array "body" v).zipIdx.mapM fun (e, position) => expr fuel e position
def expr : Nat → Json → Nat → Reading Expr
  | 0, v, _ => .error (.exprWithoutTerms v)
  | fuel + 1, v, position => do
    let fields ← object "expr" v
    let operands ← require (.exprWithoutTerms v) (Json.field? "terms" fields)
    let kind ← exprKind fuel operands
    let overrides ← match Json.present? "with" fields with
      | some w => do (← array "with" w).mapM (overriding fuel)
      | none => .ok []
    let index := ((Json.present? "index" fields).bind Json.nat?).getD position
    .ok (.mk kind (flag "negated" fields) overrides index)
def exprKind : Nat → Json → Reading ExprKind
  | 0, v => .error (.exprWithoutTerms v)
  | fuel + 1, operands => do
    match operands with
    | .array parts =>
      match ← parts.mapM (term fuel) with
      | [] => .error .emptyCallExpression
      | operator :: arguments => .ok (.term (.call operator arguments))
    | .object fields =>
      match Json.field? "symbols" fields, Json.field? "domain" fields with
      | some symbols, _ => .someDecl <$> terms fuel "symbols" symbols
      | none, some domain =>
        let key ← (Json.present? "key" fields).mapM (term fuel)
        let value ← term fuel (← require (.withoutPart "every" "value") (Json.present? "value" fields))
        let domain ← term fuel domain
        let exprs ← body fuel (← require (.withoutPart "every" "body") (Json.field? "body" fields))
        .ok (.every key value domain exprs)
      | none, none => .term <$> term fuel operands
    | operands => .term <$> term fuel operands
def overriding : Nat → Json → Reading (Term × Term)
  | 0, v => .error (.notObject "with" v)
  | fuel + 1, v => do
    let fields ← object "with" v
    let target ← term fuel (← require (.withoutPart "with" "target") (Json.present? "target" fields))
    let value ← term fuel (← require (.withoutPart "with" "value") (Json.present? "value" fields))
    .ok (target, value)
end

mutual
/-- How deep arrays and objects are nested in a value. -/
def depth : Json → Nat
  | .array items => itemsDepth items + 1
  | .object fields => fieldsDepth fields + 1
  | _ => 0
def itemsDepth : List Json → Nat
  | [] => 0
  | v :: rest => max (depth v) (itemsDepth rest)
def fieldsDepth : List (String × Json) → Nat
  | [] => 0
  | (_, v) :: rest => max (depth v) (fieldsDepth rest)
end

/-- Calls that stay on the same JSON value come in chains of at most three. -/
def fuelFor (v : Json) : Nat := 3 * depth v + 3

def head (fuel : Nat) (v : Json) : Reading Head := do
  let fields ← object "head" v
  let reference ← match Json.present? "ref" fields with
    | some r => terms fuel "head ref" r
    | none =>
      let name ← require (.headWithoutName v) ((Json.present? "name" fields).bind Json.string?)
      pure [.var name]
  match reference with
  | [] => .error .emptyHead
  | name :: keys =>
    let key ← (Json.present? "key" fields).mapM (term fuel)
    let value ← (Json.present? "value" fields).mapM (term fuel)
    let params ← match Json.present? "args" fields with
      | some a => terms fuel "args" a
      | none => pure []
    .ok ⟨name, keys, key, value, params, flag "assign" fields⟩

/-- Reads a rule and the chain of its `else` clauses. -/
def rule : Nat → Json → Reading Rule
  | 0, v => .error (.notObject "rule" v)
  | fuel + 1, v => do
    let fields ← object "rule" v
    let h ← head fuel (← require (.withoutPart "rule" "head") (Json.present? "head" fields))
    let b ← match Json.present? "body" fields with
      | some b => body fuel b
      | none => pure []
    let clause : Clause := ⟨flag "default" fields, h, b⟩
    match Json.present? "else" fields with
    | some e => do
      let r ← rule fuel e
      .ok ⟨clause, r.clauses⟩
    | none => .ok ⟨clause, []⟩

def packagePath (fuel : Nat) (v : Json) : Reading (List String) := do
  let fields ← object "package" v
  let path ← terms fuel "package path" (← require (.withoutPart "package" "path") (Json.present? "path" fields))
  match path with
  | .var "data" :: segments => segments.mapM fun
    | .string s => .ok s
    | t => .error (.packageSegment t)
  | path => .error (.packageRoot path.head?)

end Reading

/-- Reads one term from normalized JSON. -/
def Term.ofEncoding (v : Json) : Reading Term := Reading.term (Reading.fuelFor v) v

/-- Reads a query from normalized JSON. -/
def Body.ofEncoding (v : Json) : Reading Body := Reading.body (Reading.fuelFor v) v

/-- Reads a module from normalized JSON. -/
def Module.ofEncoding (v : Json) : Reading Module := do
  let fuel := Reading.fuelFor v
  let fields ← Reading.object "module" v
  let package ← Reading.packagePath fuel
    (← Reading.require (.withoutPart "module" "package") (Json.present? "package" fields))
  let rules ← match Json.present? "rules" fields with
    | some r => do (← Reading.array "rules" r).mapM (Reading.rule fuel)
    | none => pure []
  .ok ⟨package, rules⟩

end PolicyEngine
