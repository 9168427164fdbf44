import TraitFactory.Json.Reading
import TraitFactory.Script.Grammar
import TraitFactory.Script.Meaning

/-!
# Reading scripts

Scripts are written in JSON: a step is an object that names its operation, an expression is a
list that starts with its operator, and a literal is a plain value or an object with one key
that tells its kind.
-/

namespace TraitFactory.Script

/-- A number as it is written out, with names for those that are not finite. -/
def doubleOf? (s : String) : Option Double :=
  match s with
  | "nan" => some Double.nan
  | "inf" => some Double.infinity
  | "-inf" => some Double.infinity.negate
  | _ =>
    match Json.read s with
    | .ok (.float x) => some x
    | .ok (.int n) => some (Double.ofInt n)
    | _ => none

def parameterOf? : Json → Option Parameter
  | .text "p" => some .positional
  | .text "po" => some .positionalOnly
  | .text "d" => some .defaulted
  | .text "var" => some .variadic
  | .text "k" => some .keyword
  | .text "kd" => some .defaultedKeyword
  | .text "kw" => some .keywords
  | _ => none

def natOf? : Json → Option Nat
  | .int n => if 0 ≤ n then some n.toNat else none
  | _ => none

def modelOf? (j : Json) : Option Model := j.asText?.bind Model.find?

/-- The face of a function; whatever is not said is the usual. -/
def headOf? (j : Json) : Option FunctionHead := do
  let signature ← match j.get? "params" with
    | some kinds => (← kinds.asList?).mapM parameterOf?
    | none => some [.positional]
  let binding := match (j.get? "wrap").bind Json.asText? with
    | some "partial" => Binding.leading (((j.get? "bind").bind natOf?).getD 0)
    | some "method" => .receiver
    | _ => .free
  return { name := ((j.get? "name").bind Json.asText?).getD "fn"
           signature := signature
           binding := binding
           quiet := ((j.get? "quiet").bind Json.asBool?).getD false }

/-- A whole number as it is written out, unless it has too many digits. -/
def wholeOf? (s : String) : Option Literal :=
  let digits := (s.toList.filter Char.isDigit).length
  if Number.maxDigits < digits then some (.unreadable digits) else .int <$> s.toInt?

/-- Reads the value of a key if the key is there. -/
def optional {α : Type} (read : Json → Option α) (j : Json) (key : String) : Option (Option α) :=
  match j.get? key with
  | some x => some <$> read x
  | none => some none

/-- Reads a list of pairs. -/
def pairsOf? {α β : Type} (first : Json → Option α) (second : Json → Option β) (j : Json) :
    Option (List (α × β)) := do
  (← j.asList?).mapM fun
    | .list [a, b] => return (← first a, ← second b)
    | _ => none

mutual

/-- Reads a literal; `depth` bounds how deeply it is nested. -/
def readLiteral : Nat → Json → Option Literal
  | 0, _ => none
  | depth + 1, j =>
    match j with
    | .null => some .null
    | .bool b => some (.bool b)
    | .int n => some (.int n)
    | .float x => some (.float x)
    | .text s => some (.text s)
    | .list items => .list <$> items.mapM (readLiteral depth)
    | .object [(tag, x)] => readTagged depth tag x
    | .object _ => none

/-- Reads a literal of a kind that a key tells. -/
def readTagged : Nat → String → Json → Option Literal
  | 0, _, _ => none
  | depth + 1, tag, x =>
    match tag with
    | "$float" => .float <$> x.asText?.bind doubleOf?
    | "$int" => x.asText?.bind wholeOf?
    | "$tuple" => do return .tuple (← (← x.asList?).mapM (readLiteral depth))
    | "$dict" => .dict <$> pairsOf? (readLiteral depth) (readLiteral depth) x
    | "$bytes" => do return .bytes ((← x.asText?).toList.map fun c => c.toNat.toUInt8)
    | "$enum" => .symbol <$> readLiteral depth x
    | "$strenum" => .textSymbol <$> x.asText?
    | "$opaque" => do return .sealed (← x.asText?) true
    | "$nocopy" => do return .sealed (← x.asText?) false
    | "$model" => .model <$> modelOf? x
    | "$callable" => .function <$> readFunction depth x
    | "$computed" => .computed <$> readFunction depth x
    | "$assoc" => do
      let overrides ← optional (pairsOf? (readLiteral depth) (readLiteral depth)) x "overrides"
      return .association ((← optional (readLiteral depth) x "factory").getD .null)
        (← optional (readLiteral depth) x "traits") (← optional (readLiteral depth) x "strategy")
        (overrides.getD [])
    | "$fixed" => do
      let value ← optional (readLiteral depth) x "value"
      return .fixed (value.getD .null) (((x.get? "shared").bind Json.asBool?).getD false)
    | "$shared" => .sharedList <$> x.asText?
    | "$var" => .variable <$> x.asText?
    | _ => none

def readFunction : Nat → Json → Option FunctionSource
  | 0, _ => none
  | depth + 1, j =>
    match j.get? "value" with
    | some v => .value <$> readLiteral depth v
    | none => do
      let body ← optional (readExpr depth) j "body"
      return .written (← headOf? j) (body.getD (.literal .null))

/-- Reads an expression: a list of an operator and its parts. -/
def readExpr : Nat → Json → Option Expr
  | 0, _ => none
  | depth + 1, j =>
    let expr := readExpr depth
    let literal := readLiteral depth
    match j with
    | .list (.text operator :: parts) =>
      match operator, parts with
      | "lit", [v] => .literal <$> literal v
      | "arg", [i] => .argument <$> natOf? i
      | "var", [h] => .variable <$> h.asText?
      | "item", [e, k] => return .item (← expr e) (← literal k)
      | "attr", [e, n] => return .field (← expr e) (← n.asText?)
      | "attr?", [e, n, d] => return .fieldOr (← expr e) (← n.asText?) (← literal d)
      | "get", [e, k] => return .find (← expr e) (← literal k) none
      | "get", [e, k, d] => return .find (← expr e) (← literal k) (some (← literal d))
      | "in", [k, e] => return .contains (← literal k) (← expr e)
      | "len", [e] => .length <$> expr e
      | "list", [e] => .elements <$> expr e
      | "keys", [e] => .keys <$> expr e
      | "values", [e] => .values <$> expr e
      | "items", [e] => .items <$> expr e
      | "dict", [e] => .toDict <$> expr e
      | "make", [m, .list es] => return .make (← modelOf? m) (← es.mapM expr)
      | "new", [e, .list es] => return .instantiate (← expr e) (← es.mapM expr) []
      | "new", [e, .list es, ks] =>
        return .instantiate (← expr e) (← es.mapM expr) (← pairsOf? Json.asText? expr ks)
      | "newall", [e] => .instantiateWithAll <$> expr e
      | "call", [f, .list es] => return .call (← expr f) (← es.mapM expr)
      | "set", [e, n, x] => return .setField (← expr e) (← n.asText?) (← expr x)
      | "push", [e, x] => return .append (← expr e) (← expr x)
      | "put", [e, k, x] => return .setItem (← expr e) (← literal k) (← expr x)
      | "cat", es => .concat <$> es.mapM expr
      | "add", es => .sum <$> es.mapM expr
      | "array", es => .array <$> es.mapM expr
      | "seq", es => .sequence <$> es.mapM expr
      | "count", [k] => .count <$> k.asText?
      | "trace", [e] => .announce <$> expr e
      | "raise", [k, m] => return .raise (Cause.ofKind (← k.asText?) (← m.asText?))
      | "try", [e, f] => return .attempt (← expr e) (← expr f)
      | "caught", [] => some .caught
      | "is", [a, b] => return .identical (← expr a) (← expr b)
      | "eq", [a, b] => return .equal (← expr a) (← expr b)
      | "if", [c, a, b] => return .ifThenElse (← expr c) (← expr a) (← expr b)
      | "step", [s] => .perform <$> readStep depth s
      | _, _ => none
    | _ => none

def readOperand : Nat → OperandKind → Json → Option Operand
  | 0, _, _ => none
  | depth + 1, kind, j =>
    match kind with
    | .variable => .variable <$> j.asText?
    | .literal => .literal <$> readLiteral depth j
    | .event => .event <$> readLiteral depth j
    | .defined => (fun name => .declared (.variable name)) <$> j.asText?
    | .parent => .declared <$> readLiteral depth j
    | .function => .function <$> readFunction depth j
    | .settings => do
      let .object entries := j | none
      return .entries (← entries.mapM fun e => do return (.text e.1, ← readLiteral depth e.2))
    | .entries => .entries <$> pairsOf? (readLiteral depth) (readLiteral depth) j
    | .model =>
      match j with
      | .null => some (.literal .null)
      | j => (fun m => .literal (.model m)) <$> modelOf? j

def readStep : Nat → Json → Option Step
  | 0, _ => none
  | depth + 1, j => do
    let op ← (j.get? "op").bind Json.asText? |>.bind Operation.find?
    let operands ← (op.operands.filterMap fun rule => (j.get? rule.name).map (rule, ·)).mapM
      fun o => do return (o.1.name, ← readOperand depth o.1.kind o.2)
    let lacks := op.operands.filter fun rule => rule.required && (j.get? rule.name).isNone
    let body ← optional (readExpr depth) j "expr"
    let steps ← optional (fun s => do (← s.asList?).mapM (readStep depth)) j "steps"
    return .make op operands (lacks.map (·.name)) (body.getD (.literal .null)) (steps.getD [])
      ((j.get? "as").bind Json.asText?)

end

mutual

/-- How deeply a JSON value is nested. -/
def depthOf : Json → Nat
  | .list items => depthOfItems items + 1
  | .object entries => depthOfEntries entries + 1
  | _ => 1

def depthOfItems : List Json → Nat
  | [] => 0
  | j :: js => max (depthOf j) (depthOfItems js)

def depthOfEntries : List (String × Json) → Nat
  | [] => 0
  | (_, j) :: es => max (depthOf j) (depthOfEntries es)

end

/-- Reading goes at most twice as deep as the JSON value. -/
def readingDepth (j : Json) : Nat := 4 * depthOf j + 4

/-- **Reads a step.** -/
def step? (j : Json) : Option Step := readStep (readingDepth j) j

/-- **Reads a literal.** -/
def literal? (j : Json) : Option Literal := readLiteral (readingDepth j) j

/-- **Reads settings** by their names. -/
def settings? (j : Json) : Option Operand := readOperand (readingDepth j) .settings j

/-- **Reads a function.** -/
def function? (j : Json) : Option FunctionSource := readFunction (readingDepth j) j

end TraitFactory.Script
