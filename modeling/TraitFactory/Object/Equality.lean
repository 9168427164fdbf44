import TraitFactory.World

/-!
# Equality of values

Numbers are equal when they are the same number, texts when they have the same characters,
containers, plans and settings when their parts are equal, and all else only to itself. A part
equals itself whatever it is. Keys of dictionaries are compared the same way.
-/

namespace TraitFactory

namespace Value

/-- Comparison of two scalars; `none` when one of them is no number and no text. -/
def sameScalar? (a b : Value) : Option Bool :=
  match a.asText?, b.asText? with
  | some s, some t => some (s = t)
  | _, _ =>
    match a.asInt?, b.asInt?, a, b with
    | some m, some n, _, _ => some (m = n)
    | some m, none, _, .float _ y => some (y.sameInt m)
    | none, some n, .float _ x, _ => some (x.sameInt n)
    | none, none, .float _ x, .float _ y => some (x.sameNumber y)
    | _, _, _, _ => none

end Value

/-! ## Equality of parts

`same` compares two values, and comparing them may have effects; a part is also equal to itself. -/

section Parts

variable {m : Type → Type} [Monad m] (same : Value → Value → m Bool)

def samePart (a b : Value) : m Bool := if a = b then pure true else same a b

/-- Goes on with a comparison if what was compared before is the same. -/
def alsoSame (first : Bool) (second : m Bool) : m Bool := if first then second else pure false

/-- Whether every part of one list equals the part of the other at its place. -/
def sameList {α : Type} (same : α → α → m Bool) : List α → List α → m Bool
  | [], [] => pure true
  | a :: as, b :: bs => do if ← same a b then sameList same as bs else return false
  | _, _ => pure false

/-- Whether two sequences of values have equal parts, which they have not if they differ in
length. -/
def sameItems (xs ys : List Value) : m Bool :=
  alsoSame (xs.length = ys.length) (sameList (samePart same) xs ys)

/-- Whether all of some comparisons come out equal, made one after another. -/
def allSame {α : Type} (same : α → m Bool) : List α → m Bool
  | [] => pure true
  | x :: xs => do if ← same x then allSame same xs else return false

/-- The entry of a key among others. -/
def findEntry (key : Value) : List (Value × Value) → m (Option Value)
  | [] => pure none
  | e :: es => do if ← samePart same e.1 key then return some e.2 else findEntry key es

def sameEntries (s t : List (Value × Value)) : m Bool :=
  alsoSame (s.length = t.length) (allSame (fun e => do
    match ← findEntry same e.1 t with
    | some v => samePart same v e.2
    | none => return false) s)

def sameFields (s t : Table Value) : m Bool :=
  alsoSame (s.size = t.size) (allSame (fun e =>
    match t.get? e.1 with
    | some v => samePart same v e.2
    | none => pure false) s.entries)

def sameAttribute : AttributeValue → AttributeValue → m Bool
  | .fixed v s, .fixed v' s' => do alsoSame (s = s') (samePart same v v')
  | .computed f, .computed f' => samePart same f f'
  | .association a, .association a' =>
    alsoSame (a.factory = a'.factory && a.traits = a'.traits && a.strategy = a'.strategy)
      (samePart same a.overrides a'.overrides)
  | _, _ => pure false

def sameDeclaration (a b : Declaration) : m Bool :=
  alsoSame (a.name = b.name && a.origin = b.origin) (sameAttribute same a.value b.value)

/-- Callbacks are equal when the same function serves the same event for owners of one label. -/
def sameCallback (a b : Callback) : m Bool :=
  alsoSame (a.event = b.event && a.owner = b.owner) (samePart same a.fn b.fn)

def sameOptional : Option Value → Option Value → m Bool
  | none, none => pure true
  | some a, some b => samePart same a b
  | _, _ => pure false

def sameLayer (a b : Layer) : m Bool := do
  alsoSame (a.kind = b.kind && a.name = b.name && a.scope = b.scope)
    (allSame id
      [sameList (sameDeclaration same) a.attributes b.attributes,
        sameOptional same a.constructor b.constructor,
        sameOptional same a.persistor b.persistor,
        sameList (sameCallback same) a.callbacks b.callbacks])

/-- **Whether two plans have equal parts**; functions and models are compared by identity. -/
def samePlan (a b : Plan) : m Bool :=
  alsoSame (a.factory = b.factory && a.traits = b.traits)
    (allSame id
      [samePart same a.model b.model,
        sameList (sameLayer same) a.layers b.layers,
        sameList (sameDeclaration same) a.attributes b.attributes,
        sameOptional same a.constructor b.constructor,
        sameOptional same a.persistor b.persistor,
        sameList (sameCallback same) a.callbacks b.callbacks])

/-- Whether a value is among others. -/
def isAmong (x : Value) : List Value → m Bool
  | [] => pure false
  | y :: ys => do if ← samePart same y x then return true else isAmong x ys

/-- Whether two lists without equal members have the same ones. -/
def sameMembers (xs ys : List Value) : m Bool :=
  alsoSame (xs.length = ys.length) (allSame (fun x => isAmong same x ys) xs)

def sameSettings (a b : RunnerSettings) : m Bool :=
  allSame id
    [samePart same a.stubIdStart b.stubIdStart,
      samePart same a.useParentStrategy b.useParentStrategy,
      samePart same a.cachePlans b.cachePlans, samePart same a.logLevel b.logLevel]

/-- Comparison of two objects by their parts; `none` where only an object itself is equal. -/
def sameObject? : Object → Object → Option (m Bool)
  | .list xs, .list ys => some (sameItems same xs ys)
  | .tuple xs, .tuple ys => some (sameItems same xs ys)
  | .dict xs, .dict ys => some (sameEntries same xs ys)
  | .set xs, .set ys => some (sameMembers same xs ys)
  | .record m xs, .record n ys =>
    if m.openFields && n.openFields then some (sameFields same xs ys) else none
  | .attr x, .attr y => some (sameAttribute same x y)
  | .declaration x, .declaration y => some (sameDeclaration same x y)
  | .callback x, .callback y => some (sameCallback same x y)
  | .layer x, .layer y => some (sameLayer same x y)
  | _, _ => none

end Parts

namespace World

/-- The keys that a view shows, which make it a set, if it shows keys. -/
def keysShown? (w : World) : Value → Option (List Value)
  | .tableView _ .keys table => (w.entries? table).map fun es => es.map (·.1)
  | v =>
    match w.heap.object? v with
    | some (.set members) => some members
    | _ => none

/-- The entries that a view shows, if it shows entries. -/
def entriesShown? (w : World) : Value → Option (List (Value × Value))
  | .tableView _ .items table => w.entries? table
  | _ => none

/-- Comparison of dictionaries and of what they show; `none` for all else. -/
def sameTables? {m : Type → Type} [Monad m] (w : World) (same : Value → Value → m Bool)
    (a b : Value) : Option (m Bool) :=
  let compare := fun {α : Type} (f : α → α → m Bool) (x y : Option α) => do
    return f (← x) (← y)
  (compare (sameEntries same) (w.entries? a) (w.entries? b)).or
    ((compare (sameMembers same) (w.keysShown? a) (w.keysShown? b)).or
      (compare (sameEntries same) (w.entriesShown? a) (w.entriesShown? b)))

/-- Comparison of two values by their parts; `none` where only a value itself is equal. Two
methods are equal when they are the same method of the same thing. -/
def sameParts? {m : Type → Type} [Monad m] (w : World) (same : Value → Value → m Bool)
    (a b : Value) : Option (m Bool) :=
  match a, b with
  | .method _ r name, .method _ r' name' => some (pure (name = name' && r = r'))
  | .plan p, .plan q => do return samePlan same (← w.plan? p) (← w.plan? q)
  | .settings r, .settings s => do
    return sameSettings same (← w.settingsAt? r) (← w.settingsAt? s)
  | a, b => (w.sameTables? same a b).or do
    sameObject? same (← w.heap.object? a) (← w.heap.object? b)

/-- Equality of values; `depth` bounds how many references are followed. -/
def same (w : World) : Nat → Value → Value → Bool
  | depth, a, b =>
    match a.sameScalar? b with
    | some r => r
    | none =>
      match depth with
      | 0 => a = b
      | depth + 1 => ((w.sameParts? (m := Id) (w.same depth) a b).getD (pure (a = b))).run

/-- No chain of references that ends is longer. -/
def comparingDepth (w : World) : Nat :=
  2 * w.heap.size + w.plans.size + w.settings.size + 2

/-- **Equality of values.** -/
def equal (w : World) (a b : Value) : Bool := w.same w.comparingDepth a b

/-! ## Keys -/

/-- Whether an attribute value can be a key when its parts can. -/
def attributeIsKey (isKey : Value → Bool) : AttributeValue → Bool
  | .fixed v _ => isKey v
  | .computed _ => true
  | .association _ => false

def layerIsKey (isKey : Value → Bool) (l : Layer) : Bool :=
  l.attributes.all fun d => attributeIsKey isKey d.value

/-- Whether an object can be a key when its parts can. -/
def objectIsKey (isKey : Value → Bool) : Object → Bool
  | .list _ | .dict _ | .set _ | .snapshot _ => false
  | .tuple items => items.all isKey
  | .record m _ => !m.openFields
  | .sealed _ _ _ | .callback _ | .attributes _ | .iteration _ => true
  | .attr a => attributeIsKey isKey a
  | .declaration d => attributeIsKey isKey d.value
  | .layer l => layerIsKey isKey l

/-- Whether a value can be a key; `depth` bounds how many references are followed. -/
def isKeyAt (w : World) : Nat → Value → Bool
  | 0, _ => true
  | depth + 1, v =>
    match v with
    | .object o => ((w.heap.get? o).map (objectIsKey (w.isKeyAt depth))).getD true
    | .plan p =>
      match w.plan? p with
      | some plan =>
        plan.layers.all (layerIsKey (w.isKeyAt depth))
          && plan.attributes.all fun d => attributeIsKey (w.isKeyAt depth) d.value
      | none => true
    | .settings _ | .fields _ | .tableView _ .keys _ | .tableView _ .items _ => false
    | .inner type _ _ => type ≠ "mappingproxy"
    | _ => true

/-- **Whether a value can be a key.** Containers that can change cannot. -/
def isKey (w : World) (v : Value) : Bool := w.isKeyAt w.comparingDepth v

/-- Whether values of a kind can be keys at all. -/
def hasHash (w : World) (v : Value) : Bool :=
  match v, w.heap.object? v with
  | _, some (.list _) | _, some (.dict _) | _, some (.set _) | _, some (.snapshot _) => false
  | _, some (.record m _) => !m.openFields
  | .settings _, _ | .fields _, _ | .tableView _ .keys _, _ | .tableView _ .items _, _ => false
  | .inner type _ _, _ => type ≠ "mappingproxy"
  | _, _ => true

def sameKey (w : World) (a b : Value) : Bool := (samePart (m := Id) w.equal a b).run

def entryValue? (w : World) (es : List (Value × Value)) (k : Value) : Option Value :=
  (es.find? fun e => w.sameKey e.1 k).map (·.2)

/-- Replaces the value under an equal key, which keeps its place and form, or adds the entry. -/
def insertEntry (w : World) (k v : Value) : List (Value × Value) → List (Value × Value)
  | [] => [(k, v)]
  | (k', v') :: es => if w.sameKey k' k then (k', v) :: es else (k', v') :: w.insertEntry k v es

end World

end TraitFactory
