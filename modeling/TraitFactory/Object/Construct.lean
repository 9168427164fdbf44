import TraitFactory.World.Unfold

/-!
# Construction

Makes instances of models. A constructor takes exactly its own parameters, by position or by
name; the model of open fields takes any names and no positions.
-/

namespace TraitFactory

/-- Binds a constructor's arguments; `none` when they do not fit. -/
def Model.bind? (m : Model) (arguments : List Value) (keywords : List (String × Value)) :
    Option (List (String × Value)) :=
  if m.openFields then if arguments.isEmpty then some keywords else none
  else
    let free := m.parameters.drop arguments.length
    if arguments.length ≤ m.parameters.length && keywords.all (fun k => free.contains k.1)
        && free.all (fun p => (keywords.lookup p).isSome) then
      some (m.parameters.zip arguments ++ free.filterMap fun p => (keywords.lookup p).map (p, ·))
    else none

namespace Action

/-- **Makes an instance.** -/
def construct (m : Model) (arguments : List Value) (keywords : List (String × Value)) :
    Action Value := do
  match m.bind? arguments keywords with
  | none => wrongType
  | some fields =>
    match m.refusal with
    | some message => fail (.badValue message)
    | none =>
      let lists ← m.listFields.mapM fun name => return (name, ← alloc (.list []))
      alloc (.record m (Table.ofList (lists ++ fields)))

end Action

end TraitFactory
