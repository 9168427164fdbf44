import TraitFactory.Host
import TraitFactory.Proofs.Apart
import TraitFactory.Proofs.Stack

/-!
# What registries do not matter for

Keys, views, names of types and methods of values are read off objects, functions and definitions.
So is what a factory compiles to, once the global table of traits is given.
-/

namespace TraitFactory

namespace World

variable (w : World) (m : Margin)

/-! ## 1. Keys -/

theorem equal_withMargin : (w.withMargin m).equal = w.equal :=
  same_withMargin w m _

theorem entryValue?_withMargin : (w.withMargin m).entryValue? = w.entryValue? := by
  funext es k
  rw [entryValue?, entryValue?, sameKey_withMargin]

theorem insertEntry_withMargin : (w.withMargin m).insertEntry = w.insertEntry := by
  funext k v es
  induction es with
  | nil => rfl
  | cons e es ih =>
    obtain ⟨k', v'⟩ := e
    rw [insertEntry, insertEntry, sameKey_withMargin, ih]

theorem isKeyAt_withMargin (depth : Nat) :
    (w.withMargin m).isKeyAt depth = w.isKeyAt depth := by
  induction depth with
  | zero => rfl
  | succ depth ih =>
    funext v
    simp only [isKeyAt, ih]
    rfl

theorem isKey_withMargin : (w.withMargin m).isKey = w.isKey :=
  isKeyAt_withMargin w m _

/-! ## 2. Views and types -/

theorem view_withMargin (v : Value) : (w.withMargin m).view v = w.view v := by
  rw [view, unfold_withMargin]
  rfl

theorem typeName_withMargin (v : Value) :
    (w.withMargin m).typeName v = w.typeName v := by
  cases v with
  | method serial receiver name => cases receiver <;> rfl
  | _ => rfl

theorem takenText_withMargin (v : Value) :
    (w.withMargin m).takenText v = w.takenText v := by
  cases v <;> simp only [takenText, written_withMargin]

theorem method?_withMargin (v : Value) :
    (w.withMargin m).method? v = w.method? v := by
  have hown : (w.withMargin m).ownInterface = w.ownInterface := by
    funext v
    cases v <;> simp only [ownInterface, typeName_withMargin] <;> rfl
  funext name
  cases v <;> simp only [method?, interface, hown]

theorem untold_withMargin (v : Value) :
    (w.withMargin m).untold v = w.untold v := by
  cases v <;> simp only [untold, typeName_withMargin]

theorem arity_withMargin (v : Value) :
    (w.withMargin m).arity v = w.arity v := by
  cases v <;> simp only [arity, method?_withMargin, untold_withMargin]
  rfl

theorem typeOf_withMargin (v : Value) :
    (w.withMargin m).typeOf v = w.typeOf v := by
  unfold typeOf
  rw [typeName_withMargin]
  rfl

/-! ## 3. Traits -/

theorem definedUnder?_withMargin :
    (w.withMargin m).definedUnder? = w.definedUnder? := by
  funext t name
  unfold definedUnder?
  rw [entryValue?_withMargin]
  rfl

theorem findTrait?_withMargin :
    (w.withMargin m).findTrait? = w.findTrait? := by
  have hlocal : (w.withMargin m).findLocal? = w.findLocal? := by
    funext name levels
    induction levels with
    | nil => rfl
    | cons level older ih =>
      unfold findLocal?
      rw [definedUnder?_withMargin, ih]
      rfl
  funext global scope name
  unfold findTrait?
  rw [definedUnder?_withMargin, hlocal]
  rfl

/-! ## 4. Compilation -/

theorem callbacksOf_withMargin : (w.withMargin m).callbacksOf = w.callbacksOf := by
  have hregistered : (w.withMargin m).registered = w.registered := by
    funext entries e
    unfold registered
    rw [entryValue?_withMargin]
    rfl
  funext s
  cases s with
  | own cs => rfl
  | given v =>
    simp only [callbacksOf, hregistered]
    rfl

theorem writtenName_withMargin : (w.withMargin m).writtenName = w.writtenName := by
  funext d
  rw [writtenName, writtenName, takenText_withMargin]

theorem layerOf_withMargin (d : Definition) (kind : LayerKind) (scope : Option String) :
    (w.withMargin m).layerOf d kind scope = w.layerOf d kind scope := by
  unfold layerOf
  rw [callbacksOf_withMargin, writtenName_withMargin]
  rfl

theorem traitAt_withMargin (global : Slot (Table DefinitionId)) :
    (w.withMargin m).traitAt global = w.traitAt global := by
  funext scope trail ref
  have hquoted : (w.withMargin m).quoted ref = w.quoted ref := by
    unfold quoted fullView
    rw [unfold_withMargin]
    rfl
  unfold traitAt
  rw [hquoted, findTrait?_withMargin]
  rfl

theorem scopeName_withMargin : (w.withMargin m).scopeName = w.scopeName := by
  funext scope
  unfold scopeName
  rw [writtenName_withMargin]
  rfl

theorem expand_withMargin (global : Slot (Table DefinitionId)) (scope : DefinitionId)
    (kind : LayerKind) (depth : Nat) :
    (w.withMargin m).expand global scope kind depth =
      w.expand global scope kind depth := by
  induction depth with
  | zero =>
    funext trail ref
    rw [expand_zero, expand_zero, traitAt_withMargin]
    rfl
  | succ depth ih =>
    funext trail ref
    simp only [expand_succ, traitAt_withMargin, scopeName_withMargin,
      layerOf_withMargin, ih]
    rfl

theorem expandAll_withMargin (global : Slot (Table DefinitionId)) :
    (w.withMargin m).expandAll global = w.expandAll global := by
  funext scope kind refs
  have hdepth : (w.withMargin m).expansionDepth = w.expansionDepth := rfl
  rw [expandAll, expandAll, hdepth, expand_withMargin]

theorem levelLayers_withMargin (global : Slot (Table DefinitionId)) :
    (w.withMargin m).levelLayers global = w.levelLayers global := by
  funext level
  simp only [levelLayers, expandAll_withMargin, layerOf_withMargin]
  rfl

theorem planOn_withMargin (global : Slot (Table DefinitionId)) :
    (w.withMargin m).planOn global = w.planOn global := by
  funext f dynamic inherited
  unfold planOn
  rw [expandAll_withMargin, writtenName_withMargin]
  rfl

theorem cachedStaticLayers_withMargin (global : Slot (Table DefinitionId))
    (above : Except Failure (List Layer)) :
    (w.withMargin m).cachedStaticLayers global above =
      w.cachedStaticLayers global above := by
  funext levels
  induction levels with
  | nil => rfl
  | cons level older ih =>
    funext c
    unfold cachedStaticLayers
    rw [ih, levelLayers_withMargin]
    rfl

end World

end TraitFactory
