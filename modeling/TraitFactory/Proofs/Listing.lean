import TraitFactory.Proofs.Grounding
import TraitFactory.Proofs.Loading

/-!
# What the command for factories shows

A row for each factory of the session's registry, in the order of registration: its name, its parent's,
that of the model which it has itself or inherits, and the traits that it applies and declares, these in
the order of their declaration; and then a line with the names of the global traits. Without any
factory only this is told, whatever global traits there are.
-/

namespace TraitFactory

/-! ## 1. Inherited models -/

/-- **What is inherited as a model**, from a value up to the next ancestor that has a model: nothing, if
none has. The levels are those that are asked in vain, and the one that has the model. -/
inductive Inherits (ds : Definitions) : Value → List DefinitionId → Option Value → Prop
  | nothing : Inherits ds .null [] none
  | own {f : DefinitionId} {t : Template} (ht : ds.template? f = some t) (hm : t.model ≠ .null) :
      Inherits ds (.definition f) [f] (some t.model)
  | above {f : DefinitionId} {t : Template} {levels : List DefinitionId} {model : Option Value}
      (ht : ds.template? f = some t) (hm : t.model = .null)
      (h : Inherits ds t.parent levels model) : Inherits ds (.definition f) (f :: levels) model

namespace Inherits

variable {ds : Definitions} {v : Value} {levels levels' : List DefinitionId}
  {model model' : Option Value} {f : DefinitionId}

theorem unique (h : Inherits ds v levels model) (h' : Inherits ds v levels' model') :
    levels = levels' ∧ model = model' := by
  induction h generalizing levels' with
  | nothing =>
    cases h'
    exact ⟨rfl, rfl⟩
  | own ht hm =>
    cases h' with
    | own ht' =>
      obtain rfl := Option.some.inj (ht.symm.trans ht')
      exact ⟨rfl, rfl⟩
    | above ht' hm' =>
      obtain rfl := Option.some.inj (ht.symm.trans ht')
      exact absurd hm' hm
  | above ht hm _ ih =>
    cases h' with
    | own ht' hm' =>
      obtain rfl := Option.some.inj (ht.symm.trans ht')
      exact absurd hm hm'
    | above ht' _ h' =>
      obtain rfl := Option.some.inj (ht.symm.trans ht')
      obtain ⟨rfl, rfl⟩ := ih h'
      exact ⟨rfl, rfl⟩

/-- What is inherited is inherited from every level that is asked. -/
theorem of_mem (h : Inherits ds v levels model) (hf : f ∈ levels) :
    ∃ older, Inherits ds (.definition f) (f :: older) model ∧
      (f :: older).length ≤ levels.length := by
  induction h with
  | nothing => exact absurd hf List.not_mem_nil
  | own ht hm =>
    obtain rfl := List.mem_singleton.mp hf
    exact ⟨[], .own ht hm, Nat.le_refl _⟩
  | @above g t levels model ht hm h ih =>
    obtain rfl | hf := List.mem_cons.mp hf
    · exact ⟨levels, .above ht hm h, Nat.le_refl _⟩
    · obtain ⟨older, holder, hlength⟩ := ih hf
      exact ⟨older, holder, Nat.le_succ_of_le hlength⟩

/-- No level is asked twice: it would be asked again and again. -/
theorem nodup (h : Inherits ds v levels model) : levels.Nodup := by
  induction h with
  | nothing => exact List.nodup_nil
  | own => exact List.nodup_singleton _
  | @above f t levels model ht hm h ih =>
    refine List.nodup_cons.mpr ⟨fun hmem => ?_, ih⟩
    obtain ⟨older, holder, hlength⟩ := h.of_mem hmem
    have hsame := (holder.unique (.above ht hm h)).1
    rw [hsame, List.length_cons] at hlength
    exact absurd hlength (Nat.not_succ_le_self _)

theorem length_le (h : Inherits ds v levels model) : levels.length ≤ ds.size := by
  refine Definitions.length_le_size h.nodup fun f hf => ?_
  obtain ⟨older, holder, _⟩ := h.of_mem hf
  have htemplate : ∃ t, ds.template? f = some t := by
    cases holder with
    | own ht => exact ⟨_, ht⟩
    | above ht => exact ⟨_, ht⟩
  obtain ⟨t, ht⟩ := htemplate
  obtain ⟨x, hx, _⟩ := Definitions.get?_of_template? ht
  exact ⟨x, hx⟩

end Inherits

namespace Definitions

variable {ds : Definitions} {v : Value} {levels : List DefinitionId} {model : Option Value}
  {f : DefinitionId}

/-- The model that a level has itself. -/
def ownModel? (ds : Definitions) (f : DefinitionId) : Option Value :=
  (ds.template? f).bind (·.model.hook?)

theorem ownModel?_eq_some {t : Template} (ht : ds.template? f = some t) (hm : t.model ≠ .null) :
    ds.ownModel? f = some t.model := by
  rw [ownModel?, ht, Option.bind_some, Value.hook?, if_neg hm]

theorem ownModel?_eq_none {t : Template} (ht : ds.template? f = some t) (hm : t.model = .null) :
    ds.ownModel? f = none := by
  rw [ownModel?, ht, Option.bind_some, Value.hook?, if_pos hm]

/-- A search that goes far enough finds what is inherited. -/
theorem search_of_inherits (h : Inherits ds v levels model) {depth : Nat}
    (hdepth : levels.length ≤ depth) :
    (ds.lineageFrom depth v).levels.findSome? ds.ownModel? = model ∧
      (model = none → (ds.lineageFrom depth v).closed = true) := by
  induction h generalizing depth with
  | nothing =>
    rw [lineageFrom]
    exact ⟨rfl, fun _ => rfl⟩
  | own ht hm =>
    obtain ⟨depth, rfl⟩ := Nat.exists_eq_add_of_le' hdepth
    rw [List.length_singleton, lineageFrom, ht]
    exact ⟨by rw [List.findSome?_cons, ownModel?_eq_some ht hm],
      fun h => absurd h (Option.some_ne_none _)⟩
  | above ht hm _ ih =>
    obtain ⟨depth, rfl⟩ := Nat.exists_eq_add_one_of_ne_zero (n := depth) (by grind)
    obtain ⟨hfound, hclosed⟩ := ih (Nat.le_of_succ_le_succ hdepth)
    rw [lineageFrom, ht]
    exact ⟨by rw [List.findSome?_cons, ownModel?_eq_none ht hm]; exact hfound, hclosed⟩

/-- What a search finds is inherited; where it finds nothing it must have come to an end. -/
theorem inherits_of_search {depth : Nat}
    (hfound : (ds.lineageFrom depth v).levels.findSome? ds.ownModel? = model)
    (hclosed : model = none → (ds.lineageFrom depth v).closed = true) :
    ∃ levels, Inherits ds v levels model := by
  fun_induction lineageFrom ds depth v with
  | case1 =>
    cases hfound
    exact ⟨[], .nothing⟩
  | case2 depth f t ht above ih =>
    by_cases hm : t.model = .null
    · rw [List.findSome?_cons, ownModel?_eq_none ht hm] at hfound
      obtain ⟨levels, h⟩ := ih hfound hclosed
      exact ⟨f :: levels, .above ht hm h⟩
    · rw [List.findSome?_cons, ownModel?_eq_some ht hm] at hfound
      exact ⟨[f], hfound ▸ .own ht hm⟩
  | case3 depth f ht =>
    rw [List.findSome?_cons, ownModel?, ht] at hfound
    cases hfound
    exact absurd (hclosed rfl) Bool.false_ne_true
  | case4 =>
    cases hfound
    exact absurd (hclosed rfl) Bool.false_ne_true

/-- **The model of a factory is the one that it inherits**, and where there is none the search comes to
an end. -/
theorem inherits_iff : (∃ levels, Inherits ds (.definition f) levels model) ↔
    ds.losesModel f = false ∧ ds.model? f = model := by
  have hmodel : ds.model? f = (ds.lineage f).levels.findSome? ds.ownModel? := rfl
  constructor
  · rintro ⟨levels, h⟩
    obtain ⟨hfound, hclosed⟩ := search_of_inherits h (Nat.le_succ_of_le h.length_le)
    have hfound : ds.model? f = model := hfound
    refine ⟨?_, hfound⟩
    rw [losesModel, hfound]
    cases model with
    | none =>
      have hclosed : ds.hasLineage f = true := hclosed rfl
      rw [hclosed]
      rfl
    | some m => rfl
  · rintro ⟨hloses, hfound⟩
    refine inherits_of_search (hmodel ▸ hfound) fun hnone => ?_
    rw [losesModel, hfound, hnone] at hloses
    have hclosed : ds.hasLineage f = true := by simpa using hloses
    exact hclosed

end Definitions

/-! ## 2. Rows -/

/-- **What a row tells of a factory.** -/
structure Portrait where
  name : String
  parent : String
  model : String
  traits : List String
  locals : List String
  deriving Inhabited

def Portrait.row (p : Portrait) : List String :=
  [p.name, p.parent, p.model, listed p.traits, listed p.locals]

/-- What stands in a cell for a value: a text as it is, and an empty one for nothing. -/
def Value.Fills (v : Value) (s : String) : Prop := v.asText? = some s ∨ v = .null ∧ s = ""

/-- Values are these texts, one by one. -/
def Spell (vs : List Value) (names : List String) : Prop :=
  List.Forall₂ (fun v s => v.asText? = some s) vs names

namespace World

/-- **A factory as its row tells of it**: its name, its parent's, that of the model which it has or
inherits, the traits that it applies, and those in its own table. -/
inductive Portrays (w : World) : Value → Portrait → Prop
  | factory {f : DefinitionId} {x : Definition} {t : Template} {levels : List DefinitionId}
      {inherited : Option Value} {parent model : Value} {traits locals : List Value} {p : Portrait}
      (hx : w.definitions.get? f = some x) (ht : x.template = some t)
      (hname : x.nameValue.Fills p.name)
      (hparent : w.parentName t.parent = .ok parent) (hparents : parent.Fills p.parent)
      (hinherits : Inherits w.definitions (.definition f) levels inherited)
      (hmodel : w.modelName inherited = .ok model) (hmodels : model.Fills p.model)
      (htraits : w.references x.appliedTraits = .ok traits) (happlied : Spell traits p.traits)
      (hlocals : w.tableKeys t.traits = .ok locals) (hdeclared : Spell locals p.locals) :
      Portrays w (.definition f) p

variable {w : World} {v : Value} {s : String} {vs : List Value}

theorem cell_eq_ok_iff : w.cell v = .ok s ↔ v.Fills s := by
  unfold cell Value.Fills
  split
  · rename_i hs
    rw [hs]
    constructor
    · rintro ⟨⟩
      exact .inl rfl
    · rintro (h | ⟨rfl, -⟩)
      · exact congrArg Except.ok (Option.some.inj h)
      · cases hs
  · constructor
    · rintro ⟨⟩
      exact .inr ⟨rfl, rfl⟩
    · rintro (h | ⟨-, rfl⟩)
      · cases h
      · rfl
  · rename_i hnull hs
    constructor
    · rintro ⟨⟩
    · rintro (h | ⟨rfl, -⟩)
      · exact nomatch hs.symm.trans h
      · exact absurd rfl hnull

theorem joined_eq_ok_iff : joined vs = .ok s ↔ ∃ names, Spell vs names ∧ s = listed names := by
  have hspell : ∀ names, vs.mapM (·.asText?) = some names ↔ Spell vs names := by
    induction vs with
    | nil => intro names; cases names <;> simp [Spell]
    | cons v vs ih =>
      intro names
      unfold Spell at ih ⊢
      rw [List.mapM_cons]
      cases names <;> simp [← ih, Option.bind_eq_some_iff]
  unfold joined
  split
  · rename_i names hnames
    constructor
    · rintro ⟨⟩
      exact ⟨names, (hspell names).mp hnames, rfl⟩
    · rintro ⟨names', hnames', rfl⟩
      obtain rfl := Option.some.inj (hnames.symm.trans ((hspell names').mpr hnames'))
      rfl
  · rename_i hnone
    constructor
    · rintro ⟨⟩
    · rintro ⟨names, hnames, -⟩
      exact nomatch hnone.symm.trans ((hspell names).mpr hnames)

theorem mapError_eq_ok_iff {α ε ε' : Type} {x : Except ε α} {f : ε → ε'} {a : α} :
    x.mapError f = .ok a ↔ x = .ok a := by
  cases x <;> simp [Except.mapError]

/-- A name fills the cell that it is put in. -/
theorem cells_eq_ok_iff {a b c : Value} {cells : List String} :
    [a, b, c].mapM w.cell = .ok cells ↔
      ∃ s s' s'', a.Fills s ∧ b.Fills s' ∧ c.Fills s'' ∧ cells = [s, s', s''] := by
  rw [mapM_eq_ok_iff]
  constructor
  · rintro (_ | ⟨ha, _ | ⟨hb, _ | ⟨hc, ⟨⟩⟩⟩⟩)
    exact ⟨_, _, _, cell_eq_ok_iff.mp ha, cell_eq_ok_iff.mp hb, cell_eq_ok_iff.mp hc, rfl⟩
  · rintro ⟨s, s', s'', ha, hb, hc, rfl⟩
    exact .cons (cell_eq_ok_iff.mpr ha) (.cons (cell_eq_ok_iff.mpr hb)
      (.cons (cell_eq_ok_iff.mpr hc) .nil))

/-- **A row is made of a factory just as it is to be told of.** -/
theorem factoryRow_eq_ok_iff {row : List String} :
    w.factoryRow v = .ok row ↔ ∃ p, w.Portrays v p ∧ row = p.row := by
  constructor
  · intro h
    unfold factoryRow at h
    split at h
    · rename_i f
      rcases hx : w.definitions.get? f with _ | x <;> rw [hx] at h
      · cases h
      dsimp only at h
      rcases ht : x.template with _ | t <;> rw [ht] at h
      · cases h
      dsimp only at h
      split at h
      · cases h
      rename_i hloses
      simp only [bind_eq_ok_iff, mapError_eq_ok_iff, joined_eq_ok_iff, cells_eq_ok_iff] at h
      obtain ⟨parent, hparent, model, hmodel, traits, htraits, _, ⟨applied, happlied, rfl⟩, locals,
        hlocals, _, ⟨declared, hdeclared, rfl⟩, _,
        ⟨s, s', s'', hname, hparents, hmodels, rfl⟩, hrow⟩ := h
      obtain ⟨levels, hinherits⟩ := Definitions.inherits_iff.mpr ⟨by simpa using hloses, rfl⟩
      cases hrow
      exact ⟨⟨s, s', s'', applied, declared⟩, .factory hx ht hname hparent hparents hinherits hmodel
        hmodels htraits happlied hlocals hdeclared, rfl⟩
    · cases h
  · rintro ⟨p, h, rfl⟩
    cases h with
    | @factory f x t levels inherited parent model traits locals p hx ht hname hparent hparents
        hinherits hmodel hmodels htraits happlied hlocals hdeclared =>
      obtain ⟨hloses, rfl⟩ := Definitions.inherits_iff.mp ⟨levels, hinherits⟩
      unfold factoryRow
      simp only [hx, ht, hloses, Bool.false_eq_true, if_false]
      simp only [bind_eq_ok_iff, mapError_eq_ok_iff, joined_eq_ok_iff, cells_eq_ok_iff]
      exact ⟨parent, hparent, model, hmodel, traits, htraits, _, ⟨_, happlied, rfl⟩, locals,
        hlocals, _, ⟨_, hdeclared, rfl⟩, _, ⟨_, _, _, hname, hparents, hmodels, rfl⟩, rfl⟩

/-! ## 3. Reports -/

/-- **The line that names global traits**, in the order of their table; none if there are none. -/
inductive NamesGlobals (w : World) (reg : Registry) : List Display → Prop
  | nothing (h : w.holdsNothing reg.traits = true) : NamesGlobals w reg []
  | line {keys : List Value} {names : List String} (h : w.holdsNothing reg.traits = false)
      (hkeys : w.tableKeys reg.traits = .ok keys) (hnames : Spell keys names) :
      NamesGlobals w reg [.line ("Global traits: " ++ listed names)]

/-- **What is shown of a registry**: a row for each factory in the order of the table, and the global
traits. Of a registry without factories only this is told. -/
inductive Reports (w : World) (reg : Registry) : List Display → Prop
  | nothing (h : w.holdsNothing reg.factories = true) :
      Reports w reg [.line "[dim]No factories registered.[/dim]"]
  | factories {fs : List Value} {ps : List Portrait} {globals : List Display}
      (h : w.holdsNothing reg.factories = false) (hfs : w.tableValues reg.factories = .ok fs)
      (hps : List.Forall₂ w.Portrays fs ps) (hglobals : w.NamesGlobals reg globals) :
      Reports w reg (.sheet ⟨"Factories", ["Factory", "Parent", "Model", "Traits", "Local traits"],
        ps.map Portrait.row⟩ :: globals)

variable {reg : Registry} {sheet : Sheet} {globals : List Display}

theorem globalsLine_eq_ok_iff : w.globalsLine reg = .ok globals ↔ w.NamesGlobals reg globals := by
  unfold globalsLine
  rcases h : w.holdsNothing reg.traits with _ | _
  · simp only [Bool.false_eq_true, if_false, bind_eq_ok_iff, joined_eq_ok_iff]
    constructor
    · rintro ⟨keys, hkeys, _, ⟨names, hnames, rfl⟩, ⟨⟩⟩
      exact .line h hkeys hnames
    · rintro (hnothing | ⟨_, hkeys, hnames⟩)
      · exact nomatch h.symm.trans hnothing
      · exact ⟨_, hkeys, _, ⟨_, hnames, rfl⟩, rfl⟩
  · constructor
    · rintro ⟨⟩
      exact .nothing h
    · rintro (_ | ⟨hsome, _, _⟩)
      · rfl
      · exact nomatch h.symm.trans hsome

theorem factoriesSheet_eq_ok_iff : w.factoriesSheet reg = .ok sheet ↔
    ∃ fs ps, w.tableValues reg.factories = .ok fs ∧ List.Forall₂ w.Portrays fs ps ∧
      sheet = ⟨"Factories", ["Factory", "Parent", "Model", "Traits", "Local traits"],
        ps.map Portrait.row⟩ := by
  have hrows : ∀ fs rows, fs.mapM w.factoryRow = .ok rows ↔
      ∃ ps, List.Forall₂ w.Portrays fs ps ∧ rows = ps.map Portrait.row := by
    intro fs rows
    rw [mapM_eq_ok_iff]
    constructor
    · intro h
      induction h with
      | nil => exact ⟨[], .nil, rfl⟩
      | cons hrow _ ih =>
        obtain ⟨p, hp, rfl⟩ := factoryRow_eq_ok_iff.mp hrow
        obtain ⟨ps, hps, rfl⟩ := ih
        exact ⟨p :: ps, .cons hp hps, rfl⟩
    · rintro ⟨ps, hps, rfl⟩
      induction hps with
      | nil => exact .nil
      | cons hp _ ih => exact .cons (factoryRow_eq_ok_iff.mpr ⟨_, hp, rfl⟩) ih
  unfold factoriesSheet
  simp only [bind_eq_ok_iff, hrows]
  constructor
  · rintro ⟨fs, hfs, _, ⟨ps, hps, rfl⟩, ⟨⟩⟩
    exact ⟨fs, ps, hfs, hps, rfl⟩
  · rintro ⟨fs, ps, hfs, hps, rfl⟩
    exact ⟨fs, hfs, _, ⟨ps, hps, rfl⟩, rfl⟩

theorem reports_of_nothing (h : w.holdsNothing reg.factories = true) {shown : List Display} :
    w.Reports reg shown ↔ shown = [.line "[dim]No factories registered.[/dim]"] := by
  constructor
  · rintro (_ | ⟨hsome, _, _, _⟩)
    · rfl
    · exact nomatch h.symm.trans hsome
  · rintro rfl
    exact .nothing h

theorem reports_of_factories (h : w.holdsNothing reg.factories = false) {shown : List Display} :
    w.Reports reg shown ↔ ∃ sheet globals, w.factoriesSheet reg = .ok sheet ∧
      w.globalsLine reg = .ok globals ∧ shown = .sheet sheet :: globals := by
  simp only [factoriesSheet_eq_ok_iff, globalsLine_eq_ok_iff]
  constructor
  · rintro (hnothing | ⟨_, hfs, hps, hglobals⟩)
    · exact nomatch h.symm.trans hnothing
    · exact ⟨_, _, ⟨_, _, hfs, hps, rfl⟩, hglobals, rfl⟩
  · rintro ⟨_, globals, ⟨fs, ps, hfs, hps, rfl⟩, hglobals, rfl⟩
    exact .factories h hfs hps hglobals

end World

namespace CommandRun

variable {w w' : World} {reg : Registry}

/-- What the command for factories comes to. What fails may do so after the table has been shown. -/
theorem execute_factories (hreg : w.registryAt? ⟨0⟩ = some reg) : factories.execute w =
    if w.holdsNothing reg.factories then
      (.ok { shown := [.line "[dim]No factories registered.[/dim]"] }, w)
    else
      match w.factoriesSheet reg with
      | .error c => (.error (.escaped (Failure.raise c)), w)
      | .ok sheet =>
        match w.globalsLine reg with
        | .error c => (.error (.escaped (Failure.raise c) [.sheet sheet]), w)
        | .ok globals => (.ok { shown := .sheet sheet :: globals }, w) := by
  have hget : (get : CommandRun World).execute w = (.ok w, w) := rfl
  rw [factories, execute_bind_ok (execute_perform_ok (Action.execute_getRegistry hreg)),
    execute_bind_ok hget]
  split
  · rfl
  · rcases w.factoriesSheet reg with c | sheet
    · rfl
    · rcases w.globalsLine reg with c | globals <;> rfl

/-- **The command for factories shows what is to be told of the registry**, and changes nothing. -/
theorem execute_factories_eq_ok_iff (hreg : w.registryAt? ⟨0⟩ = some reg) {result : CommandResult} :
    factories.execute w = (.ok result, w') ↔
      w' = w ∧ result.output = "" ∧ w.Reports reg result.shown := by
  obtain ⟨output, shown⟩ := result
  rw [execute_factories hreg]
  rcases h : w.holdsNothing reg.factories with _ | _
  · rw [World.reports_of_factories h]
    rcases w.factoriesSheet reg with c | sheet
    · simp
    · rcases w.globalsLine reg with c | globals <;> simp [eq_comm, and_comm]
  · rw [World.reports_of_nothing h]
    simp [eq_comm, and_comm]

end CommandRun

/-! ## 4. Declared registries -/

namespace World

/-- **A registered factory as its row tells of it** where all has been declared. -/
inductive Describes (w : World) : String × DefinitionId → Portrait → Prop
  | factory {f : DefinitionId} {x : Definition} {t : Template} {levels : List DefinitionId}
      {inherited : Option Value} {parent model : String}
      (hx : w.definitions.get? f = some x) (ht : x.template = some t)
      (hparent : t.parent = .null ∧ parent = "" ∨
        ∃ q y, t.parent = .definition q ∧ w.definitions.get? q = some y ∧ parent = y.name)
      (hinherits : Inherits w.definitions (.definition f) levels inherited)
      (hmodel : inherited = none ∧ model = "" ∨
        ∃ m v, inherited = some m ∧ w.fieldOf m "__name__" = .ok v ∧ v.Fills model) :
      Describes w (x.name, f) ⟨x.name, parent, model, x.applied, x.locals.keys⟩

/-- **What is shown of a registry in which all has been declared**: a row for each of its factories, in
the order in which they are registered, and then the names of all its global traits, if it has any; but
only that there is no factory, if there is none. -/
def Tells (w : World) (reg : Registry) (shown : List Display) : Prop :=
  reg.enrolled.entries = [] ∧ shown = [.line "[dim]No factories registered.[/dim]"] ∨
  reg.enrolled.entries ≠ [] ∧ ∃ ps, List.Forall₂ w.Describes reg.enrolled.entries ps ∧
    shown = .sheet ⟨"Factories", ["Factory", "Parent", "Model", "Traits", "Local traits"],
        ps.map Portrait.row⟩ ::
      if reg.globals.keys = [] then []
      else [.line ("Global traits: " ++ listed reg.globals.keys)]

/-- **A registry whose factories are what they are to be**: they and their parents are factories, and
what they have for models is named by a text. -/
structure WellTyped (w : World) (reg : Registry) : Prop where
  factories : ∀ e ∈ reg.enrolled.entries, ∃ t, w.definitions.template? e.2 = some t
  parents : ∀ d t q, w.definitions.template? d = some t → t.parent = .definition q →
    ∃ t', w.definitions.template? q = some t'
  models : ∀ d t, w.definitions.template? d = some t → t.model ≠ .null →
    ∃ s, w.fieldOf t.model "__name__" = .ok (.text s)

variable {w w₀ : World} {reg : Registry} {r : RegistryId} {f : DefinitionId}

theorem fills_text {s s' : String} : (Value.text s).Fills s' ↔ s' = s := by
  constructor
  · rintro (h | ⟨h, -⟩)
    · exact (Option.some.inj h).symm
    · cases h
  · rintro rfl
    exact .inl rfl

theorem spell_texts {names names' : List String} :
    Spell (names.map .text) names' ↔ names' = names := by
  rw [Spell, List.forall₂_map_left_iff]
  constructor
  · intro h
    induction h with
    | nil => rfl
    | cons hs _ ih => rw [ih, Option.some.inj hs]
  · rintro rfl
    exact List.forall₂_same.mpr fun _ _ => rfl

/-- A parent that has been declared is nothing, or a definition that is there. -/
theorem parentName_cases (hw : w.Ordinary) (hg : w.Grounded) {t : Template}
    (ht : w.definitions.template? f = some t) :
    t.parent = .null ∧ w.parentName t.parent = .ok (.text "") ∨
      ∃ q y, t.parent = .definition q ∧ w.definitions.get? q = some y ∧
        w.parentName t.parent = .ok (.text y.name) := by
  obtain hnull | ⟨q, hq, holder⟩ := hg.definitions.parents f t ht
  · exact .inl ⟨hnull, by rw [hnull]; rfl⟩
  · -- A parent is older than its child, so it is there.
    obtain ⟨x, hx, -⟩ := Definitions.get?_of_template? ht
    have hlt := Nat.lt_trans holder (Definitions.index_lt_of_get? hx)
    obtain ⟨y, hy⟩ : ∃ y, w.definitions.get? q = some y := ⟨_, Array.getElem?_eq_getElem hlt⟩
    refine .inr ⟨q, y, hq, hy, ?_⟩
    rw [hq, ← (hw.definitions q y hy).nameValue_eq, parentName, hy]

/-- The name of a parent that has been declared. -/
theorem fills_parentName (hw : w.Ordinary) (hg : w.Grounded) {t : Template}
    (ht : w.definitions.template? f = some t) {s : String} :
    (∃ v, w.parentName t.parent = .ok v ∧ v.Fills s) ↔ t.parent = .null ∧ s = "" ∨
      ∃ q y, t.parent = .definition q ∧ w.definitions.get? q = some y ∧ s = y.name := by
  obtain ⟨hnull, hname⟩ | ⟨q, y, hq, hy, hname⟩ := parentName_cases hw hg ht
  · constructor
    · rintro ⟨v, hv, hfills⟩
      cases hname.symm.trans hv
      exact .inl ⟨hnull, fills_text.mp hfills⟩
    · rintro (⟨-, rfl⟩ | ⟨q, _, hq, -, -⟩)
      · exact ⟨_, hname, fills_text.mpr rfl⟩
      · exact nomatch hnull.symm.trans hq
  · constructor
    · rintro ⟨v, hv, hfills⟩
      cases hname.symm.trans hv
      exact .inr ⟨q, y, hq, hy, fills_text.mp hfills⟩
    · rintro (⟨hnull, -⟩ | ⟨q', y', hq', hy', rfl⟩)
      · exact nomatch hnull.symm.trans hq
      · obtain rfl := Value.definition.inj (hq.symm.trans hq')
        obtain rfl := Option.some.inj (hy.symm.trans hy')
        exact ⟨_, hname, fills_text.mpr rfl⟩

/-- The name of an inherited model. -/
theorem fills_modelName {inherited : Option Value} {s : String} :
    (∃ v, w.modelName inherited = .ok v ∧ v.Fills s) ↔ inherited = none ∧ s = "" ∨
      ∃ m v, inherited = some m ∧ w.fieldOf m "__name__" = .ok v ∧ v.Fills s := by
  cases inherited with
  | none =>
    constructor
    · rintro ⟨v, ⟨⟩, hfills⟩
      exact .inl ⟨rfl, fills_text.mp hfills⟩
    · rintro (⟨-, rfl⟩ | ⟨_, _, ⟨⟩, -, -⟩)
      exact ⟨_, rfl, fills_text.mpr rfl⟩
  | some m =>
    constructor
    · rintro ⟨v, hv, hfills⟩
      exact .inr ⟨m, v, rfl, hv, hfills⟩
    · rintro (⟨⟨⟩, -⟩ | ⟨_, v, ⟨⟩, hv, hfills⟩)
      exact ⟨v, hv, hfills⟩

/-- In an ordinary world a row tells of a factory what is declared of it. -/
theorem portrays_iff (hw : w.Ordinary) (hg : w.Grounded) {x : Definition}
    (hx : w.definitions.get? f = some x) {p : Portrait} :
    w.Portrays (.definition f) p ↔ w.Describes (x.name, f) p := by
  have hplain := hw.definitions f x hx
  have hname := hplain.nameValue_eq
  have htraits : w.references x.appliedTraits = .ok (x.applied.map .text) := references_plain hplain
  have hlocals : ∀ t, x.template = some t →
      w.tableKeys t.traits = .ok (x.locals.keys.map .text) := by
    intro t ht
    obtain ⟨table, htable⟩ := hplain.traits t ht
    rw [Definition.locals, ht, Option.bind_some, htable]
    rfl
  constructor
  · intro h
    obtain ⟨name, parent, model, applied, locals⟩ := p
    cases h with
    | @factory _ y t levels inherited parentName modelName traits tables _ hy ht hnames hparent
        hparents hinherits hmodel hmodels happlied hspell htable hdeclared =>
      obtain rfl := Option.some.inj (hx.symm.trans hy)
      rw [hname] at hnames
      obtain rfl := fills_text.mp hnames
      cases htraits.symm.trans happlied
      obtain rfl := spell_texts.mp hspell
      cases (hlocals t ht).symm.trans htable
      obtain rfl := spell_texts.mp hdeclared
      have htemplate := Option.bind_eq_some_iff.mpr ⟨x, hx, ht⟩
      exact .factory hx ht ((fills_parentName hw hg htemplate).mp ⟨_, hparent, hparents⟩) hinherits
        (fills_modelName.mp ⟨_, hmodel, hmodels⟩)
  · generalize hsame : x.name = name
    intro h
    cases h with
    | @factory _ y t levels inherited parent model hy ht hparent hinherits hmodel =>
      obtain rfl := Option.some.inj (hx.symm.trans hy)
      have htemplate := Option.bind_eq_some_iff.mpr ⟨x, hx, ht⟩
      obtain ⟨parentName, hparent, hparents⟩ := (fills_parentName hw hg htemplate).mpr hparent
      obtain ⟨modelName, hmodel, hmodels⟩ := fills_modelName.mpr hmodel
      exact .factory hx ht (hname ▸ fills_text.mpr rfl) hparent hparents hinherits hmodel hmodels
        htraits (spell_texts.mpr rfl) (hlocals t ht) (spell_texts.mpr rfl)

/-! ### Registered once -/

/-- Every registry has each factory under one name once. -/
def EnrolsOnce (w : World) : Prop :=
  ∀ r reg, w.registryAt? r = some reg → reg.enrolled.keys.Nodup

theorem EnrolsOnce.modifyRegistry (h : w.EnrolsOnce) {f : Registry → Registry}
    (hf : ∀ reg, w.registryAt? r = some reg → reg.enrolled.keys.Nodup →
      (f reg).enrolled.keys.Nodup) : (w.modifyRegistry r f).EnrolsOnce := by
  intro q reg' hreg'
  rw [registryAt?_modify] at hreg'
  split at hreg'
  · subst q
    obtain ⟨reg, hreg, rfl⟩ := Option.map_eq_some_iff.mp hreg'
    exact hf reg hreg (h r reg hreg)
  · exact h q reg' hreg'

/-- Every edit leaves names of factories once each. -/
theorem EnrolsOnce.edit {w' : World} (h : w.EnrolsOnce) (he : w.Edit w') : w'.EnrolsOnce := by
  cases he with
  | retained hr =>
    intro r reg' hreg'
    have hfollows := hr.follows r reg' hreg'
    rw [Registry.enrolled, hfollows.factories]
    rcases hreg : w.registryAt? r with _ | reg
    · exact List.nodup_nil
    · exact h r reg hreg
  | globally => exact h.modifyRegistry fun _ _ hreg => hreg
  | noTraits => exact h.modifyRegistry fun _ _ hreg => hreg
  | noFactories => exact h.modifyRegistry fun _ _ _ => List.nodup_nil
  | @enrolled r reg table d y hreg htable hd =>
    refine h.modifyRegistry fun reg' hreg' hnodup => ?_
    obtain rfl := Option.some.inj (hreg.symm.trans hreg')
    rw [Registry.enrolled, htable] at hnodup
    exact Table.nodup_keys_insert hnodup y.name d
  | _ => exact h

theorem EnrolsOnce.advanced (hblank : w₀.Blank) (hrun : w₀.Advanced w) : w.EnrolsOnce := by
  have hstart : w₀.EnrolsOnce := fun r reg hreg => by
    rw [hblank.registries r reg hreg]
    exact List.nodup_nil
  refine hrun.induction hblank.ordinary hstart (fun _ _ _ he h => h.edit he)
    fun w r factory traits hw h hthere => ?_
  obtain ⟨reg, hreg⟩ := hthere
  intro q reg' hreg'
  obtain ⟨reg₀, c, hreg₀, rfl⟩ := Action.registryAt?_compile hw hreg factory traits hreg'
  exact h q reg₀ hreg₀

/-! ### What is told -/

/-- What stands in the table of factories is there, under its own name. -/
theorem exists_of_enrolled (hw : w.Ordinary) (honce : w.EnrolsOnce)
    (hreg : w.registryAt? r = some reg) {e : String × DefinitionId}
    (he : e ∈ reg.enrolled.entries) : ∃ x, w.definitions.get? e.2 = some x ∧ x.name = e.1 := by
  have hf : reg.factory? e.1 = some e.2 := by
    rw [(hw.plain r reg hreg).factory?_eq]
    exact Table.get?_of_mem (honce r reg hreg) he
  exact hw.names r reg hreg e.1 e.2 hf

/-- Rows that tell of the factories in a table tell of them what is declared. -/
theorem portray_all_iff (hw : w.Ordinary) (hg : w.Grounded) (honce : w.EnrolsOnce)
    (hreg : w.registryAt? r = some reg) {ps : List Portrait} :
    List.Forall₂ w.Portrays (reg.enrolled.values.map .definition) ps ↔
      List.Forall₂ w.Describes reg.enrolled.entries ps := by
  have hone : ∀ e ∈ reg.enrolled.entries, ∀ p,
      w.Portrays (.definition e.2) p ↔ w.Describes e p := fun e he p => by
    obtain ⟨x, hx, hname⟩ := exists_of_enrolled hw honce hreg he
    rw [portrays_iff hw hg hx, hname]
  rw [Table.values, List.map_map, List.forall₂_map_left_iff]
  generalize reg.enrolled.entries = entries at hone
  induction entries generalizing ps with
  | nil => simp
  | cons e entries ih =>
    obtain ⟨hfirst, hrest⟩ := List.forall_mem_cons.mp hone
    cases ps with
    | nil => simp
    | cons p ps =>
      rw [List.forall₂_cons, List.forall₂_cons]
      exact and_congr (hfirst p) (ih hrest)

/-- The line on the global traits that have been declared. -/
theorem namesGlobals_iff (hplain : reg.Plain) {globals : List Display} :
    w.NamesGlobals reg globals ↔ globals = if reg.globals.keys = [] then [] else
      [.line ("Global traits: " ++ listed reg.globals.keys)] := by
  have htraits := hplain.traits_eq
  have hkeys : w.tableKeys reg.traits = .ok (reg.globals.keys.map .text) := by rw [htraits]; rfl
  have hempty : w.holdsNothing reg.traits = true ↔ reg.globals.keys = [] := by
    rw [htraits, holdsNothing, Table.isEmpty, List.isEmpty_iff, Table.keys, List.map_eq_nil_iff]
  split
  · rename_i hnone
    constructor
    · rintro (_ | ⟨hsome, _, _⟩)
      · rfl
      · exact absurd (hsome.symm.trans (hempty.mpr hnone)) Bool.false_ne_true
    · rintro rfl
      exact .nothing (hempty.mpr hnone)
  · rename_i hsome
    have hholds : w.holdsNothing reg.traits = false :=
      Bool.eq_false_iff.mpr fun hnone => hsome (hempty.mp hnone)
    constructor
    · rintro (hnothing | ⟨_, hkeys', hnames⟩)
      · exact absurd (hempty.mp hnothing) hsome
      · cases hkeys.symm.trans hkeys'
        rw [spell_texts.mp hnames]
    · rintro rfl
      exact .line hholds hkeys (spell_texts.mpr rfl)

/-- **Of what has been declared is told what is to be told.** -/
theorem reports_iff_tells (hw : w.Ordinary) (hg : w.Grounded) (honce : w.EnrolsOnce)
    (hreg : w.registryAt? r = some reg) {shown : List Display} :
    w.Reports reg shown ↔ w.Tells reg shown := by
  have hplain := hw.plain r reg hreg
  have hempty : w.holdsNothing reg.factories = true ↔ reg.enrolled.entries = [] := by
    rw [hplain.enrolled_eq, holdsNothing, Table.isEmpty, List.isEmpty_iff]
  have hvalues : w.tableValues reg.factories = .ok (reg.enrolled.values.map .definition) := by
    rw [hplain.enrolled_eq]
    rfl
  constructor
  · rintro (hnothing | ⟨hsome, hfs, hps, hglobals⟩)
    · exact .inl ⟨hempty.mp hnothing, rfl⟩
    · cases hvalues.symm.trans hfs
      refine .inr ⟨fun hnone => ?_, _, (portray_all_iff hw hg honce hreg).mp hps, ?_⟩
      · exact nomatch (hempty.mpr hnone).symm.trans hsome
      · rw [(namesGlobals_iff hplain).mp hglobals]
  · rintro (⟨hnone, rfl⟩ | ⟨hsome, ps, hps, rfl⟩)
    · exact .nothing (hempty.mpr hnone)
    · have hholds : w.holdsNothing reg.factories = false :=
        Bool.eq_false_iff.mpr fun hnone => hsome (hempty.mp hnone)
      exact .factories hholds hvalues ((portray_all_iff hw hg honce hreg).mpr hps)
        ((namesGlobals_iff hplain).mpr rfl)

/-! ### Well-typed registries -/

/-- Where parents are factories every factory inherits something, if only nothing. -/
theorem WellTyped.inherits (h : w.WellTyped reg) (hg : w.Grounded) {t : Template}
    (ht : w.definitions.template? f = some t) :
    ∃ levels inherited, Inherits w.definitions (.definition f) levels inherited ∧
      ∀ m, inherited = some m → ∃ s, w.fieldOf m "__name__" = .ok (.text s) := by
  -- Parents are older, so the induction is on the age.
  induction hage : f.index using Nat.strong_induction_on generalizing f t with
  | _ age ih =>
    by_cases hm : t.model = .null
    · obtain hnull | ⟨q, hq, holder⟩ := hg.definitions.parents f t ht
      · have hnothing : Inherits w.definitions t.parent [] none := by
          rw [hnull]
          exact .nothing
        exact ⟨_, _, .above ht hm hnothing, by rintro _ ⟨⟩⟩
      · obtain ⟨t', ht'⟩ := h.parents f t q ht hq
        obtain ⟨levels, inherited, hinherits, hnamed⟩ := ih q.index (hage ▸ holder) ht' rfl
        exact ⟨_, _, .above ht hm (hq ▸ hinherits), hnamed⟩
    · refine ⟨_, _, .own ht hm, fun m hm' => ?_⟩
      cases hm'
      exact h.models f t ht hm

/-- A factory can be told of where parents are factories and models have names. -/
theorem WellTyped.describes (h : w.WellTyped reg) (hw : w.Ordinary) (hg : w.Grounded)
    {x : Definition} (hx : w.definitions.get? f = some x) {t : Template}
    (ht : x.template = some t) : ∃ p, w.Describes (x.name, f) p := by
  have htemplate : w.definitions.template? f = some t := Option.bind_eq_some_iff.mpr ⟨x, hx, ht⟩
  obtain ⟨levels, inherited, hinherits, hnamed⟩ := h.inherits hg htemplate
  have hparent : ∃ parent v, w.parentName t.parent = .ok v ∧ v.Fills parent := by
    obtain ⟨-, hname⟩ | ⟨q, y, -, -, hname⟩ := parentName_cases hw hg htemplate
    · exact ⟨"", _, hname, fills_text.mpr rfl⟩
    · exact ⟨y.name, _, hname, fills_text.mpr rfl⟩
  have hmodel : ∃ model v, w.modelName inherited = .ok v ∧ v.Fills model := by
    cases inherited with
    | none => exact ⟨"", _, rfl, fills_text.mpr rfl⟩
    | some m =>
      obtain ⟨s, hs⟩ := hnamed m rfl
      exact ⟨s, _, hs, fills_text.mpr rfl⟩
  obtain ⟨parent, hparent⟩ := hparent
  obtain ⟨model, hmodel⟩ := hmodel
  exact ⟨_, .factory hx ht ((fills_parentName hw hg htemplate).mp hparent) hinherits
    (fills_modelName.mp hmodel)⟩

/-- **Of well-typed registries everything can be told.** -/
theorem WellTyped.tells (h : w.WellTyped reg) (hw : w.Ordinary) (hg : w.Grounded)
    (honce : w.EnrolsOnce) (hreg : w.registryAt? r = some reg) : ∃ shown, w.Tells reg shown := by
  have hone : ∀ e ∈ reg.enrolled.entries, ∃ p, w.Describes e p := by
    rintro ⟨name, f⟩ he
    obtain ⟨x, hx, rfl⟩ := exists_of_enrolled hw honce hreg he
    obtain ⟨t, ht⟩ := h.factories (x.name, f) he
    rw [Definitions.template?, hx, Option.bind_some] at ht
    exact h.describes hw hg hx ht
  have hall : ∃ ps, List.Forall₂ w.Describes reg.enrolled.entries ps := by
    choose! portrait hportrait using hone
    exact ⟨reg.enrolled.entries.map portrait,
      List.forall₂_map_right_iff.mpr (List.forall₂_same.mpr hportrait)⟩
  obtain ⟨ps, hps⟩ := hall
  by_cases hempty : reg.enrolled.entries = []
  · exact ⟨_, .inl ⟨hempty, rfl⟩⟩
  · exact ⟨_, .inr ⟨hempty, ps, hps, rfl⟩⟩

end World

/-! ## 5. What the command shows -/

namespace CommandRun

variable {modules : List Module} {r : CommandRequest}

/-- **What the command for factories shows**, once the modules that it names are loaded.

Whatever registry they leave behind, the command comes to a result just with what is to be told of it,
prints nothing else, and changes nothing.

Modules that only declare, compile and look something up lead to what they leave behind by nothing
else, and forget nothing. Of whatever has come about like that, and by resets, this is told. There is a
row for each registered factory, once, in the order of the table: its name, that of its parent, that of
the model that it has or inherits, the traits that it applies and those that it declares. Then all
global traits are named. This fails only where a factory or a parent is none, or a model has no name.
And the order is that of declaration: from any time on since which nothing has been forgotten, what was
listed then comes first in what is listed now.

If there is no factory, however, only this is told, and no global trait is named. -/
theorem factories_told {w₀ w : World} {reg : Registry}
    (hload : (loadAll modules [] r.modules).execute w₀ = (.ok (), w))
    (hreg : w.registryAt? ⟨0⟩ = some reg) :
    (∀ result w', (command modules .factories r).execute w₀ = (.ok result, w') ↔
      w' = w ∧ result.output = "" ∧ w.Reports reg result.shown) ∧
    ((∀ m ∈ modules, m.Develops) → w₀.Gained w) ∧
    ∀ blank : World, blank.Blank → blank.Advanced w →
      reg.enrolled.keys.Nodup ∧
      (∀ shown, w.Reports reg shown ↔ w.Tells reg shown) ∧
      (w.WellTyped reg → ∃ shown, w.Tells reg shown) ∧
      ∀ w₁, blank.Advanced w₁ → w₁.Gained w → w₁.Precedes w := by
  have hcommand : (command modules .factories r).execute w₀ = factories.execute w := by
    show (loadAll modules [] r.modules >>= fun _ => factories).execute w₀ = _
    rw [execute_bind_ok hload]
  refine ⟨fun result w' => by rw [hcommand, execute_factories_eq_ok_iff hreg], fun hmodules => ?_,
    fun blank hblank hrun => ?_⟩
  · have hgained := gained_loadAll hmodules r.modules [] w₀
    rwa [hload] at hgained
  · have hordinary := hblank.ordinary.advanced hrun
    have hgrounded := hblank.grounded.advanced hblank.ordinary hrun
    have honce := World.EnrolsOnce.advanced hblank hrun
    exact ⟨honce _ reg hreg,
      fun shown => World.reports_iff_tells hordinary hgrounded honce hreg,
      fun htyped => htyped.tells hordinary hgrounded honce hreg,
      fun w₁ hrun₁ hgained => (hblank.ordinary.advanced hrun₁).precedes_gained hgained⟩

end CommandRun

/-! ## 6. Factories with and without global traits -/

/-- A step that performs an operation. -/
def Script.Step.plain (operation : Script.Operation) (operands : List (String × Script.Operand))
    (keptAs : Option String := none) : Script.Step :=
  .make operation operands [] (.literal .null) [] keptAs

/-- A module with a factory that has a model and a trait of its own, and with a global trait; and one
with a child of the factory that applies its trait, and with another global trait. -/
def stock : List Module :=
  [⟨"m", [some (.plain .defineFactory [("name", .literal (.text "base")),
      ("model", .literal (.model { name := "Plain" }))] (some "base")),
    some (.plain .localTrait [("on", .variable "base"), ("name", .literal (.text "v"))]),
    some (.plain .defineTrait [("name", .literal (.text "email"))])]⟩,
  ⟨"n", [some (.plain .childFactory [("on", .variable "base"), ("name", .literal (.text "child")),
      ("traits", .literal (.list [.text "v"]))]),
    some (.plain .defineTrait [("name", .literal (.text "admin"))])]⟩]

/-- What the row of a factory is made of: a definition's name, traits, parent and model. -/
def Definition.profile (x : Definition) :
    String × List String × List String × Option (Value × Value) :=
  (x.name, x.applied, x.locals.keys, x.template.map fun t => (t.parent, t.model))

theorem develops_stock : ∀ m ∈ stock, m.Develops := by
  intro m hm s hs
  simp only [stock, List.mem_cons, List.not_mem_nil, or_false] at hm
  rcases hm with rfl | rfl <;>
    simp only [List.mem_cons, Option.some.injEq, List.not_mem_nil, or_false] at hs
  · rcases hs with rfl | rfl | rfl <;> exact .operation rfl
  · rcases hs with rfl | rfl <;> exact .operation rfl

namespace World

/-- What is there after the first module. -/
def stocked : World := ((Action.loadOne stock [] "m").execute fresh).2

/-- What is there after both. -/
def displayed : World := ((Action.loadOne stock ["m"] "n").execute stocked).2

theorem gained_stocked : fresh.Gained stocked := Action.gains_loadOne develops_stock [] "m" fresh

theorem gained_displayed : stocked.Gained displayed :=
  Action.gains_loadOne develops_stock ["m"] "n" stocked

/-- Both modules are loaded, and these are the tables, the definitions and the name of the model. -/
theorem displayed_facts :
    (((Action.loadOne stock [] "m").execute fresh).1.toOption = some ["m"] ∧
      ((Action.loadOne stock ["m"] "n").execute stocked).1.toOption = some ["n", "m"]) ∧
    (displayed.registryAt? ⟨0⟩).map (fun reg => (reg.enrolled.entries, reg.globals.keys)) =
      some ([("base", ⟨0⟩), ("child", ⟨3⟩)], ["email", "admin"]) ∧
    displayed.definitions.items.toList.map Definition.profile =
      [("base", [], ["v"], some (.null, .model { name := "Plain" })), ("v", [], [], none),
        ("email", [], [], none), ("child", ["v"], [], some (.definition ⟨0⟩, .null)),
        ("admin", [], [], none)] ∧
    (displayed.fieldOf (.model { name := "Plain" }) "__name__").toOption = some (.text "Plain") := by
  refine ⟨?_, ?_, ?_, ?_⟩ <;> decide +kernel

/-- The registry of factories and traits. -/
theorem registry_displayed : ∃ reg, displayed.registryAt? ⟨0⟩ = some reg ∧
    reg.enrolled.entries = [("base", ⟨0⟩), ("child", ⟨3⟩)] ∧
    reg.globals.keys = ["email", "admin"] := by
  obtain ⟨-, htables, -⟩ := displayed_facts
  obtain ⟨reg, hreg, heq⟩ := Option.map_eq_some_iff.mp htables
  exact ⟨reg, hreg, Prod.mk.inj heq⟩

/-- The model has a name. -/
theorem fieldOf_displayed :
    displayed.fieldOf (.model { name := "Plain" }) "__name__" = .ok (.text "Plain") := by
  obtain ⟨-, -, -, hname⟩ := displayed_facts
  rcases hfield : displayed.fieldOf (.model { name := "Plain" }) "__name__" with c | v <;>
    rw [hfield] at hname
  · cases hname
  · rw [Option.some.inj hname]

/-- A factory that is there, by its place among the definitions. -/
theorem exists_displayed {i : Nat} {name : String} {applied locals : List String}
    {parent model : Value}
    (h : (displayed.definitions.items.toList.map Definition.profile)[i]? =
      some (name, applied, locals, some (parent, model))) :
    ∃ x t, displayed.definitions.get? ⟨i⟩ = some x ∧ x.template = some t ∧ x.name = name ∧
      x.applied = applied ∧ x.locals.keys = locals ∧ t.parent = parent ∧ t.model = model := by
  rw [List.getElem?_map, Option.map_eq_some_iff] at h
  obtain ⟨x, hx, hprofile⟩ := h
  simp only [Definition.profile, Prod.mk.injEq, Option.map_eq_some_iff] at hprofile
  obtain ⟨hname, happlied, hlocals, t, ht, hparent, hmodel⟩ := hprofile
  rw [Array.getElem?_toList] at hx
  exact ⟨x, t, hx, ht, hname, happlied, hlocals, hparent, hmodel⟩

/-- What is shown of it. -/
theorem tells_displayed {reg : Registry}
    (hentries : reg.enrolled.entries = [("base", ⟨0⟩), ("child", ⟨3⟩)])
    (hkeys : reg.globals.keys = ["email", "admin"]) : displayed.Tells reg
      [.sheet ⟨"Factories", ["Factory", "Parent", "Model", "Traits", "Local traits"],
        [["base", "", "Plain", "", "v"], ["child", "base", "Plain", "v", ""]]⟩,
        .line "Global traits: email, admin"] := by
  obtain ⟨-, -, hdefinitions, -⟩ := displayed_facts
  obtain ⟨x, t, hx, ht, hxname, hxapplied, hxlocals, hparent, hmodel⟩ :=
    exists_displayed (i := 0) (by rw [hdefinitions]; rfl)
  obtain ⟨y, t', hy, ht', hyname, hyapplied, hylocals, hparent', hmodel'⟩ :=
    exists_displayed (i := 3) (by rw [hdefinitions]; rfl)
  have hown : Inherits displayed.definitions (.definition ⟨0⟩) [⟨0⟩] (some t.model) :=
    .own (Option.bind_eq_some_iff.mpr ⟨x, hx, ht⟩) (by rw [hmodel]; exact fun h => nomatch h)
  have hinherited : Inherits displayed.definitions (.definition ⟨3⟩) [⟨3⟩, ⟨0⟩] (some t.model) :=
    .above (Option.bind_eq_some_iff.mpr ⟨y, hy, ht'⟩) hmodel' (hparent' ▸ hown)
  rw [hmodel] at hown hinherited
  have hfirst : displayed.Describes (x.name, ⟨0⟩)
      ⟨x.name, "", "Plain", x.applied, x.locals.keys⟩ :=
    .factory hx ht (.inl ⟨hparent, rfl⟩) hown
      (.inr ⟨_, _, rfl, fieldOf_displayed, fills_text.mpr rfl⟩)
  have hsecond : displayed.Describes (y.name, ⟨3⟩)
      ⟨y.name, "base", "Plain", y.applied, y.locals.keys⟩ :=
    .factory hy ht' (.inr ⟨_, x, hparent', hx, hxname.symm⟩) hinherited
      (.inr ⟨_, _, rfl, fieldOf_displayed, fills_text.mpr rfl⟩)
  rw [hxname, hxapplied, hxlocals] at hfirst
  rw [hyname, hyapplied, hylocals] at hsecond
  have hrows : List.Forall₂ displayed.Describes reg.enrolled.entries
      [⟨"base", "", "Plain", [], ["v"]⟩, ⟨"child", "base", "Plain", ["v"], []⟩] := by
    rw [hentries]
    exact .cons hfirst (.cons hsecond .nil)
  refine .inr ⟨by rw [hentries]; exact List.cons_ne_nil _ _, _, hrows, ?_⟩
  rw [hkeys]
  rfl

/-- What its factories have for parents and models. -/
theorem parts_displayed {d : DefinitionId} {t : Template}
    (ht : displayed.definitions.template? d = some t) :
    t.parent = .null ∧ t.model = .model { name := "Plain" } ∨
      t.parent = .definition ⟨0⟩ ∧ t.model = .null := by
  obtain ⟨-, -, hdefinitions, -⟩ := displayed_facts
  obtain ⟨x, hx, hxt⟩ := Definitions.get?_of_template? ht
  have hmem := List.mem_map_of_mem (f := Definition.profile)
    (Array.mem_toList_iff.mpr (Array.mem_of_getElem? hx))
  rw [hdefinitions, Definition.profile, hxt] at hmem
  obtain ⟨-, -, -, hparts⟩ | ⟨-, -, -, hparts⟩ := by simpa using hmem
  · exact .inl hparts
  · exact .inr hparts

/-- Its factories are what they are to be. -/
theorem wellTyped_displayed {reg : Registry}
    (hentries : reg.enrolled.entries = [("base", ⟨0⟩), ("child", ⟨3⟩)]) :
    displayed.WellTyped reg := by
  obtain ⟨-, -, hdefinitions, -⟩ := displayed_facts
  have hbase : ∃ t, displayed.definitions.template? ⟨0⟩ = some t := by
    obtain ⟨x, t, hx, ht, -⟩ := exists_displayed (i := 0) (by rw [hdefinitions]; rfl)
    exact ⟨t, Option.bind_eq_some_iff.mpr ⟨x, hx, ht⟩⟩
  have hchild : ∃ t, displayed.definitions.template? ⟨3⟩ = some t := by
    obtain ⟨x, t, hx, ht, -⟩ := exists_displayed (i := 3) (by rw [hdefinitions]; rfl)
    exact ⟨t, Option.bind_eq_some_iff.mpr ⟨x, hx, ht⟩⟩
  refine ⟨fun e he => ?_, fun d t q ht hq => ?_, fun d t ht hm => ?_⟩
  · rw [hentries] at he
    obtain rfl | he := List.mem_cons.mp he
    · exact hbase
    · obtain rfl := List.mem_singleton.mp he
      exact hchild
  · obtain ⟨hnull, -⟩ | ⟨hzero, -⟩ := parts_displayed ht
    · exact nomatch hq.symm.trans hnull
    · obtain rfl := Value.definition.inj (hq.symm.trans hzero)
      exact hbase
  · obtain ⟨-, hplain⟩ | ⟨-, hnull⟩ := parts_displayed ht
    · exact ⟨"Plain", by rw [hplain, fieldOf_displayed]⟩
    · exact absurd hnull hm

end World

namespace CommandRun

/-- A request for the factories of some modules. -/
def overview (modules : List String) : CommandRequest :=
  { modules := modules, factory := "", traits := [], assignments := [] }

theorem undotted_stock : ∀ name ∈ ["m", "n"],
    name.isEmpty = false ∧ name.startsWith "." = false ∧ name.splitOn "." = [name] := by
  intro name hname
  have hstart : ∀ name ∈ ["m", "n"], name.isEmpty = false ∧ name.startsWith "." = false := by
    decide +kernel
  refine ⟨(hstart name hname).1, (hstart name hname).2, ?_⟩
  simp only [List.mem_cons, List.not_mem_nil, or_false] at hname
  -- The search for dots takes one step, past the only character.
  rcases hname with rfl | rfl <;>
  · rw [String.splitOn, if_neg (by decide), String.splitOnAux, if_neg (by decide),
      if_neg (by decide), String.splitOnAux, if_pos (by decide)]
    rfl

theorem load_stock :
    (loadAll stock [] ["m", "n"]).execute World.fresh = (.ok (), World.displayed) := by
  obtain ⟨⟨hm, hn⟩, -⟩ := World.displayed_facts
  obtain ⟨hempty, hdot, hsplit⟩ := undotted_stock "m" (.head _)
  have hfirst : (Action.loadModule stock [] "m").execute World.fresh = (.ok ["m"], World.stocked) :=
    Action.execute_loadModule hempty hdot hsplit hm
  obtain ⟨hempty, hdot, hsplit⟩ := undotted_stock "n" (.tail _ (.head _))
  have hsecond : (Action.loadModule stock ["m"] "n").execute World.stocked =
      (.ok ["n", "m"], World.displayed) :=
    Action.execute_loadModule hempty hdot hsplit hn
  rw [execute_loadAll_cons hfirst, execute_loadAll_cons hsecond, execute_loadAll_nil]

/-- Both factories are shown with the one's model, and both global traits are named. -/
theorem factories_told_displayed : ∃ reg, World.displayed.registryAt? ⟨0⟩ = some reg ∧
    World.displayed.WellTyped reg ∧
    (command stock .factories (overview ["m", "n"])).execute World.fresh =
      (.ok { shown :=
        [.sheet ⟨"Factories", ["Factory", "Parent", "Model", "Traits", "Local traits"],
          [["base", "", "Plain", "", "v"], ["child", "base", "Plain", "v", ""]]⟩,
          .line "Global traits: email, admin"] }, World.displayed) ∧
    (∃ shown, World.displayed.Tells reg shown) ∧ World.stocked.Precedes World.displayed := by
  obtain ⟨reg, hreg, hentries, hkeys⟩ := World.registry_displayed
  have htyped := World.wellTyped_displayed hentries
  obtain ⟨hcommand, hgained, hdeclared⟩ :=
    factories_told (r := overview ["m", "n"]) load_stock hreg
  obtain ⟨-, htells, hexists, horder⟩ :=
    hdeclared World.fresh World.blank_fresh (hgained develops_stock).advanced
  exact ⟨reg, hreg, htyped,
    (hcommand _ _).mpr ⟨rfl, rfl, (htells _).mpr (World.tells_displayed hentries hkeys)⟩,
    hexists htyped, horder World.stocked World.gained_stocked.advanced World.gained_displayed⟩

/-- A module that declares a global trait, and no factory. -/
def traitsOnly : List Module :=
  [⟨"m", [some (.plain .defineTrait [("name", .literal (.text "email"))])]⟩]

/-- The world that it leaves behind. -/
def traitsLeft : World := ((Action.loadOne traitsOnly [] "m").execute World.fresh).2

/-- Where there is no factory. -/
theorem traitsLeft_facts :
    ((Action.loadOne traitsOnly [] "m").execute World.fresh).1.toOption = some ["m"] ∧
    (traitsLeft.registryAt? ⟨0⟩).map (fun reg => (reg.factories, reg.globals.keys)) =
      some (.own ∅, ["email"]) ∧
    .line ("Global traits: " ++ listed ["email"]) ∉
      [Display.line "[dim]No factories registered.[/dim]"] := by
  decide +kernel

theorem load_traitsOnly :
    (loadAll traitsOnly [] ["m"]).execute World.fresh = (.ok (), traitsLeft) := by
  obtain ⟨hm, -⟩ := traitsLeft_facts
  obtain ⟨hempty, hdot, hsplit⟩ := undotted_stock "m" (.head _)
  have hone : (Action.loadModule traitsOnly [] "m").execute World.fresh = (.ok ["m"], traitsLeft) :=
    Action.execute_loadModule hempty hdot hsplit hm
  rw [execute_loadAll_cons hone, execute_loadAll_nil]

/-- **Without a factory no global trait is named**, though there is one. -/
theorem globals_untold : ∃ result reg,
    (command traitsOnly .factories (overview ["m"])).execute World.fresh =
      (.ok result, traitsLeft) ∧
    traitsLeft.registryAt? ⟨0⟩ = some reg ∧ reg.globals.keys = ["email"] ∧
    result.shown = [.line "[dim]No factories registered.[/dim]"] ∧
    .line ("Global traits: " ++ listed reg.globals.keys) ∉ result.shown := by
  obtain ⟨-, htables, hunnamed⟩ := traitsLeft_facts
  obtain ⟨reg, hreg, heq⟩ := Option.map_eq_some_iff.mp htables
  obtain ⟨hfactories, hkeys⟩ := Prod.mk.inj heq
  have hnothing : traitsLeft.holdsNothing reg.factories = true := by rw [hfactories]; rfl
  have hcommand : (command traitsOnly .factories (overview ["m"])).execute World.fresh =
      factories.execute traitsLeft := execute_bind_ok load_traitsOnly
  refine ⟨{ shown := [.line "[dim]No factories registered.[/dim]"] }, reg, hcommand.trans ?_, hreg,
    hkeys, rfl, ?_⟩
  · rw [execute_factories hreg, if_pos hnothing]
  · rw [hkeys]
    exact hunnamed

end CommandRun

end TraitFactory
