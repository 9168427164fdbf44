import TraitFactory.Interpreter
import TraitFactory.Proofs.Equations

/-!
# Solutions of the equations between attributes

What an evaluation resolves is the only solution of the equations that its attributes are given by,
in whatever order they are declared. Functions that read their siblings through the context give
such equations.
-/

namespace TraitFactory

open Action

/-! ## 1. Functions that follow formulas -/

/-- Values that mean themselves. -/
def Meaning.same : Meaning Value where
  Means := fun _ v x => v = x
  unique := fun h h' => h.symm.trans h'
  lasts := fun _ h => h

/-- What a function does that follows a formula: it reads the siblings through the context. -/
def Formula.program (context : Value) : Formula Value → Program
  | value v => .done v
  | failure reason => .fail reason
  | sibling name rest =>
    Program.request (.getItem context (.text name)) fun v => (rest v).program context

/-- The function of a formula, which is given the context. -/
def Formula.function (φ : Formula Value) : Function where
  body := fun arguments => φ.program (arguments.headD .null)

section Programs

variable {Serves : Host → Prop} {host : Host} {e : EvaluationId} {E : Evaluation} {w : World}
  {t : Table Value} {active : List String} {f : String → Formula Value}

/-- A part of a context is the attribute of its name. -/
theorem Action.execute_getItem_context (hE : E.extras = ∅) (h : w.Stands e E t active)
    (name : String) : (getItem host (.context e) (.text name)).execute w =
      (read host e name).execute w := by
  have hextras : ({ E with values := .own t, active := .own active } : Evaluation).extras = ∅ := hE
  have hown : (evaluationOf e).execute w = (.ok e, w) :=
    execute_evaluationOf h (by rw [hextras]; rfl)
  have hname : (attributeName (.text name)).execute w = (.ok name, w) := rfl
  show (attributeName (.text name) >>= fun name => evaluationOf e >>= fun e =>
    read host e name).execute w = _
  rw [execute_bind_ok hname, execute_bind_ok hown]

/-- **The program of a formula follows it.** -/
theorem Formula.follows_program (hserves : Serves host) (hE : E.extras = ∅) (φ : Formula Value)
    (h : w.Stands e E t active) :
    Follows .same Serves e E φ ((φ.program (.context e)).run host) w := by
  induction φ generalizing w t active with
  | value v => exact ⟨v, w, rfl, .refl e w, rfl⟩
  | failure failure => exact ⟨w, rfl⟩
  | sibling name rest ih =>
    refine ⟨host, fun v => ((rest v).program (.context e)).run host, w, hserves, .refl e w, ?_,
      fun w₂ t active v x hw hstands hv => ?_⟩
    · have hasked := execute_attempt (answer host (.getItem (.context e) (.text name))) w
      rw [show (answer host (.getItem (.context e) (.text name))).execute w =
        (read host e name).execute w from execute_getItem_context hE h name] at hasked
      rw [program, Program.request, Program.run, execute_bind_ok hasked, execute_bind]
      rcases (read host e name).execute w with ⟨failure | v, w₁⟩ <;> rfl
    · cases hv
      exact ih v hstands

/-- **Declarations by formulas determine the attributes**: each is a literal that is its own copy,
or computed by the function of its formula. -/
theorem determined_of_functions (hE : E.extras = ∅)
    (hall : ∀ d ∈ E.plan.attributes,
      (∃ v shared, d.value = .fixed v shared ∧ f d.name = .value v ∧
        (shared = true ∨ ∀ w, (copy v).execute w = (.ok v, w))) ∨
      ∃ id, d.value = .computed (.function id) ∧ w.function? id = some (f d.name).function) :
    Determined .same (fun n host => host = Host.ofDepth n) e E f w := by
  rintro n host rfl d hd w' t active hw hstands
  rcases hall d hd with ⟨v, shared, hvalue, hformula, hcopy⟩ | ⟨id, hvalue, hfunction⟩
  · rw [hformula, compute, hvalue]
    refine ⟨v, w', ?_, .refl e w', rfl⟩
    rcases hcopy with rfl | hcopy
    · rfl
    · dsimp only
      split
      · rfl
      · exact hcopy w'
  · have hfunction' := hw.functions id _ hfunction
    have harity : w'.arity (.function id) = 1 := by
      rw [World.arity, hfunction']
      rfl
    let announced : World :=
      { w' with trace := w'.trace.push (.list [.text "call", .text "fn", .int 1]) }
    have hcall : (compute (Host.ofDepth (n + 1)) e d).execute w' =
        (((f d.name).program (.context e)).run (Host.ofDepth n)).execute announced := by
      rw [compute, hvalue]
      show (get >>= fun w => if w.arity (.function id) = 0 then _ else _ : Action Value).execute w'
        = _
      rw [execute_bind_ok (execute_get w'), harity, if_neg Nat.one_ne_zero]
      show (callValue (Host.ofDepth n) (.function id) [.context e]).execute w' = _
      rw [callValue, execute_bind_ok (execute_get w'), hfunction']
      rfl
    have hprogram : Follows .same (fun host => host = Host.ofDepth n) e E (f d.name)
        (((f d.name).program (.context e)).run (Host.ofDepth n)) announced :=
      Formula.follows_program (by rfl) hE (f d.name) (show announced.Stands e E t active from hstands)
    have hcalm : w'.Calm e announced := ⟨⟨fun _ _ h => h, fun _ _ h => h⟩, rfl⟩
    exact hprogram.of_calm hcalm hcall

end Programs


variable {δ : Type}

/-! ## 2. The only solution, in any order -/

theorem World.stands_ordered {w : World} {e : EvaluationId} {E : Evaluation} {t : Table Value}
    {active : List String} (h : w.Stands e E t active) (ds : List Declaration) :
    (w.ordered e ds).Stands e (E.ordered ds) t active := by
  rw [World.Stands, World.ordered, World.evaluation?_modifyEvaluation _ h]
  rfl

/-- **Lazy evaluation solves the equations between attributes, whatever their order.** Let an
evaluation begin whose attributes follow formulas in their siblings. If it resolves them, then to
what the formulas say under this very mapping: the only mapping of which that holds, in which no
attribute leads back to itself. Every order of the declarations then resolves them to the same. If
it fails, it fails for every order. -/
theorem Action.resolve_solves {M : Meaning δ} {Serves : Nat → Host → Prop} {e : EvaluationId}
    {E : Evaluation} {f : String → Formula δ} {w : World} {host : Host} {n : Nat}
    (hE : E.declarations = none) (h : w.Stands e E ∅ [])
    (hdet : ∀ ds, ds.Perm E.plan.attributes → Determined M Serves e (E.ordered ds) f w)
    (hhost : Serves n host) (hn : E.plan.names.length < n) :
    (∀ values w', (resolve host e).execute w = (.ok values, w') →
      values.keys = E.plan.names ∧
      ∃ m, Solves f E.plan.names m ∧ (∀ m', Solves f E.plan.names m' → m' = m) ∧
        (∀ name, ¬ Relation.TransGen (ReadsIn f E.plan.names m) name name) ∧
        M.Values w' values m ∧
        ∀ ds, ds.Perm E.plan.attributes → ∃ values' w'',
          (resolve host e).execute (w.ordered e ds) = (.ok values', w'') ∧
          values'.keys = ds.map (·.name) ∧ M.Values w'' values' m) ∧
    ∀ failure w', (resolve host e).execute w = (.error failure, w') →
      ∀ ds, ds.Perm E.plan.attributes → ∃ failure' w'',
        (resolve host e).execute (w.ordered e ds) = (.error failure', w'') := by
  have hnames : ∀ ds, ds.Perm E.plan.attributes → ∀ k, k ∈ (E.ordered ds).plan.names ↔
      k ∈ E.plan.names := fun ds hds k => (hds.map (·.name)).mem_iff
  have hbound : ∀ ds, ds.Perm E.plan.attributes → (E.ordered ds).plan.names.length < n := by
    intro ds hds
    have hlength : (E.ordered ds).plan.names.length = E.plan.names.length :=
      (hds.map Declaration.name).length_eq
    rw [hlength]
    exact hn
  have hbegins : ∀ ds, (w.ordered e ds).Stands e (E.ordered ds) ∅ [] := World.stands_ordered h
  have hwidened : ∀ ds, w.Widened (w.ordered e ds) := fun ds => World.widened_modifyEvaluation w e _
  have hdet₀ : Determined M Serves e E f w := hdet E.plan.attributes (.refl _)
  constructor
  · intro values w' hresolve
    obtain ⟨hkeys, μ, hμ, hall, hvalues⟩ :=
      resolve_sound hE hdet₀ hhost hn (.refl w) h hresolve
    refine ⟨hkeys, μ.get?, ⟨fun k hk => hμ.solves.equation k ((hall k).mp hk),
      fun k hk => hμ.solves.only k (mt (hall k).mpr hk)⟩, fun m' hm' => hμ.unique hall hm',
      fun name hcycle => ?_, hvalues, fun ds hds => ?_⟩
    · have hsub : ∀ k k', ReadsIn f E.plan.names μ.get? k k' → ReadsIn f μ.keys μ.get? k k' :=
        fun k k' hr => ⟨(hall k).mp hr.1, hr.2⟩
      exact hμ.acyclic name (Relation.TransGen.mono hsub name name hcycle)
    · have hall' : ∀ k, k ∈ (E.ordered ds).plan.names ↔ k ∈ μ.keys := fun k =>
        (hnames ds hds k).trans (hall k)
      obtain ⟨values', w'', hresolve'⟩ := exists_resolve (E := E.ordered ds) hE (hdet ds hds) hhost (hbound ds hds)
        (hwidened ds) (hbegins ds) hμ hall'
      obtain ⟨hkeys', μ', hμ', hall'', hvalues'⟩ := resolve_sound (E := E.ordered ds) hE (hdet ds hds) hhost
        (hbound ds hds) (hwidened ds) (hbegins ds) hresolve'
      -- Both orders solve the same equations, which have one solution.
      have hkeys : ∀ k, k ∈ μ'.keys ↔ k ∈ μ.keys := fun k => (hall'' k).symm.trans (hall' k)
      have hsame : μ'.get? = μ.get? := hμ.unique hkeys hμ'.solves
      exact ⟨values', w'', hresolve', hkeys', hsame ▸ hvalues'⟩
  · intro failure w' hresolve ds hds
    rcases hresolve' : (resolve host e).execute (w.ordered e ds) with ⟨failure' | values', w''⟩
    · exact ⟨failure', w'', rfl⟩
    · -- What this order has worked out, the other could have worked out, too.
      obtain ⟨_, μ, hμ, hall, _⟩ := resolve_sound (E := E.ordered ds) hE (hdet ds hds) hhost (hbound ds hds)
        (hwidened ds) (hbegins ds) hresolve'
      obtain ⟨values, w₁, hok⟩ := exists_resolve hE hdet₀ hhost hn (.refl w) h hμ fun k =>
        (hnames ds hds k).symm.trans (hall k)
      cases hresolve.symm.trans hok

/-! ## 3. An order of goods -/

/-- A number is its own copy. -/
theorem Action.execute_copy_int (n : Int) (w : World) :
    (copy (.int n)).execute w = (.ok (.int n), w) := by
  have hpos : 0 < copyDepth w := Nat.mul_pos (by omega) (by omega)
  obtain ⟨depth, hdepth⟩ := Nat.exists_eq_succ_of_ne_zero (Nat.ne_of_gt hpos)
  show (copying fun depth => copyValue depth (.int n)).execute w = _
  rw [copying, execute_bind_ok (execute_get w), hdepth]
  rfl

namespace World

/-- What an order costs: nothing where nothing is ordered, else what the goods cost. -/
def costs : String → Formula Value
  | "total" => .sibling "count" fun count =>
      if count = .int 0 then .value (.int 0) else .sibling "price" fun price => .value price
  | "price" => .value (.int 5)
  | _ => .value (.int 1)

/-- The evaluation of an order, whose total is declared before what it is made of. -/
def ordering : Evaluation where
  planId := ⟨0⟩
  plan :=
    { Plan.assemble "order" .null [] [] with
      attributes :=
        [⟨"total", .computed (.function ⟨0⟩), "factory:order", ⟨0⟩, ⟨0⟩⟩,
          ⟨"price", .fixed (.int 5) false, "factory:order", ⟨0⟩, ⟨0⟩⟩,
          ⟨"count", .fixed (.int 1) false, "factory:order", ⟨0⟩, ⟨0⟩⟩] }
  strategy := .keyword (.strategy .build)
  associate := .null
  useParentStrategy := .bool true

def order : World := { functions := #[(costs "total").function], evaluations := #[ordering] }

end World

theorem Action.resolve_solves_order :
    ∃ values w', (resolve (Host.ofDepth 4) ⟨0⟩).execute World.order = (.ok values, w') ∧
      values.keys = ["total", "price", "count"] ∧
      ∃ m, Solves World.costs ["total", "price", "count"] m ∧ Meaning.same.Values w' values m := by
  have hdet : ∀ ds, ds.Perm World.ordering.plan.attributes →
      Determined .same (fun n host => host = Host.ofDepth n) ⟨0⟩ (World.ordering.ordered ds)
        World.costs World.order := by
    refine fun ds hds => determined_of_functions rfl fun d hd => ?_
    have hmem : d ∈ World.ordering.plan.attributes := hds.mem_iff.mp hd
    rcases List.mem_cons.mp hmem with rfl | hmem
    · exact .inr ⟨⟨0⟩, rfl, rfl⟩
    · rcases List.mem_cons.mp hmem with rfl | hmem
      · exact .inl ⟨.int 5, false, rfl, rfl, .inr (execute_copy_int 5)⟩
      · rw [List.mem_singleton.mp hmem]
        exact .inl ⟨.int 1, false, rfl, rfl, .inr (execute_copy_int 1)⟩
  have hbegins : World.order.Stands ⟨0⟩ World.ordering ∅ [] := rfl
  have hsolves := resolve_solves rfl hbegins hdet (n := 4) rfl (by decide)
  obtain ⟨values, w', hvalues⟩ : ∃ values w',
      (resolve (Host.ofDepth 4) ⟨0⟩).execute World.order = (.ok values, w') := ⟨_, _, rfl⟩
  obtain ⟨hkeys, m, hm, _, _, hmeans, _⟩ := hsolves.1 values w' hvalues
  exact ⟨values, w', hvalues, hkeys, m, hm, hmeans⟩

end TraitFactory
