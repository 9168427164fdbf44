import TraitFactory.Proofs.Constructing
import TraitFactory.Proofs.Discipline
import TraitFactory.Proofs.Spelling

/-!
# Consulting an evaluation

The attributes of an evaluation can be asked for in more than one way: through its context by item,
by name with a default and by `get`, and through the snapshot that a constructor is handed. Where two
ways should come to the same, it is told when they do. A default stands in for every failure that
says that something has no attribute, from however deep it comes, and a snapshot knows its keys by
their texts alone.
-/

namespace TraitFactory

open Action Recorded

/-! ## 1. Points of an evaluation -/

/-- Only what is declared comes to be kept. -/
theorem Plan.Computes.declared_of_kept {plan : Plan} {e : EvaluationId} {active : List String}
    {t t' : Table Value} {marks : List Mark} (h : plan.Computes e active t marks t') {name : String}
    (hname : (t'.get? name).isSome) : (t.get? name).isSome ∨ name ∈ plan.names := by
  induction h with
  | nil => exact .inl hname
  | other _ _ ih => exact ih hname
  | failed _ _ _ _ _ ihinner ihrest =>
    obtain hkept | hdeclared := ihrest hname
    · exact ihinner hkept
    · exact .inr hdeclared
  | @done _ _ t₁ _ name' _ _ _ hdeclared' _ _ _ _ ihinner ihrest =>
    obtain hkept | hdeclared := ihrest hname
    · by_cases heq : name = name'
      · exact .inr (heq ▸ hdeclared')
      · rw [Table.get?_insert_of_ne _ _ heq] at hkept
        exact ihinner hkept
    · exact .inr hdeclared

namespace World

/-- **The points of an evaluation**: where it begins; where an attribute begins to be computed, of
this evaluation or of another; and where evaluations have been carried on from one of its points. -/
inductive Point (e : EvaluationId) : World → Prop
  | begins {w : World} {E : Evaluation} (hE : w.Stands e E ∅ []) (hfresh : E.declarations = none) :
      Point e w
  | computes {w : World} {e' : EvaluationId} {E : Evaluation} {t : Table Value}
      {active : List String} {name : String} (h : Point e w) (hE : w.Stands e' E t active)
      (hdeclared : name ∈ E.plan.names) (hactive : name ∉ active) (hkept : t.get? name = none) :
      Point e (activated w e' name)
  | later {w w' : World} {marks : List Mark} (h : Point e w) (hcharts : w.Charts marks w') :
      Point e w'

variable {w : World} {e : EvaluationId}

/-- **At each point** only what is declared is kept or being computed. -/
theorem Point.stands (h : w.Point e) : ∃ E t active, w.Stands e E t active ∧
    E.declarations = none ∧
      ∀ name, (t.get? name).isSome ∨ name ∈ active → name ∈ E.plan.names := by
  induction h with
  | @begins w E hE hfresh =>
    refine ⟨E, ∅, [], hE, hfresh, fun name hname => ?_⟩
    obtain hkept | hactive := hname
    · cases hkept
    · cases hactive
  | @computes w e' E' t' active' name' _ hE' hdeclared _ _ ih =>
    obtain ⟨E, t, active, hE, hdeclarations, hnames⟩ := ih
    by_cases he : e = e'
    · subst he
      have hsame := Option.some.inj (hE.symm.trans hE')
      have hplan : E.plan = E'.plan := (congrArg Evaluation.plan hsame :)
      refine ⟨E, t, active ++ [name'], stands_activated hE, hdeclarations, fun name hname => ?_⟩
      rw [List.mem_append, List.mem_singleton, ← or_assoc] at hname
      obtain hname | rfl := hname
      · exact hnames name hname
      · exact hplan ▸ hdeclared
    · exact ⟨E, t, active, (stands_modify_of_ne _ he).mpr hE, hdeclarations, hnames⟩
  | @later w w' marks _ hcharts ih =>
    obtain ⟨E, t, active, hE, hdeclarations, hnames⟩ := ih
    obtain ⟨t', hE', hcomputes⟩ := hcharts.standing e E t active hE hdeclarations
    refine ⟨E, t', active, hE', hdeclarations, fun name hname => ?_⟩
    obtain hkept | hactive := hname
    · obtain hkept | hdeclared := hcomputes.declared_of_kept hkept
      · exact hnames name (.inl hkept)
      · exact hdeclared
    · exact hnames name (.inr hactive)

/-- Whether a layer of an evaluation's plan declares an attribute. -/
def declares (w : World) (e : EvaluationId) (name : String) : Bool :=
  (w.evaluation? e).any fun E => (E.plan.declaration? name).isSome

theorem Stands.declares_eq {E : Evaluation} {t : Table Value} {active : List String}
    (hE : w.Stands e E t active) (name : String) :
    w.declares e name = (E.plan.declaration? name).isSome := by
  rw [declares, hE]
  rfl

end World

theorem Plan.isSome_declaration? {plan : Plan} {name : String} :
    (plan.declaration? name).isSome ↔ name ∈ plan.names := by
  rw [Plan.declaration?, List.find?_isSome, Plan.names, List.mem_map]
  simp only [decide_eq_true_eq]

/-! ## 2. Asking a context -/

namespace Action

section Asking

variable {w : World} {e : EvaluationId} {E : Evaluation} {t : Table Value} {active : List String}
  {host : Host} {name : String} {key : Value}

/-- Where a name is that of an attribute, the context is that of its own evaluation. -/
theorem ownContext_of_readsAttribute (h : w.readsAttribute e name) : Activity.ownContext w e := by
  rcases hE : w.evaluation? e with _ | E <;> rw [World.readsAttribute, hE] at h
  · cases h
  · rw [Option.any_some, Bool.and_eq_true] at h
    rw [Activity.ownContext, hE]
    exact h.2

theorem execute_attributeName (hkey : key.name? = some name) :
    (attributeName key).execute w = (.ok name, w) := by
  rw [attributeName, nameOr, hkey]
  rfl

theorem execute_declared? (hE : E.declarations = none) :
    (declared? E name).execute w =
      (.ok ((E.plan.declaration? name).map fun d => .object d.object), w) := by
  rw [declared?, hE]
  rfl

/-- An item of a context is read by its name. -/
theorem execute_item_context (hown : Activity.ownContext w e) (hkey : key.name? = some name) :
    (getItem host (.context e) key).execute w = (read host e name).execute w := by
  show (attributeName key >>= _).execute w = _
  rw [execute_bind_ok (execute_attributeName hkey),
    execute_bind_ok (Activity.execute_ownEvaluation hown)]

variable (hE : w.Stands e E t active) (hdeclarations : E.declarations = none)
  (hown : Activity.ownContext w e) (hkey : key.name? = some name)

include hE hdeclarations hown hkey

/-- **What is asked for by `get`** is read where it is declared. -/
theorem execute_find_context (default : Value) :
    (callOwn host (.context e) "get" [key, default] []).execute w =
      if w.declares e name then (read host e name).execute w else (.ok default, w) := by
  have hdeclared : (declared? { E with values := .own t, active := .own active } name).execute w =
      (.ok ((E.plan.declaration? name).map fun d => .object d.object), w) :=
    execute_declared? hdeclarations
  show (contextFind host e key default).execute w = _
  rw [contextFind, execute_bind_ok (execute_attributeName hkey),
    execute_bind_ok (Activity.execute_ownEvaluation hown),
    execute_bind_ok (execute_getEvaluation hE), execute_bind_ok hdeclared, hE.declares_eq,
    Option.isSome_map]
  cases (E.plan.declaration? name).isSome <;> rfl

/-- A context has just what is declared. -/
theorem execute_contains_context :
    (contains (.context e) key).execute w = (.ok (w.declares e name), w) := by
  have hdeclared : (declared? { E with values := .own t, active := .own active } name).execute w =
      (.ok ((E.plan.declaration? name).map fun d => .object d.object), w) :=
    execute_declared? hdeclarations
  rw [contains_context_eq, hkey]
  dsimp only
  rw [execute_bind_ok (Activity.execute_ownEvaluation hown),
    execute_bind_ok (execute_getEvaluation hE), execute_bind_ok hdeclared, hE.declares_eq,
    Option.isSome_map]
  rfl

end Asking

/-! ## 3. Optional reads -/

section Optional

variable {w : World} {e : EvaluationId} {name : String}

/-- A read by name with a default: the default stands in for every failure that says that there is no
attribute. -/
theorem execute_getAttrOr_context (hname : w.readsAttribute e name) (host : Host)
    (default : Value) : (getAttrOr host (.context e) name default).execute w =
      match (read host e name).execute w with
      | (.ok v, w') => (.ok v, w')
      | (.error failure, w') =>
        (if failure.cause.lacksAttribute then .ok default else .error failure, w') := by
  rw [getAttrOr, execute_tryCatch, execute_getAttr_context hname]
  rcases (read host e name).execute w with ⟨failure | v, w'⟩
  · dsimp only
    cases failure.cause.lacksAttribute <;> rfl
  · rfl

/-- **Two ways to read what may be missing.** At each point of an evaluation, by name with a default
and by `get` with it: what nothing declares comes to the default, and what is declared to its value if
it can be read. If it cannot, `get` passes the failure on; the other way does so, too, unless the
failure says that there is no attribute, however deep it arose. So the two ways come to the same just
where nothing declared fails like that. -/
theorem reads_with_default (h : w.Point e) (hname : w.readsAttribute e name) (host : Host)
    (default : Value) :
    (w.declares e name = false →
      (getAttrOr host (.context e) name default).execute w = (.ok default, w) ∧
      (callOwn host (.context e) "get" [.text name, default] []).execute w = (.ok default, w)) ∧
    (∀ v w', w.declares e name → (read host e name).execute w = (.ok v, w') →
      (getAttrOr host (.context e) name default).execute w = (.ok v, w') ∧
      (callOwn host (.context e) "get" [.text name, default] []).execute w = (.ok v, w')) ∧
    (∀ failure w', w.declares e name → (read host e name).execute w = (.error failure, w') →
      (getAttrOr host (.context e) name default).execute w =
        (if failure.cause.lacksAttribute then .ok default else .error failure, w') ∧
      (callOwn host (.context e) "get" [.text name, default] []).execute w =
        (.error failure, w')) ∧
    ((getAttrOr host (.context e) name default).execute w =
        (callOwn host (.context e) "get" [.text name, default] []).execute w ↔
      ¬ (w.declares e name ∧ ∃ failure w', (read host e name).execute w = (.error failure, w') ∧
        failure.cause.lacksAttribute)) := by
  obtain ⟨E, t, active, hE, hdeclarations, hnames⟩ := h.stands
  have hget : (callOwn host (.context e) "get" [.text name, default] []).execute w = _ :=
    execute_find_context hE hdeclarations (ownContext_of_readsAttribute hname)
      (Value.name?_text name) default
  have hor := execute_getAttrOr_context hname host default
  cases hdeclared : w.declares e name with
  | false =>
    have hundeclared : name ∉ E.plan.names := fun hmem => by
      rw [hE.declares_eq, Plan.isSome_declaration?.mpr hmem] at hdeclared
      cases hdeclared
    have hnone : E.plan.declaration? name = none :=
      Option.not_isSome_iff_eq_none.mp (mt Plan.isSome_declaration?.mp hundeclared)
    have hread : (read host e name).execute w = _ := execute_read_undeclared hE hdeclarations
      (Option.not_isSome_iff_eq_none.mp fun hkept => hundeclared (hnames name (.inl hkept)))
      (fun hactive => hundeclared (hnames name (.inr hactive))) hnone
    rw [hdeclared] at hget
    rw [hread] at hor
    refine ⟨fun _ => ⟨hor, hget⟩, fun _ _ habsurd => absurd habsurd Bool.false_ne_true,
      fun _ _ habsurd => absurd habsurd Bool.false_ne_true,
      iff_of_true (hor.trans hget.symm) fun hfails => Bool.false_ne_true hfails.1⟩
  | true =>
    rw [hdeclared, if_pos rfl] at hget
    refine ⟨fun habsurd => absurd habsurd.symm Bool.false_ne_true, fun v w' _ hread => ?_,
      fun failure w' _ hread => ?_, ?_⟩
    · rw [hread] at hget hor
      exact ⟨hor, hget⟩
    · rw [hread] at hget hor
      exact ⟨hor, hget⟩
    · rw [hget, hor]
      rcases hread : (read host e name).execute w with ⟨failure | v, w'⟩
      · dsimp only
        cases hlacks : failure.cause.lacksAttribute with
        | true =>
          rw [if_pos rfl]
          refine iff_of_false (fun heq => ?_) fun hnot => hnot ⟨rfl, failure, w', rfl, hlacks⟩
          cases congrArg Prod.fst heq
        | false =>
          rw [if_neg Bool.false_ne_true]
          refine iff_of_true rfl ?_
          rintro ⟨-, failure', w'', heq, hlacks'⟩
          cases heq
          exact Bool.false_ne_true (hlacks.symm.trans hlacks')
      · refine iff_of_true rfl ?_
        rintro ⟨-, failure', w'', heq, -⟩
        cases heq

end Optional

end Action

/-- A user is declared, whose name is given or computed, and its plan is compiled. -/
def Program.user (name : Option Value) (computed : Value) : Program :=
  .request (.command (.defineFactory none (.text "user") .null .null none)) fun user =>
  .request (.command (.set user (.text "name") name computed)) fun _ =>
  .request (.command (.compile none (.text "user") none)) .done

/-- A user whose name cannot be computed, for what it is taken from has no such attribute. -/
def Program.touchy : Program :=
  .define { name := "touchy" } (fun _ => .raise (.noAttribute (some "x"))) (user none)

namespace World

/-- The world in which the first plan that a program compiles begins to be evaluated. -/
def evaluating (p : Program) (strategy : Strategy) : World :=
  ((beginEvaluation (.ofDepth 5) ⟨0⟩ ⟨0⟩ strategy).execute ((p.run (.ofDepth 5)).execute fresh).2).2

def touchy : World := evaluating .touchy .attributesFor

end World

/-- The evaluation of such a user, apart from what it has come to. -/
def Evaluation.touchy : Evaluation := (World.touchy.evaluation? ⟨0⟩).getD
  ⟨⟨0⟩, .assemble "" .null [] [], .null, .null, .null, .own ∅, .own [], none, ∅⟩

namespace Action

theorem reads_with_default_touchy : World.touchy.Point ⟨0⟩ ∧
    (getAttrOr (.ofDepth 5) (.context ⟨0⟩) "age" .null).execute World.touchy =
      (callOwn (.ofDepth 5) (.context ⟨0⟩) "get" [.text "age", .null] []).execute World.touchy ∧
    (getAttrOr (.ofDepth 5) (.context ⟨0⟩) "name" .null).execute World.touchy ≠
      (callOwn (.ofDepth 5) (.context ⟨0⟩) "get" [.text "name", .null] []).execute
        World.touchy := by
  have hstands : World.touchy.Stands ⟨0⟩ .touchy ∅ [] := by
    show World.touchy.evaluation? ⟨0⟩ = _
    decide +kernel
  have hpoint : World.touchy.Point ⟨0⟩ := .begins hstands (by decide +kernel)
  have hage : World.touchy.declares ⟨0⟩ "age" = false := by decide +kernel
  have hfails : ((read (.ofDepth 5) ⟨0⟩ "name").execute World.touchy).1 =
      .error ⟨.noAttribute (some "x"), none,
        ["while evaluating attribute 'name' (factory:user) of factory 'user'"]⟩ := by
    decide +kernel
  have hreads : World.touchy.readsAttribute ⟨0⟩ "age" ∧ World.touchy.readsAttribute ⟨0⟩ "name" := by
    decide +kernel
  obtain ⟨-, -, -, hage'⟩ := reads_with_default hpoint hreads.1 (.ofDepth 5) .null
  obtain ⟨-, -, -, hname⟩ := reads_with_default hpoint hreads.2 (.ofDepth 5) .null
  refine ⟨hpoint, hage'.mpr fun hfails => ?_, fun heq => hname.mp heq ⟨by decide +kernel, _, _,
    execute_of_outcome hfails, rfl⟩⟩
  rw [hage] at hfails
  exact Bool.false_ne_true hfails.1

/-- **A failure is swallowed** where a name that is declared is read with a default: `get` passes it
on. -/
theorem failure_swallowed :
    World.touchy.declares ⟨0⟩ "name" = true ∧
    ((getAttrOr (.ofDepth 5) (.context ⟨0⟩) "name" (.text "nobody")).execute World.touchy).1 =
      .ok (.text "nobody") ∧
    ((callOwn (.ofDepth 5) (.context ⟨0⟩) "get" [.text "name", .text "nobody"] []).execute
      World.touchy).1 = .error ⟨.noAttribute (some "x"), none,
        ["while evaluating attribute 'name' (factory:user) of factory 'user'"]⟩ := by
  decide +kernel

end Action

/-! ## 4. What has been resolved -/

namespace Recorded

variable {O : Observed} {e : EvaluationId} {E : Evaluation} {w w' : World} {t : Table Value}
  {active : List String} {marks : List Mark} (hO : O.Charted) (hdeclarations : E.declarations = none)

include hO hdeclarations

/-- What is read while all attributes are gone through is kept. -/
theorem kept_of_readAmong (hE : w.Stands e E t active) {count : Nat} {name : String}
    {a : String × Value} (h : readAmong O e count name w = ((.ok a, w'), marks))
    (hmild : Mild marks) :
    ∃ t', w'.Stands e E t' active ∧ t.Holds t' ∧ a.1 = name ∧ t'.get? a.1 = some a.2 := by
  obtain ⟨v, w₁, marks₁, marks₂, hread, hrest, rfl⟩ := ok_of_bind h
  have hmild₁ := (mild_append.mp hmild).1
  have hcharts := charted_read hO hE hdeclarations name
  rw [Charted, hread] at hcharts
  obtain ⟨t', hE', hcomputes⟩ := (hcharts hmild₁).standing e E t active hE hdeclarations
  have hintact : w.intact e := by
    rw [World.intact, show w.evaluation? e = _ from hE, hdeclarations]
  obtain ⟨E₁, t₁, active₁, hE₁, -, hkept⟩ := kept_of_read hO hintact hread hmild₁
  rw [silent_bind_ok (execute_getEvaluation hE'), silent_bind_ok (execute_get w₁),
    hdeclarations] at hrest
  cases hrest
  exact ⟨t', hE', hcomputes.holds, rfl, hE₁.values_eq hE' ▸ hkept⟩

/-- **What has been resolved is kept**, each attribute with the value that it was resolved to. -/
theorem kept_of_resolving (hE : w.Stands e E t active) (count : Nat) (names : List String)
    {entries : List (String × Value)}
    (h : (names.mapM fun name => doing e (.resolves name) (readAmong O e count name)) w =
      ((.ok entries, w'), marks)) (hmild : Mild marks) :
    ∃ t', w'.Stands e E t' active ∧ t.Holds t' ∧
      ∀ a ∈ entries, a.1 ∈ names ∧ t'.get? a.1 = some a.2 := by
  induction names generalizing w t entries marks with
  | nil =>
    cases h
    exact ⟨t, hE, fun _ _ hv => hv, List.forall_mem_nil _⟩
  | cons name names ih =>
    rw [List.mapM_cons] at h
    obtain ⟨a, w₁, marks₁, later, hfirst, hothers, rfl⟩ := ok_of_bind h
    obtain ⟨others, w₂, marks₂, marks₃, hrest, hpure, rfl⟩ := ok_of_bind hothers
    cases hpure
    obtain ⟨hmild₁, hmild₂⟩ := mild_append.mp hmild
    rcases hread : readAmong O e count name w with ⟨⟨outcome, w₁'⟩, inner⟩
    rw [Recorded.doing, hread] at hfirst
    cases hfirst
    obtain ⟨t₁, hE₁, hholds₁, rfl, hkept₁⟩ := kept_of_readAmong hO hdeclarations hE hread
      (mild_append.mp (mild_cons.mp hmild₁).2).1
    obtain ⟨t₂, hE₂, hholds₂, hkept₂⟩ := ih hE₁ hrest (mild_append.mp hmild₂).1
    refine ⟨t₂, hE₂, fun n v hv => hholds₂ n v (hholds₁ n v hv), List.forall_mem_cons.mpr
      ⟨⟨List.mem_cons_self, hholds₂ _ _ hkept₁⟩, fun b hb => ?_⟩⟩
    exact ⟨List.mem_cons_of_mem _ (hkept₂ b hb).1, (hkept₂ b hb).2⟩

theorem kept_of_resolve (hE : w.Stands e E t active) {values : Table Value}
    (h : resolve O e w = ((.ok values, w'), marks)) (hmild : Mild marks) :
    ∃ t', w'.Stands e E t' active ∧
      ∀ a ∈ values.entries, a.1 ∈ E.plan.names ∧ t'.get? a.1 = some a.2 := by
  have hnames : (do namesToResolve (← getEvaluation e) : Action (List String)).execute w =
      (.ok E.plan.names, w) :=
    execute_names (E := { E with values := .own t, active := .own active }) hE hdeclarations
  rw [resolve, silent_bind_ok hnames] at h
  obtain ⟨entries, w₁, marks₁, marks₂, hall, hpure, rfl⟩ := ok_of_bind h
  cases hpure
  obtain ⟨t', hE', -, hkept⟩ :=
    kept_of_resolving hO hdeclarations hE _ _ hall (mild_append.mp hmild).1
  exact ⟨t', hE', hkept⟩

end Recorded

/-! ## 5. References -/

/-- A reference that is no text is a symbol of one. -/
theorem Value.symbol_of_name? {r : Value} {name : String} (h : r.name? = some name)
    (htext : r.asText? = none) :
    ∃ serial payload, r = .symbol serial payload ∧ payload.asText? = some name := by
  cases r with
  | symbol serial payload => exact ⟨serial, payload, rfl, h⟩
  -- Whatever else is a name is the text that it stands for.
  | _ => exact absurd (htext.symm.trans h) nofun

/-- **What is asked by a reference**: the item under it, what is found under it or else a default,
and whether it is there; each with what should come of it where it stands for something. -/
def Use.byReference (r default v : Value) : List (Use × Value) :=
  [(.item r, v), (.find r default, v), (.holds r, .bool true)]

namespace Action

section References

variable {w : World} {l : Loan} {noted : List String} {host : Host} {r : Value}
  {a : String × Value}

/-- What has been noted is not assigned. -/
theorem execute_assign_noted (h : w.Lent l noted) {name : String} (hname : name ∈ noted)
    (v x : Value) : (assign v (.object l.read) (.text name, x)).execute w = (.ok (), w) := by
  obtain ⟨members, hmembers, hnoted⟩ := h.read
  rw [assign_eq, execute_bind_ok (execute_lacks_noted hmembers name), hnoted,
    List.contains_iff_mem.mpr hname]
  rfl

/-- **A text that names an attribute** is a good reference for a snapshot. -/
theorem execute_text_lent (h : w.Lent l noted) (hnodup : l.names.Nodup) (ha : a ∈ l.attributes)
    (hr : r.asText? = some a.1) (default : Value) :
    ∀ u ∈ Use.byReference r default a.2, ∃ w',
      (u.1.action host (.object l.snapshot)).execute w = (.ok u.2, w') ∧
      w'.Lent l (noted ++ [a.1]) := by
  obtain ⟨w', hitem, hlent⟩ := execute_snapshotItem?_some h hr ha hnodup
  rw [Use.byReference, List.forall_mem_cons, List.forall_mem_cons, List.forall_mem_singleton]
  refine ⟨⟨w', ?_, hlent⟩, ⟨w', ?_, hlent⟩, w', ?_, hlent⟩
  · show (getItem host (.object l.snapshot) r).execute w = _
    rw [execute_getItem_lent h, execute_bind_ok hitem]
    rfl
  · show (callOwn host (.object l.snapshot) "get" [r, default] []).execute w = _
    rw [execute_find_lent h, execute_bind_ok hitem]
    rfl
  · have hholds : (contains (.object l.snapshot) r).execute w = (.ok true, w') := by
      rw [execute_contains_lent h, execute_bind_ok hitem]
      rfl
    show (contains (.object l.snapshot) r >>= _).execute w = _
    rw [execute_bind_ok hholds]
    rfl

/-- A symbol of a text can be written. -/
theorem execute_quoted_symbol {payload : Value} {name : String} (h : payload.asText? = some name)
    (serial : Nat) (w : World) : (quoted (.symbol serial payload)).execute w =
      (.ok (w.quoted (.symbol serial payload)), w) := by
  have hwritable : (w.fullView (.symbol serial payload)).isWritable = true := by
    cases payload <;> first | rfl | cases h
  rw [quoted, written, execute_bind_ok (execute_get w), World.written, if_pos hwritable]
  rfl

/-- **A symbol is no key of a snapshot**, whatever it stands for: there is no item under it, the default
is found in its place, it is not there, and nothing is noted. -/
theorem execute_symbol_lent (h : w.Lent l noted) {payload : Value} {name : String}
    (hpayload : payload.asText? = some name) (serial : Nat) (default : Value) :
    (∃ shown, (Use.action host (.object l.snapshot) (.item (.symbol serial payload))).execute w =
      (.error (Failure.raise (.missingKey shown)), w)) ∧
    (Use.action host (.object l.snapshot) (.find (.symbol serial payload) default)).execute w =
      (.ok default, w) ∧
    (Use.action host (.object l.snapshot) (.holds (.symbol serial payload))).execute w =
      (.ok (.bool false), w) := by
  have hitem : (snapshotItem? l.shown (.symbol serial payload)).execute w = (.ok none, w) := by
    have hrequire : (requireKey (.symbol serial payload)).execute w = (.ok ⟨⟩, w) := rfl
    have hvalue : w.entryValue? l.entries (.symbol serial payload) = none := by
      rw [w.entryValue?_entries]
      rfl
    rw [snapshotItem?, execute_bind_ok hrequire, execute_bind_ok (execute_get w),
      execute_bind_ok (execute_snapshotTable h), hvalue]
    rfl
  refine ⟨⟨w.quoted (.symbol serial payload), ?_⟩, ?_, ?_⟩
  · show (getItem host (.object l.snapshot) _).execute w = _
    rw [execute_getItem_lent h, execute_bind_ok hitem]
    show (missing _).execute w = _
    rw [missing, execute_bind_ok (execute_quoted_symbol hpayload serial w)]
    rfl
  · show (callOwn host (.object l.snapshot) "get" _ []).execute w = _
    rw [execute_find_lent h, execute_bind_ok hitem]
    rfl
  · have hholds : (contains (.object l.snapshot) (.symbol serial payload)).execute w =
        (.ok false, w) := by
      rw [execute_contains_lent h, execute_bind_ok hitem]
      rfl
    show (contains (.object l.snapshot) _ >>= _).execute w = _
    rw [execute_bind_ok hholds]
    rfl

/-- A context answers a reference to what its evaluation keeps. -/
theorem execute_reference_context {e : EvaluationId} {E : Evaluation} {t : Table Value}
    {active : List String} (hE : w.Stands e E t active) (hdeclarations : E.declarations = none)
    (hown : Activity.ownContext w e) (hdeclared : a.1 ∈ E.plan.names)
    (hkept : t.get? a.1 = some a.2) (hr : r.name? = some a.1) (default : Value) :
    ∀ u ∈ Use.byReference r default a.2,
      (u.1.action host (.context e)).execute w = (.ok u.2, w) := by
  have hread : (read host e a.1).execute w = (.ok a.2, w) := execute_read_kept hE hkept
  have hdeclares : w.declares e a.1 = true := by
    rw [hE.declares_eq]
    exact Plan.isSome_declaration?.mpr hdeclared
  rw [Use.byReference, List.forall_mem_cons, List.forall_mem_cons, List.forall_mem_singleton]
  refine ⟨?_, ?_, ?_⟩
  · exact (execute_item_context hown hr).trans hread
  · show (callOwn host (.context e) "get" [r, default] []).execute w = _
    rw [execute_find_context hE hdeclarations hown hr, if_pos hdeclares, hread]
  · show (contains (.context e) r >>= _).execute w = _
    rw [execute_bind_ok (execute_contains_context hE hdeclarations hown hr), hdeclares]
    rfl

/-- **References to what has been resolved.** Once its attributes have been resolved the context of an
evaluation answers every reference to one of them, be it a text or a symbol of one. The snapshot of
them that a constructor is handed gives the same answers just for texts, and then the attribute is
noted, so that it is not assigned. For any other symbol the snapshot does as if there were no such
attribute. -/
theorem references_to_resolved (customs : Customs) (n : Nat) {e : EvaluationId} {E : Evaluation}
    {t values : Table Value} {active : List String} {w₀ w₁ : World} {marks : List Mark}
    (hE : w₀.Stands e E t active) (hdeclarations : E.declarations = none)
    (hresolve : Recorded.resolve (.watched customs n) e w₀ = ((.ok values, w₁), marks))
    (hmild : Mild marks) (hlater : w₁.Upheld w) (hown : Activity.ownContext w e)
    (hattributes : l.attributes = values.entries) (hnodup : l.names.Nodup) (hlent : w.Lent l noted)
    (ha : a ∈ l.attributes) (hr : r.name? = some a.1) (host : Host) (default : Value) :
    (∀ u ∈ Use.byReference r default a.2,
      (u.1.action host (.context e)).execute w = (.ok u.2, w)) ∧
    (r.asText?.isSome → ∀ u ∈ Use.byReference r default a.2, ∃ w',
      (u.1.action host (.object l.snapshot)).execute w = (.ok u.2, w') ∧
      w'.Lent l (noted ++ [a.1]) ∧
      ∀ v, (assign v (.object l.read) (.text a.1, a.2)).execute w' = (.ok (), w')) ∧
    (r.asText? = none →
      (∃ shown, (Use.action host (.object l.snapshot) (.item r)).execute w =
        (.error (Failure.raise (.missingKey shown)), w)) ∧
      (Use.action host (.object l.snapshot) (.find r default)).execute w = (.ok default, w) ∧
      (Use.action host (.object l.snapshot) (.holds r)).execute w = (.ok (.bool false), w)) ∧
    ((∀ u ∈ Use.byReference r default a.2,
      ((u.1.action host (.object l.snapshot)).execute w).1 =
        ((u.1.action host (.context e)).execute w).1) ↔ r.asText?.isSome) := by
  obtain ⟨t₁, hE₁, hkept⟩ := kept_of_resolve (Observed.charted_watched customs n) hdeclarations hE
    hresolve hmild
  obtain ⟨t', hE', hholds⟩ := hlater.stands hE₁
  rw [hattributes] at ha
  obtain ⟨hdeclared, hvalue⟩ := hkept a ha
  rw [← hattributes] at ha
  have hcontext : ∀ u ∈ Use.byReference r default a.2,
      (u.1.action host (.context e)).execute w = (.ok u.2, w) :=
    execute_reference_context hE' hdeclarations hown hdeclared (hholds _ _ hvalue) hr default
  have htext : r.asText?.isSome → r.asText? = some a.1 := fun hsome => by
    obtain ⟨s, hs⟩ := Option.isSome_iff_exists.mp hsome
    rw [hs, ← Value.name?_of_asText? hs, hr]
  refine ⟨hcontext, fun hsome u hu => ?_, ?_, fun hsame => ?_, fun hsome u hu => ?_⟩
  · obtain ⟨w', hu', hlent'⟩ := execute_text_lent hlent hnodup ha (htext hsome) default u hu
    exact ⟨w', hu', hlent', fun v => execute_assign_noted hlent' (by simp) v a.2⟩
  · intro hnone
    obtain ⟨serial, payload, rfl, hpayload⟩ := Value.symbol_of_name? hr hnone
    exact execute_symbol_lent hlent hpayload serial default
  · rw [Option.isSome_iff_ne_none]
    intro hnone
    obtain ⟨serial, payload, rfl, hpayload⟩ := Value.symbol_of_name? hr hnone
    have hholds : (Use.action host (.object l.snapshot) (.holds (.symbol serial payload))).execute
        w = (.ok (.bool false), w) := (execute_symbol_lent hlent hpayload serial default).2.2
    have hsame := hsame (.holds (.symbol serial payload), .bool true) (by simp [Use.byReference])
    rw [hholds, hcontext _ (by simp [Use.byReference])] at hsame
    cases hsame
  · obtain ⟨w', hu', -⟩ := execute_text_lent hlent hnodup ha (htext hsome) default u hu
    rw [hu', hcontext u hu]

end References

end Action

/-- The world in which a user with a name begins to be evaluated. -/
def World.ann : World := evaluating (.user (some (.text "Ann")) .null) .build

/-- Its evaluation, apart from what it has come to. -/
def Evaluation.ann : Evaluation := (World.ann.evaluation? ⟨0⟩).getD
  ⟨⟨0⟩, .assemble "" .null [] [], .null, .null, .null, .own ∅, .own [], none, ∅⟩

/-- Its attributes are resolved. -/
def Recorded.ann : (Except Failure (Table Value) × World) × List Mark :=
  Recorded.resolve (.watched .ofPrograms 5) ⟨0⟩ World.ann

/-- The world in which there is a table of them. -/
def World.annTable : World :=
  ((alloc (.dict [(.text "name", .text "Ann")])).execute Recorded.ann.1.2).2

/-- What a constructor of the user is lent. -/
def Loan.ann : Loan :=
  World.annTable.loan Evaluation.ann.plan ⟨Recorded.ann.1.2.heap.size⟩ [("name", .text "Ann")]

namespace Action

theorem references_to_resolved_ann : (World.annTable.lend .ann).Lent .ann [] ∧
    (∀ u ∈ Use.byReference (.textSymbol 1 "name") .null (.text "Ann"), ∃ w',
      (u.1.action (.ofDepth 5) (.object Loan.ann.snapshot)).execute (World.annTable.lend .ann) =
        (.ok u.2, w') ∧ w'.Lent .ann ["name"]) ∧
    ∀ u ∈ Use.byReference (.symbol 1 (.text "name")) .null (.text "Ann"),
      (u.1.action (.ofDepth 5) (.context ⟨0⟩)).execute (World.annTable.lend .ann) =
        (.ok u.2, World.annTable.lend .ann) := by
  have hstands : World.ann.Stands ⟨0⟩ .ann ∅ [] := by
    show World.ann.evaluation? ⟨0⟩ = _
    decide +kernel
  have hdeclarations : Evaluation.ann.declarations = none := by decide +kernel
  have hvalues : Recorded.ann.1.1 = .ok ⟨[("name", .text "Ann")]⟩ := by decide +kernel
  have hmild : Mild Recorded.ann.2 := by decide +kernel
  have hlater : Recorded.ann.1.2.Upheld (World.annTable.lend .ann) :=
    ((keeps_alloc (F := .upheld) _ _).trans (keeps_alloc (F := .upheld) _ _)).trans
      (keeps_alloc (F := .upheld) _ _)
  have hlent : (World.annTable.lend .ann).Lent .ann [] := lent_lend rfl (by decide +kernel)
  have happly := fun r hr => references_to_resolved (r := r) .ofPrograms 5 hstands hdeclarations
    (eq_of_outcome (r := Recorded.ann) hvalues) hmild hlater (by decide +kernel) rfl
    (by decide +kernel) hlent (a := ("name", .text "Ann")) (List.mem_singleton.mpr rfl) hr
    (.ofDepth 5) .null
  refine ⟨hlent, fun u hu => ?_, (happly (.symbol 1 (.text "name")) rfl).1⟩
  obtain ⟨w', hu', hlent', -⟩ := (happly (.textSymbol 1 "name") rfl).2.1 rfl u hu
  exact ⟨w', hu', hlent'⟩

/-- **A symbol is lost on a snapshot**: the context has the name for it, and the snapshot has
not. -/
theorem symbol_lost :
    ((getItem (.ofDepth 5) (.context ⟨0⟩) (.symbol 1 (.text "name"))).execute
      (World.annTable.lend .ann)).1 = .ok (.text "Ann") ∧
    ((getItem (.ofDepth 5) (.object Loan.ann.snapshot) (.symbol 1 (.text "name"))).execute
      (World.annTable.lend .ann)).1 = .error (Failure.raise (.missingKey "<Ref.M: 'name'>")) ∧
    ((callOwn (.ofDepth 5) (.object Loan.ann.snapshot) "get"
      [.symbol 1 (.text "name"), .null] []).execute (World.annTable.lend .ann)).1 = .ok .null ∧
    ((contains (.object Loan.ann.snapshot) (.symbol 1 (.text "name"))).execute
      (World.annTable.lend .ann)).1 = .ok false := by
  decide +kernel

end Action

end TraitFactory
