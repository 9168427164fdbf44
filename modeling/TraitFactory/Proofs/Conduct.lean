import TraitFactory.Interpreter
import TraitFactory.Proofs.MildReads

/-!
# What functions do

A function that is called does one thing after another, until it ends: it changes the world, or it
reads an attribute through the context that it was handed. Calls are nested in levels: on each, the
hooks of runners run associations one level below, and all else does what functions do. The host
that programs run under is of this kind.
-/

namespace TraitFactory

open Action

/-! ## 1. Conduct -/

/-- **What a function does once it is called**: it ends, or it changes the world and goes on with
what it has found there, or it reads an attribute through the context that it was handed. -/
inductive Conduct where
  | ends (outcome : Except Failure Value)
  | acts (change : World → World) (next : World → Conduct)
  | reads (name : String) (next : Except Failure Value → Conduct)

/-- What is done is told of only if it meddles with evaluation. -/
def Recorded.watched (change : World → World) : Recorded World := fun w =>
  ((.ok w, change w), if w.Idle (change w) then [] else [.meddles])

namespace Conduct

/-- What a function does, given the evaluation whose context it was handed, if any. -/
def run (host : Host) (reader : Option EvaluationId) : Conduct → Action Value
  | .ends outcome => Action.liftExcept outcome
  | .acts change next => do
    let w ← get
    set (change w)
    (next w).run host reader
  | .reads name next => do
    let outcome ← attempt (match reader with
      | some e => read host e name
      | none => noAttribute)
    (next outcome).run host reader

/-- What is told of it. -/
def perform (O : Observed) (reader : Option EvaluationId) : Conduct → Recorded Value
  | .ends outcome => .silent (Action.liftExcept outcome)
  | .acts change next => do (next (← Recorded.watched change)).perform O reader
  | .reads name next => do
    let outcome ← (match reader with
      | some e => Recorded.read O e name
      | none => .silent noAttribute).attempt
    (next outcome).perform O reader

theorem records_perform (O : Observed) (reader : Option EvaluationId) (conduct : Conduct) :
    Recorded.Records (conduct.perform O reader) (conduct.run O.host reader) := by
  induction conduct with
  | ends outcome => exact Recorded.records_silent _
  | acts change next ih => exact fun w => ih w (change w)
  | reads name next ih =>
    refine Recorded.Records.bind (Recorded.Records.attempt ?_) ih
    cases reader with
    | some e => exact Recorded.records_read e name
    | none => exact Recorded.records_silent _

/-- **What is told of a function in a mild run** is what its reads tell. -/
theorem tends_perform {O : Observed} {P : List Mark → Prop} (hP : Tale P)
    {reader : Option EvaluationId} {w : World} (conduct : Conduct)
    (hreads : ∀ e, reader = some e → ∀ name w', w.Upheld w' →
      Recorded.Tends P (Recorded.read O e name) w') :
    Recorded.Tends P (conduct.perform O reader) w := by
  induction conduct generalizing w with
  | ends outcome => exact Recorded.tends_silent hP (keeps_liftExcept _)
  | acts change next ih =>
    have hwatched : Recorded.Tends P (Recorded.watched change) w := by
      intro hmild
      rw [Recorded.watched] at hmild ⊢
      by_cases hidle : w.Idle (change w)
      · rw [if_pos hidle]
        exact ⟨hidle.upheld, hP.nil⟩
      · rw [if_neg hidle] at hmild
        exact absurd (hmild _ List.mem_cons_self) Bool.false_ne_true
    exact hwatched.bind hP fun w₀ w₁ h₁ => ih w₀ fun e he name w₂ h₂ =>
      hreads e he name w₂ (h₁.trans h₂)
  | reads name next ih =>
    have hread : Recorded.Tends P (match reader with
        | some e => Recorded.read O e name
        | none => .silent noAttribute) w := by
      cases reader with
      | some e => exact hreads e rfl name w (.refl w)
      | none => exact Recorded.tends_silent hP keeps_noAttribute
    exact hread.attempt.bind hP fun outcome w₁ h₁ => ih outcome fun e he name w₂ h₂ =>
      hreads e he name w₂ (h₁.trans h₂)

end Conduct

/-! ## 2. Levels of nesting -/

/-- The run that a call of the hook of a runner asks for. -/
def hookCall? : Value → List Value → Option (RunnerId × Value × Value × Value × Value)
  | .method _ (.runner r) name, [factory, traits, overrides, strategy] =>
    if name = associationHook then some (r, factory, traits, overrides, strategy) else none
  | _, _ => none

theorem eq_of_hookCall? {f : Value} {arguments : List Value} {r : RunnerId}
    {factory traits overrides strategy : Value}
    (h : hookCall? f arguments = some (r, factory, traits, overrides, strategy)) :
    ∃ serial, f = .method serial (.runner r) associationHook ∧
      arguments = [factory, traits, overrides, strategy] := by
  unfold hookCall? at h
  split at h
  · rename_i name _ _ _ _
    by_cases hname : name = associationHook
    · rw [if_pos hname] at h
      cases h
      exact ⟨_, by rw [hname], rfl⟩
    · rw [if_neg hname] at h
      cases h
  · cases h

theorem hookCall?_of_length (f : Value) {arguments : List Value} (h : arguments.length ≤ 2) :
    hookCall? f arguments = none := by
  unfold hookCall?
  split
  · simp at h
  · rfl

/-- **The host one level above another**: hooks run associations, and functions do what they do. -/
def Host.above (host : Host) (conduct : Value → List Value → Conduct) : Host :=
  ⟨fun f arguments =>
    match hookCall? f arguments with
    | some (r, factory, traits, overrides, strategy) =>
      Action.runAssociated host r factory traits overrides strategy
    | none => (conduct f arguments).run host (context? arguments)⟩

/-- **What functions do**, at each level of nesting. -/
abbrev Manners := Nat → Value → List Value → Conduct

/-- **The host for a number of levels of nesting**, below which nothing can be called. -/
def Host.nesting (manners : Manners) : Nat → Host
  | 0 => .exhausted
  | n + 1 => (nesting manners n).above (manners n)

/-! ## 3. Programs -/

/-- Whether a name that is read through a context is that of an attribute. -/
def World.readsAttribute (w : World) (e : EvaluationId) (name : String) : Bool :=
  (w.evaluation? e).any fun E => ((contextParts E e).lookup name).isNone
    && !name.startsWith "__" && (E.extras.get? "_evaluation").isNone

theorem Action.execute_getAttr_context {w : World} {e : EvaluationId} {name : String}
    (h : w.readsAttribute e name) (host : Host) :
    (getAttr host (.context e) name).execute w = (read host e name).execute w := by
  rcases hE : w.evaluation? e with _ | E <;> rw [World.readsAttribute, hE] at h
  · cases h
  · rw [Option.any_some, Bool.and_eq_true, Bool.and_eq_true] at h
    obtain ⟨⟨hpart, hname⟩, hplace⟩ := h
    show (contextField host e name).execute w = _
    rw [contextField, execute_bind_ok (execute_getEvaluation hE),
      Option.isNone_iff_eq_none.mp hpart]
    show (contextAttribute host e name).execute w = _
    rw [contextAttribute, if_neg (by simpa using hname),
      execute_bind_ok (execute_evaluationOf hE (Option.isNone_iff_eq_none.mp hplace))]

namespace Conduct

/-- What an action does, all at once. -/
def ofAction (a : Action Value) : Conduct :=
  .acts (fun w => (a.execute w).2) fun w => .ends (a.execute w).1

/-- The attribute that a request reads through the context of an evaluation. -/
def readName? (w : World) (reader : Option EvaluationId) : Request → Option String
  | .getAttr (.context e) name =>
    if reader = some e ∧ w.readsAttribute e name then some name else none
  | _ => none

/-- **What a program does.** -/
def ofProgram (host : Host) (reader : Option EvaluationId) : Program → Conduct
  | .done v => .ends (.ok v)
  | .fail e => .ends (.error e)
  | .ask r k => .acts id fun w =>
    match readName? w reader r with
    | some name => .reads name fun outcome => ofProgram host reader (k outcome)
    | none => .acts (fun w => ((answer host r).execute w).2) fun w =>
      ofProgram host reader (k ((answer host r).execute w).1)
  | .define head body k => .acts (fun w => ((makeFunction head body).execute w).2) fun w =>
    match ((makeFunction head body).execute w).1 with
    | .ok f => ofProgram host reader (k f)
    | .error e => .ends (.error e)

/-- What a value does that is called: a function does what its program does. -/
def ofCall (host : Host) (f : Value) (arguments : List Value) : Conduct :=
  .acts id fun w =>
    match f with
    | .function id =>
      match w.function? id with
      | some g =>
        match boundArguments g arguments with
        | some seen =>
          .acts (fun w => if g.quiet then w
              else ((announce [.text "call", .text g.name, .int seen.length]).execute w).2)
            fun _ => ofProgram host (context? arguments) (g.body seen)
        | none => ofAction (callValue host f arguments)
      | none => ofAction (callValue host f arguments)
    | _ => ofAction (callValue host f arguments)

variable (host : Host) (reader : Option EvaluationId)

theorem execute_acts (change : World → World) (next : World → Conduct) (w : World) :
    ((acts change next).run host reader).execute w =
      ((next w).run host reader).execute (change w) := rfl

theorem execute_ends (outcome : Except Failure Value) (w : World) :
    ((ends outcome).run host reader).execute w = (outcome, w) := by
  cases outcome <;> rfl

theorem execute_ofAction (a : Action Value) (w : World) :
    ((ofAction a).run host reader).execute w = a.execute w :=
  execute_ends host reader _ _

variable {reader} in
/-- Such a request is answered by the read. -/
theorem execute_answer {w : World} {r : Request} {name : String}
    (h : readName? w reader r = some name) : ∃ e, reader = some e ∧
      (answer host r).execute w = (Action.read host e name).execute w := by
  unfold readName? at h
  split at h
  · rename_i e name'
    by_cases hread : reader = some e ∧ w.readsAttribute e name'
    · rw [if_pos hread] at h
      cases h
      exact ⟨e, hread.1, execute_getAttr_context hread.2 host⟩
    · rw [if_neg hread] at h
      cases h
  · cases h

theorem execute_ofProgram (p : Program) (w : World) :
    ((ofProgram host reader p).run host reader).execute w = (p.run host).execute w := by
  induction p generalizing w with
  | done v => rfl
  | fail e => rfl
  | ask r k ih =>
    have hrun : ∀ w, (Program.run host (.ask r k)).execute w =
        ((k ((answer host r).execute w).1).run host).execute ((answer host r).execute w).2 :=
      fun w => execute_bind_ok (execute_attempt _ w)
    rw [ofProgram, execute_acts, hrun]
    rcases hname : readName? w reader r with _ | name
    · exact ih _ _
    · obtain ⟨e, rfl, hanswer⟩ := execute_answer host hname
      have hread := execute_attempt (Action.read host e name) w
      rw [← hanswer] at hread
      show (Conduct.run host (some e) (.reads name _)).execute w = _
      rw [Conduct.run, execute_bind_ok hread]
      exact ih _ _
  | define head body k _ ih =>
    rw [ofProgram, execute_acts, Program.run]
    rcases hf : (makeFunction head body).execute w with ⟨e | f, w'⟩
    · rw [execute_bind_error hf]
      rfl
    · rw [execute_bind_ok hf]
      exact ih f w'

/-- **Calling a value is what it does.** -/
theorem execute_ofCall (f : Value) (arguments : List Value) (w : World) :
    ((ofCall host f arguments).run host (context? arguments)).execute w =
      (callValue host f arguments).execute w := by
  rw [ofCall, execute_acts]
  cases f with
  | function id =>
    dsimp only
    rcases hf : w.function? id with _ | g
    · exact execute_ofAction host _ _ w
    · dsimp only
      rcases hseen : boundArguments g arguments with _ | seen
      · exact execute_ofAction host _ _ w
      · have hcall : (callValue host (.function id) arguments).execute w =
            (callFunction host g arguments).execute w := by
          rw [callValue, execute_bind_ok (execute_get w), hf]
        dsimp only
        rw [execute_acts, execute_ofProgram, hcall, callFunction, hseen]
        cases g.quiet <;> rfl
  | _ => exact execute_ofAction host _ _ w

end Conduct

/-- The hook of a runner runs associations. -/
theorem Action.callMethod_hook (host : Host) (r : RunnerId)
    (factory traits overrides strategy : Value) :
    callMethod host (.runner r) associationHook [factory, traits, overrides, strategy] [] =
      runAssociated host r factory traits overrides strategy := by
  funext w
  rfl

/-- What functions do whose programs run. -/
def Manners.ofPrograms : Manners := fun depth => Conduct.ofCall (.ofDepth depth)

/-- **The host that programs run under is one in which functions do what their programs do.** -/
theorem Host.ofDepth_eq_nesting (n : Nat) : ofDepth n = nesting .ofPrograms n := by
  induction n with
  | zero => rfl
  | succ n ih =>
    rw [nesting, ← ih, ofDepth, above]
    congr 1
    funext f arguments
    rcases hcall : hookCall? f arguments with _ | ⟨r, factory, traits, overrides, strategy⟩
    · funext w
      exact (Conduct.execute_ofCall (ofDepth n) f arguments w).symm
    · obtain ⟨serial, rfl, rfl⟩ := eq_of_hookCall? hcall
      exact callMethod_hook (ofDepth n) r factory traits overrides strategy

end TraitFactory
