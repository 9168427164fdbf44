import TraitFactory.Proofs.Respelling
import TraitFactory.Session

/-!
# Sessions in two spellings

Two programs that ask for the same and only write names in different ways come to the same, step by
step, and leave the same worlds. What functions ask for when they are called may be written in
different ways, too. Lists and tables under names are objects, so a program that uses one of them in
another spelling has both of them made.
-/

namespace TraitFactory

open Action

/-! ## 1. Programs and functions -/

/-- **A program in two spellings.** Both ask for the same in different spellings, and go on in the
same way with what they are given. -/
inductive Program.Respelled (host : Host) : World → Program → Program → Prop
  | done (w : World) (v : Value) : Respelled host w (.done v) (.done v)
  | fail (w : World) (e : Failure) : Respelled host w (.fail e) (.fail e)
  | ask {w : World} {r r' : Request} {k k' : Except Failure Value → Program}
      (hr : r.Respelled host w r')
      (hk : Respelled host ((answer host r).execute w).2 (k ((answer host r).execute w).1)
        (k' ((answer host r').execute w).1)) :
      Respelled host w (.ask r k) (.ask r' k')
  | define {w : World} (head : FunctionHead) (body : List Value → Program) {k k' : Value → Program}
      (hk : ∀ f w', (makeFunction head body).execute w = (.ok f, w') →
        Respelled host w' (k f) (k' f)) :
      Respelled host w (.define head body k) (.define head body k')

/-- **What a program comes to, step by step**: what each request gives it and what it gives itself,
each with the world that is left. -/
def Program.steps (host : Host) : Program → World → List (Except Failure Value × World)
  | .done v, w => [(.ok v, w)]
  | .fail e, w => [(.error e, w)]
  | .ask r k, w =>
    let step := (answer host r).execute w
    step :: (k step.1).steps host step.2
  | .define head body k, w =>
    match (makeFunction head body).execute w with
    | (.ok f, w') => (k f).steps host w'
    | (.error e, w') => [(.error e, w')]

/-- Functions written in another way: what each does instead with its arguments. -/
abbrev Respelling := FunctionId → Function → List Value → Program

/-- **The host under which functions are written in another way**, for a number of levels of
nesting. -/
def Respelling.host (σ : Respelling) : Nat → Host
  | 0 => .exhausted
  | n + 1 => ⟨fun f arguments =>
    match f with
    | .function id => do
      match (← get).function? id with
      | some g => callFunction (σ.host n) { g with body := σ id g } arguments
      | none => wrongType
    | f => callValue (σ.host n) f arguments⟩

/-- **Functions that only spell names in another way**, wherever they are called. -/
def Respelling.Faithful (σ : Respelling) : Prop :=
  ∀ n (w : World) id g seen, w.function? id = some g →
    (g.body seen).Respelled (Host.ofDepth n) w (σ id g seen)

section Programs

variable {host : Host} {w : World}

theorem execute_run_of_respelled (hfetches : host.Fetches) {p p' : Program}
    (h : p.Respelled host w p') : (p.run host).execute w = (p'.run host).execute w := by
  have hask : ∀ r (k : Except Failure Value → Program) w, ((Program.ask r k).run host).execute w =
      ((k ((answer host r).execute w).1).run host).execute ((answer host r).execute w).2 :=
    fun r k w => execute_bind_ok (execute_attempt _ w)
  induction h with
  | done w v => rfl
  | fail w e => rfl
  | ask hr hk ih => rw [hask, hask, ih, (sameStep_answer hfetches hr).2]
  | @define w head body k k' hk ih =>
    rw [Program.run, Program.run]
    rcases hf : (makeFunction head body).execute w with ⟨e | f, w'⟩
    · rw [execute_bind_error hf, execute_bind_error hf]
    · rw [execute_bind_ok hf, execute_bind_ok hf]
      exact ih f w' hf

/-- **Where functions only spell names in another way, every call comes to the same.** -/
theorem Respelling.Faithful.host_eq {σ : Respelling} (h : σ.Faithful) (n : Nat) :
    σ.host n = Host.ofDepth n := by
  induction n with
  | zero => rfl
  | succ n ih =>
    rw [Respelling.host, ih, Host.ofDepth]
    congr 1
    funext f arguments
    cases f with
    | function id =>
      funext w
      have hcalled : ∀ g, w.function? id = some g →
          (callFunction (Host.ofDepth n) { g with body := σ id g } arguments).execute w =
            (callFunction (Host.ofDepth n) g arguments).execute w := by
        intro g hg
        have hbound : boundArguments { g with body := σ id g } arguments =
            boundArguments g arguments := rfl
        rw [callFunction, callFunction, hbound]
        cases boundArguments g arguments with
        | none => rfl
        | some seen =>
          -- The call is announced, which changes no function.
          have hrun : ∀ w' : World, w'.function? id = some g →
              ((σ id g seen).run (Host.ofDepth n)).execute w' =
                ((g.body seen).run (Host.ofDepth n)).execute w' := fun w' hg' =>
            (execute_run_of_respelled (fetches_ofDepth n) (h n w' id g seen hg')).symm
          cases g.quiet with
          | true => exact hrun w hg
          | false => exact hrun _ hg
      have hcall : (callValue (Host.ofDepth n) (.function id) arguments).execute w =
          match w.function? id with
          | some g => (callFunction (Host.ofDepth n) g arguments).execute w
          | none => wrongType.execute w := by
        rw [callValue, execute_bind_ok (execute_get w)]
        cases w.function? id <;> rfl
      refine Eq.trans ?_ hcall.symm
      show (get >>= fun w' : World => _ : Action Value).execute w = _
      rw [execute_bind_ok (execute_get w)]
      rcases hg : w.function? id with _ | g
      · rfl
      · exact hcalled g hg
    | _ => rfl

end Programs

/-! ## 2. Ways to write a program -/

namespace Program

/-- Asks, and ends with nothing where what is asked for is refused. -/
def unlessRefused (r : Request) (k : Value → Program) : Program :=
  .ask r fun
    | .ok v => k v
    | .error _ => .done .null

/-- Makes a list of names in both spellings. -/
def packs (names names' : List Value) (k : Value → Value → Program) : Program :=
  unlessRefused (.newTuple names) fun t => unlessRefused (.newTuple names') (k t)

/-- Makes a table under names in both spellings. -/
def packsTable (entries entries' : List (Value × Value)) (k : Value → Value → Program) : Program :=
  unlessRefused (.newDict entries) fun t => unlessRefused (.newDict entries') (k t)

/-- Asks for the same in other spellings. -/
def respell (f : Request → Request) : Program → Program
  | .done v => .done v
  | .fail e => .fail e
  | .ask r k => .ask (f r) fun x => (k x).respell f
  | .define head body k => .define head body fun v => (k v).respell f

variable {host : Host} {w : World}

theorem respelled_unlessRefused (hfetches : host.Fetches) {r r' : Request} {k k' : Value → Program}
    (hr : r.Respelled host w r') (hk : ∀ v w', (answer host r).execute w = (.ok v, w') →
      (k v).Respelled host w' (k' v)) :
    (unlessRefused r k).Respelled host w (unlessRefused r' k') := by
  refine .ask hr ?_
  have houtcome := (sameStep_answer hfetches hr).1
  rcases hx : (answer host r).execute w with ⟨e | v, w'⟩ <;> rw [hx] at houtcome
  · generalize ((answer host r').execute w).1 = x' at houtcome
    cases houtcome <;> exact .done w' .null
  · generalize ((answer host r').execute w).1 = x' at houtcome
    cases houtcome
    exact hk v w' hx

/-- **A list of names that is made in both spellings** may be used in either of them. -/
theorem respelled_packs (hfetches : host.Fetches) {names names' : List Value}
    (hnames : List.Forall₂ Value.SameName names names') {k k' : Value → Value → Program}
    (hk : ∀ t t' w', w'.SameNames (some t) (some t') → (k t t').Respelled host w' (k' t t')) :
    (packs names names' k).Respelled host w (packs names names' k') := by
  refine respelled_unlessRefused hfetches (.same _) fun t w₁ ht => ?_
  refine respelled_unlessRefused hfetches (.same _) fun t' w₂ ht' => hk t t' w₂ ?_
  obtain ⟨o, _, hmade, ho, _⟩ := execute_alloc (w := w) (.tuple names)
  obtain ⟨o', _, hmade', ho', hkept⟩ := execute_alloc (w := w₁) (.tuple names')
  cases hmade.symm.trans ht
  cases hmade'.symm.trans ht'
  have hitems : ∀ {o items}, w₂.heap.get? o = some (.tuple items) →
      w₂.items? (.object o) = some items := fun {o items} h => by
    rw [World.items?, show w₂.heap.object? (.object o) = _ from h]
  exact .spelled (hitems (hkept o _ ho)) (hitems ho') hnames

/-- **A table under different names that is made in both spellings** may be used in either. -/
theorem respelled_packsTable (hfetches : host.Fetches) {entries entries' : List (Value × Value)}
    {names : List String} (hnamed : World.Named entries names) (hnodup : names.Nodup)
    (hentries : List.Forall₂ (World.SameEntry Value.SameName) entries entries')
    {k k' : Value → Value → Program}
    (hk : ∀ t t' w', w'.SameTable Value.SameName (some t) (some t') →
      (k t t').Respelled host w' (k' t t')) :
    (packsTable entries entries' k).Respelled host w (packsTable entries entries' k') := by
  have hnamed' : World.Named entries' names := by
    unfold World.Named at hnamed ⊢
    clear hnodup hk
    induction hentries generalizing names with
    | nil => exact hnamed
    | cons he _ ih =>
      cases hnamed with
      | cons hname hnamed => exact .cons (he.1.name?.trans hname) (ih hnamed)
  refine respelled_unlessRefused hfetches (.same _) fun t w₁ ht => ?_
  refine respelled_unlessRefused hfetches (.same _) fun t' w₂ ht' => hk t t' w₂ ?_
  have ht₁ : (newDict entries).execute w = _ := ht
  have ht₂ : (newDict entries').execute w₁ = _ := ht'
  rw [execute_newDict_of_named hnamed hnodup] at ht₁
  rw [execute_newDict_of_named hnamed' hnodup] at ht₂
  obtain ⟨o, _, hmade, ho, _⟩ := execute_alloc (w := w) (.dict entries)
  obtain ⟨o', _, hmade', ho', hkept⟩ := execute_alloc (w := w₁) (.dict entries')
  cases hmade.symm.trans ht₁
  cases hmade'.symm.trans ht₂
  have hread : ∀ {o entries}, w₂.heap.get? o = some (.dict entries) →
      w₂.entries? (.object o) = some entries := fun {o entries} h => by rw [World.entries?, h]
  exact .spelled (hread (hkept o _ ho)) (hread ho') hentries

/-- **A function may spell in another way all that it asks for.** -/
theorem respelled_respell {f : Request → Request} (hf : ∀ w r, r.Respelled host w (f r) ∧
    (answer host (f r)).execute w = (answer host r).execute w) (p : Program) :
    p.Respelled host w (p.respell f) := by
  induction p generalizing w with
  | done v => exact .done w v
  | fail e => exact .fail w e
  | ask r k ih =>
    refine .ask (hf w r).1 ?_
    rw [(hf w r).2]
    exact ih _
  | define head body k _ ih => exact .define head body fun v w' _ => ih v

end Program

/-! ## 3. A promotion -/

/-- A request to a context, with the name as a symbol. -/
def Request.inSymbols : Request → Request
  | .getItem (.context e) (.text s) => .getItem (.context e) (.symbol 0 (.text s))
  | .contains (.context e) (.text s) => .contains (.context e) (.symbol 0 (.text s))
  | .call (.method serial (.context e) "get") (.text s :: rest) [] =>
    .call (.method serial (.context e) "get") (.symbol 0 (.text s) :: rest) []
  | r => r

/-- Functions that ask contexts by symbols where they would ask by texts. -/
def Respelling.inSymbols : Respelling := fun _ g seen => (g.body seen).respell Request.inSymbols

theorem Respelling.faithful_inSymbols : inSymbols.Faithful := by
  intro n w id g seen _
  refine Program.respelled_respell (fun w r => ?_) _
  have hname : ∀ s, (Value.text s).SameName (.symbol 0 (.text s)) := fun s => .inr ⟨s, rfl, rfl⟩
  unfold Request.inSymbols
  split
  · rename_i e s
    refine ⟨.getItem e (hname s), ?_⟩
    exact congrArg (fun a : Action Value => a.execute w) (getItem_context_congr _ e (hname s)).symm
  · rename_i e s
    refine ⟨.contains e (hname s), ?_⟩
    simp only [answer, contains_context_congr e (hname s)]
  · rename_i serial e s rest
    refine ⟨.get serial e rest (hname s), ?_⟩
    have hfetches := fetches_ofDepth n serial e _ _ rest (hname s)
    exact congrArg (fun a : Action Value => a.execute w) hfetches.symm
  · exact ⟨.same r, rfl⟩

namespace Program

/-- The greeting of a user tells the rank, which a context is asked for. -/
def greeting : List Value → Program
  | context :: _ => .ask (.getItem context (.text "rank")) fun
    | .ok v => .done v
    | .error e => .fail e
  | [] => .done .null

/-- A user of a rank, who is promoted by a trait and then renamed for once. Names are written by
`name`, and of lists and tables in two spellings the one is used that `pick` says. -/
def promotion (name : String → Value) (pick : Value → Value → Value) : Program :=
  let symbol (s : String) : Value := .symbol 1 (.text s)
  unlessRefused (.command (.defineFactory none (name "user") .null .null none)) fun user =>
  unlessRefused (.command (.localTrait user (name "promoted"))) fun promoted =>
  unlessRefused (.command (.set promoted (name "rank") (some (.text "captain")) .null)) fun _ =>
  .define {} greeting fun greets =>
  unlessRefused (.command (.set user (name "greeting") none greets)) fun _ =>
  packs [.text "promoted"] [symbol "promoted"] fun t t' =>
  unlessRefused (.command (.compile none (name "user") (some (pick t t')))) fun plan =>
  packsTable [(.text "alias", .text "Kim")] [(symbol "alias", .text "Kim")] fun d d' =>
  let overrides := some (pick d d')
  unlessRefused (.command (.evaluate none false plan (.text "attributes_for") overrides none none))
    .done

def promotionInTexts : Program := promotion .text fun t _ => t

def promotionInSymbols : Program := promotion (fun s => .symbol 1 (.text s)) fun _ t' => t'

/-- The promotion with all names as texts, and with all names as symbols. -/
theorem respelled_promotion (n : Nat) (w : World) :
    promotionInTexts.Respelled (Host.ofDepth n) w promotionInSymbols := by
  have hfetches := fetches_ofDepth n
  have hname : ∀ s, (Value.text s).SameName (.symbol 1 (.text s)) := fun s => .inr ⟨s, rfl, rfl⟩
  refine respelled_unlessRefused hfetches
    (.command (.defineFactory _ _ (hname _) (.refl _) (.same _))) fun user w₁ _ => ?_
  refine respelled_unlessRefused hfetches (.command (.localTrait _ (hname _)))
    fun promoted w₂ _ => ?_
  refine respelled_unlessRefused hfetches (.command (.set _ _ _ (hname _))) fun _ w₃ _ => ?_
  refine .define _ _ fun greets w₄ _ => ?_
  refine respelled_unlessRefused hfetches (.command (.set _ _ _ (hname _))) fun _ w₅ _ => ?_
  refine respelled_packs hfetches (.cons (hname _) .nil) fun t t' w₆ ht => ?_
  refine respelled_unlessRefused hfetches (.command (.compile _ (hname _) ht)) fun plan w₇ _ => ?_
  have hentries : List.Forall₂ (World.SameEntry Value.SameName) [(.text "alias", .text "Kim")]
      [(.symbol 1 (.text "alias"), .text "Kim")] := .cons ⟨hname "alias", rfl⟩ .nil
  refine respelled_packsTable hfetches (.cons rfl .nil) (by simp) hentries fun d d' w₈ hd => ?_
  exact respelled_unlessRefused hfetches (.command (.evaluate _ _ _ _ _ _ hd)) fun v w' _ =>
    .done w' v

end Program

end TraitFactory
