import TraitFactory.Object.Items
import TraitFactory.Proofs.Evaluating

/-!
# What leaves evaluation alone

Most of what is done in a world has nothing to do with what evaluates there: no evaluation, no
evaluator, no runner and no settings are made or changed by it. Such an action *idles*. Going
through values, comparing them and looking for keys does.
-/

namespace TraitFactory

/-! ## 1. Worlds -/

/-- **A world in which nothing that evaluates has changed** since another. -/
structure World.Idle (w w' : World) : Prop where
  evaluations : w'.evaluations = w.evaluations
  evaluators : w'.evaluators = w.evaluators
  settings : w'.settings = w.settings
  runners : w'.runners = w.runners

instance (w w' : World) : Decidable (w.Idle w') :=
  decidable_of_iff (w'.evaluations = w.evaluations ∧ w'.evaluators = w.evaluators ∧
      w'.settings = w.settings ∧ w'.runners = w.runners)
    ⟨fun h => ⟨h.1, h.2.1, h.2.2.1, h.2.2.2⟩,
      fun h => ⟨h.evaluations, h.evaluators, h.settings, h.runners⟩⟩

/-- The frame of what leaves evaluation alone. -/
def Frame.idle : Frame where
  rel := World.Idle
  refl _ := ⟨rfl, rfl, rfl, rfl⟩
  trans h h' := ⟨h'.evaluations.trans h.evaluations, h'.evaluators.trans h.evaluators,
    h'.settings.trans h.settings, h'.runners.trans h.runners⟩

/-- Objects do not matter where nothing matters but what evaluates. -/
theorem Frame.lenient_of_idle {F : Frame} (h : ∀ w w', World.Idle w w' → F.rel w w') :
    F.Lenient where
  heap _ _ _ := h _ _ ⟨rfl, rfl, rfl, rfl⟩
  made _ _ := h _ _ ⟨rfl, rfl, rfl, rfl⟩
  log _ _ := h _ _ ⟨rfl, rfl, rfl, rfl⟩

instance : Frame.idle.Lenient := Frame.lenient_of_idle fun _ _ h => h

namespace Action

variable {α β : Type}

/-- **An action that leaves evaluation alone.** -/
abbrev Idles (a : Action α) : Prop := Keeps .idle a

/-- What the results of an action have in common. -/
def Gives (Q : α → Prop) (a : Action α) : Prop := ∀ w x, (a.execute w).1 = .ok x → Q x

section Giving

variable {F : Frame} {Q : α → Prop} {R : β → Prop}

theorem gives_pure {x : α} (h : Q x) : Gives Q (pure x : Action α) := by
  rintro w _ ⟨⟩
  exact h

theorem gives_throw (e : Failure) : Gives Q (throw e : Action α) := by
  rintro w _ ⟨⟩

theorem gives_fail (c : Cause) : Gives Q (fail c : Action α) := gives_throw _

theorem gives_bind {a : Action α} {f : α → Action β} (h : ∀ x, Gives R (f x)) :
    Gives R (a >>= f) := by
  intro w y hy
  obtain ⟨x, w', _, hf⟩ := ok_of_execute_bind (execute_of_outcome hy)
  exact h x w' y (congrArg Prod.fst hf)

theorem keeps_bind_of {a : Action α} {f : α → Action β} (ha : Keeps F a) (hQ : Gives Q a)
    (hf : ∀ x, Q x → Keeps F (f x)) : Keeps F (a >>= f) := by
  intro w
  have h := ha w
  rcases hx : a.execute w with ⟨e | x, w'⟩ <;> rw [hx] at h
  · rw [execute_bind_error hx]
    exact h
  · rw [execute_bind_ok hx]
    exact F.trans h (hf x (hQ w x (by rw [hx])) w')

end Giving

/-! ## 2. The parts of actions -/

section Making

variable {F : Frame}

section Roomy

variable [F.Roomy]

theorem keeps_alloc (x : Object) : Keeps F (alloc x) := fun w => Frame.Roomy.object w x

theorem keeps_place (x : Object) : Keeps F (place x) := fun w => Frame.Roomy.object w x

theorem keeps_newSerial : Keeps F newSerial := fun w => Frame.Roomy.serial w _

theorem keeps_newFloat (x : Double) : Keeps F (newFloat x) :=
  keeps_bind keeps_newSerial fun _ => keeps_pure _

end Roomy

variable [F.Lenient]

theorem keeps_setObject (o : ObjectId) (x : Object) :
    Keeps F (modify fun w => w.setObject o x : Action PUnit) :=
  keeps_modify fun w => Frame.Lenient.heap w _ (by simp [Heap.size, Heap.set])

theorem keeps_newMethod (receiver : Value) (name : String) : Keeps F (newMethod receiver name) := by
  unfold newMethod
  split
  · exact keeps_pure _
  · exact keeps_bind keeps_newSerial fun _ => keeps_pure _

theorem keeps_newDeclaration (name : String) (value : AttributeValue) (object : ObjectId)
    (origin : String) : Keeps F (newDeclaration name value object origin) :=
  keeps_bind keeps_get fun _ => keeps_bind (keeps_place _) fun _ => keeps_pure _

theorem keeps_newCallback (event : Event) (fn : Value) (owner : String) :
    Keeps F (newCallback event fn owner) :=
  keeps_bind keeps_get fun _ => keeps_bind (keeps_place _) fun _ => keeps_pure _

theorem keeps_log (level : LogLevel) (logger message : String) :
    Keeps F (log level logger message) := keeps_modify fun w => Frame.Lenient.log w _

theorem keeps_once (v : Value) (name : String) {make : Action Value} (h : Keeps F make) :
    Keeps F (once v name make) := by
  refine keeps_get_bind fun w => ?_
  split
  · exact F.refl w
  · have hkeep : ∀ x, Keeps F (modify fun w => w.keepPart v name x : Action PUnit) := fun x =>
      keeps_modify fun w => Frame.Lenient.made w _
    exact keeps_bind h (fun x => keeps_bind (hkeep x) fun _ => keeps_pure x) w

end Making

theorem idles_modify {f : World → World} (h : ∀ w, World.Idle w (f w)) :
    Idles (modify f : Action PUnit) := h

theorem idles_newFunction (f : Function) : Idles (newFunction f) := fun _ => ⟨rfl, rfl, rfl, rfl⟩

theorem idles_newPlan (p : StoredPlan) : Idles (newPlan p) := fun _ => ⟨rfl, rfl, rfl, rfl⟩

theorem idles_newDefinition (d : Definition) : Idles (newDefinition d) :=
  fun _ => ⟨rfl, rfl, rfl, rfl⟩

theorem idles_newBuilder (b : Builder) : Idles (newBuilder b) := fun _ => ⟨rfl, rfl, rfl, rfl⟩

/-! ### What is only read -/

section Reading

variable {F : Frame}

theorem keeps_getDefinition (d : DefinitionId) : Keeps F (getDefinition d) :=
  keeps_get_bind fun w => by split <;> exact F.refl w

theorem keeps_getRegistry (r : RegistryId) : Keeps F (getRegistry r) :=
  keeps_get_bind fun w => by split <;> exact F.refl w

theorem keeps_getRunner (r : RunnerId) : Keeps F (getRunner r) :=
  keeps_get_bind fun w => by split <;> exact F.refl w

theorem keeps_getSettings (s : SettingsId) : Keeps F (getSettings s) :=
  keeps_get_bind fun w => by split <;> exact F.refl w

theorem keeps_getEvaluator (e : EvaluatorId) : Keeps F (getEvaluator e) :=
  keeps_get_bind fun w => by split <;> exact F.refl w

theorem keeps_getEvaluation (e : EvaluationId) : Keeps F (getEvaluation e) :=
  keeps_get_bind fun w => by split <;> exact F.refl w

theorem keeps_getBuilder (b : BuilderId) : Keeps F (getBuilder b) :=
  keeps_get_bind fun w => by split <;> exact F.refl w

theorem keeps_getStored (p : PlanId) : Keeps F (getStored p) :=
  keeps_get_bind fun w => by split <;> exact F.refl w

theorem keeps_getPlan (p : PlanId) : Keeps F (getPlan p) :=
  keeps_get_bind fun w => by split <;> exact F.refl w

theorem keeps_written (v : Value) (text : View → String) : Keeps F (written v text) :=
  keeps_get_bind fun w => by split <;> exact F.refl w

theorem keeps_nameOr (cause : String → Cause) (ref : Value) : Keeps F (nameOr cause ref) := by
  unfold nameOr
  cases ref.name? with
  | some name => exact keeps_pure _
  | none => exact keeps_bind (keeps_written _ _) fun s => keeps_fail _

theorem keeps_snapshot? (v : Value) : Keeps F (snapshot? v) :=
  keeps_get_bind fun w => by split <;> exact F.refl w

theorem keeps_snapshotTable (s : Snapshot) : Keeps F (snapshotTable s) :=
  keeps_get_bind fun w => by split <;> exact F.refl w

theorem keeps_entriesOf (v : Option Value) : Keeps F (entriesOf v) := by
  cases v with
  | none => exact keeps_pure []
  | some v => exact keeps_get_bind fun w => by split <;> exact F.refl w

theorem keeps_requireKey (key : Value) : Keeps F (requireKey key) :=
  keeps_get_bind fun w => by split <;> exact F.refl w

theorem keeps_missing (key : Value) : Keeps F (missing key) :=
  keeps_bind (keeps_written _ _) fun _ => keeps_fail _

theorem keeps_entryUnder (entries : List (Value × Value)) (key : Value) :
    Keeps F (entryUnder entries key) :=
  keeps_bind (keeps_requireKey key) fun _ => keeps_get_bind fun w => F.refl w

theorem keeps_membersContain (members : List Value) (key : Value) :
    Keeps F (membersContain members key) :=
  keeps_bind (keeps_requireKey key) fun _ => keeps_get_bind fun w => F.refl w

theorem keeps_isSet (v : Value) : Keeps F (isSet v) :=
  keeps_get_bind fun w => by split <;> exact F.refl w

theorem keeps_setHas (members : List Value) (x : Value) : Keeps F (setHas members x) := by
  refine keeps_bind (keeps_isSet x) fun isSet => ?_
  split
  · exact keeps_pure _
  · exact keeps_membersContain members x

theorem keeps_bytesContain (bs : List UInt8) (key : Value) : Keeps F (bytesContain bs key) := by
  unfold bytesContain
  split
  · exact keeps_pure _
  · split
    · exact keeps_pure _
    · exact keeps_fail _
  · exact keeps_wrongType

theorem keeps_enumerationContains (member key : Value) :
    Keeps F (enumerationContains member key) := by
  unfold enumerationContains
  split <;> first | exact keeps_pure _ | exact keeps_wrongType

theorem keeps_declared? (e : Evaluation) (name : String) : Keeps F (declared? e name) := by
  unfold declared?
  split
  · exact keeps_pure _
  · exact keeps_get_bind fun w => by split <;> exact F.refl w

theorem keeps_evaluationOf (e : EvaluationId) : Keeps F (evaluationOf e) := by
  refine keeps_bind (keeps_getEvaluation e) fun evaluation => ?_
  split <;> first | exact keeps_pure _ | exact keeps_noAttribute

theorem keeps_setSize (v : Value) : Keeps F (setSize v) := by
  refine keeps_get_bind fun w => ?_
  split
  · refine keeps_bind (keeps_snapshot? _) (fun found => ?_) w
    split
    · exact keeps_pure _
    · exact keeps_bind (keeps_snapshotTable _) fun _ => keeps_pure _
    · exact keeps_wrongType
  · exact F.refl w
  · exact F.refl w

end Reading

/-! ## 3. Walks -/

section Walking

variable {F : Frame}

theorem keeps_given (name : String) (v : Value) : Keeps F (Parts.given name v).2 := keeps_pure _

/-- The reads of a walk stay within a frame. -/
def Walk.Stays (F : Frame) (reads : Walk) : Prop := ∀ read ∈ reads, Keeps F read

theorem walkOf_stays (vs : List Value) : Walk.Stays F (walkOf vs) := by
  intro read hread
  obtain ⟨v, _, rfl⟩ := List.mem_map.mp hread
  exact keeps_pure v

theorem map_stays {γ : Type} (xs : List γ) {f : γ → Action Value} (h : ∀ x ∈ xs, Keeps F (f x)) :
    Walk.Stays F (xs.map f) := by
  intro read hread
  obtain ⟨x, hx, rfl⟩ := List.mem_map.mp hread
  exact h x hx

/-- Parts that can be had within a frame. -/
def Parts.Stay (F : Frame) (parts : Parts) : Prop := ∀ part ∈ parts, Keeps F part.2

/-- A walk that stays within a frame when it is made and when it is read. -/
structure Walked (F : Frame) (a : Action Walk) : Prop where
  keeps : Keeps F a
  reads : Gives (Walk.Stays F) a

theorem walked_of {reads : Walk} (h : Walk.Stays F reads) :
    Walked F (pure reads : Action Walk) := ⟨keeps_pure _, gives_pure h⟩

theorem walked_fail (c : Cause) : Walked F (fail c : Action Walk) :=
  ⟨keeps_fail c, gives_fail c⟩

theorem walked_bind {a : Action α} {f : α → Action Walk} (ha : Keeps F a)
    (hf : ∀ x, Walked F (f x)) : Walked F (a >>= f) :=
  ⟨keeps_bind ha fun x => (hf x).keeps, gives_bind fun x => (hf x).reads⟩

/-- A walk that is read off another one. -/
theorem walked_bind_walk {a : Action Walk} {f : Walk → Action Walk} (ha : Walked F a)
    (hf : ∀ all, Walk.Stays F all → Walked F (f all)) : Walked F (a >>= f) := by
  refine ⟨keeps_bind_of ha.keeps ha.reads fun all hall => (hf all hall).keeps, ?_⟩
  intro w reads hreads
  obtain ⟨all, w₁, hall, hnext⟩ := ok_of_execute_bind (execute_of_outcome hreads)
  exact (hf all (ha.reads w all (congrArg Prod.fst hall))).reads w₁ reads (congrArg Prod.fst hnext)

theorem walked_get {f : World → Action Walk} (hf : ∀ w, Walked F (f w)) :
    Walked F (get >>= f) := walked_bind keeps_get hf

theorem keeps_mapReads {f : Action Value → Action α} (hf : ∀ read, Keeps F read → Keeps F (f read))
    {reads : Walk} (h : Walk.Stays F reads) : Keeps F (reads.mapM f) := by
  induction reads with
  | nil => exact keeps_pure []
  | cons read reads ih =>
    rw [List.mapM_cons]
    have hrest := ih fun read hread => h read (List.mem_cons_of_mem _ hread)
    exact keeps_bind (hf read (h read List.mem_cons_self)) fun _ => keeps_bind hrest fun _ =>
      keeps_pure _

theorem keeps_reads {reads : Walk} (h : Walk.Stays F reads) : Keeps F (reads.mapM id) :=
  keeps_mapReads (fun _ h => h) h

theorem keeps_anyOn {has : Value → Action Bool} (hhas : ∀ v, Keeps F (has v)) {reads : Walk}
    (h : Walk.Stays F reads) : Keeps F (anyOn has reads) := by
  induction reads with
  | nil => exact keeps_pure _
  | cons read reads ih =>
    refine keeps_bind (h read List.mem_cons_self) fun v => keeps_bind (hhas v) fun found => ?_
    split
    · exact keeps_pure _
    · exact ih fun read hread => h read (List.mem_cons_of_mem _ hread)

theorem keeps_allOn {has : Value → Action Bool} (hhas : ∀ v, Keeps F (has v)) {reads : Walk}
    (h : Walk.Stays F reads) : Keeps F (allOn has reads) := by
  induction reads with
  | nil => exact keeps_pure _
  | cons read reads ih =>
    refine keeps_bind (h read List.mem_cons_self) fun v => keeps_bind (hhas v) fun found => ?_
    split
    · exact ih fun read hread => h read (List.mem_cons_of_mem _ hread)
    · exact keeps_pure _

variable [F.Lenient]

theorem keeps_lasting (owner : Value) (name : String) (vs : List Value) :
    Keeps F (Parts.lasting owner name vs).2 := keeps_once _ _ (keeps_alloc _)

theorem keeps_noteRead (s : Snapshot) (keys : List Value) : Keeps F (noteRead s keys) := by
  refine keeps_bind keeps_get fun w => ?_
  split
  · exact keeps_modify fun w => Frame.Lenient.heap w _ (by simp [Heap.size, Heap.set])
  · exact keeps_noAttribute

theorem keeps_aspectElement (aspect : TableAspect) (entry : Value × Value) :
    Keeps F (aspectElement aspect entry) := by
  cases aspect with
  | keys => exact keeps_pure _
  | values => exact keeps_pure _
  | items => exact keeps_alloc _

theorem stay_ofPlan (p : PlanId) (s : StoredPlan) : Parts.Stay F (Parts.ofPlan p s) := by
  simp [Parts.Stay, Parts.ofPlan, keeps_given, keeps_lasting]

theorem stay_ofLayer (owner : Value) (l : Layer) : Parts.Stay F (Parts.ofLayer owner l) := by
  simp [Parts.Stay, Parts.ofLayer, keeps_given, keeps_lasting]

theorem stay_ofObject (owner : Value) (x : Object) {parts : Parts}
    (h : Parts.ofObject? owner x = some parts) : Parts.Stay F parts := by
  cases x <;> simp only [Parts.ofObject?, Option.some.injEq, reduceCtorEq] at h <;> subst h
  case attr a =>
    cases a <;> simp [Parts.Stay, Parts.ofAttribute, keeps_given, keeps_lasting]
  case declaration d => simp [Parts.Stay, Parts.ofDeclaration, keeps_given]
  case callback c => simp [Parts.Stay, Parts.ofCallback, keeps_given]
  case layer l => exact stay_ofLayer owner l

theorem keeps_pair {part : String × Action Value} (h : Keeps F part.2) :
    Keeps F (do alloc (.tuple [.text part.1, ← part.2])) :=
  keeps_bind h fun _ => keeps_alloc _

theorem keeps_pairs {parts : Parts} (h : Parts.Stay F parts) : Keeps F (pairs parts) := by
  unfold pairs
  induction parts with
  | nil => exact keeps_pure []
  | cons part parts ih =>
    rw [List.mapM_cons]
    have hfirst := keeps_pair (h part List.mem_cons_self)
    have hrest := ih fun part hpart => h part (List.mem_cons_of_mem _ hpart)
    exact keeps_bind hfirst fun _ => keeps_bind hrest fun _ => keeps_pure _

theorem walked_walkObject (owner : Value) (x : Object) : Walked F (walkObject owner x) := by
  unfold walkObject
  split
  case h_5 s =>
    exact walked_bind (keeps_snapshotTable s) fun entries => walked_of (walkOf_stays _)
  case h_7 =>
    split
    · exact walked_of (map_stays _ fun part hpart => keeps_pair (stay_ofObject _ _ ‹_› part hpart))
    · exact walked_fail _
  all_goals exact walked_of (walkOf_stays _)

/-- The walk through what a view of a table shows. -/
theorem walked_walkTable (aspect : TableAspect) (table : Value) :
    Walked F (walkTable aspect table) := by
  refine walked_bind (keeps_snapshot? table) fun found => walked_get fun w => ?_
  split
  · exact walked_bind (keeps_snapshotTable _) fun entries =>
      walked_of (map_stays _ fun e _ => keeps_aspectElement _ e)
  · exact walked_bind (keeps_snapshotTable _) fun entries =>
      walked_of (map_stays _ fun e _ =>
        keeps_bind (keeps_noteRead _ _) fun _ => keeps_aspectElement _ e)
  · exact walked_of (map_stays _ fun e _ => keeps_aspectElement _ e)
  · exact walked_fail _

theorem walked_walkPlain (v : Value) : Walked F (walkPlain v) := by
  unfold walkPlain
  split
  · exact walked_of (walkOf_stays _)
  · exact walked_of (walkOf_stays _)
  · exact walked_fail _
  · exact walked_bind (keeps_getStored _) fun s =>
      walked_bind (keeps_pairs (stay_ofPlan _ s)) fun vs => walked_of (walkOf_stays vs)
  · refine walked_get fun w => ?_
    split
    · exact walked_walkObject _ _
    · exact walked_fail _
  · exact walked_walkTable _ _
  · exact walked_walkTable _ _
  · exact walked_of (walkOf_stays _)
  · exact walked_fail _

/-- What is left of an iteration is read like the whole, and noted. -/
theorem walkRest_stays (o : ObjectId) (i : Iteration) {all : Walk} (h : Walk.Stays F all) :
    Walk.Stays F (walkRest o i all) := by
  refine map_stays _ fun read hread => ?_
  have hmem := List.fst_mem_of_mem_zipIdx hread
  refine keeps_bind (keeps_setObject _ _) fun _ => h read.1 ?_
  split at hmem
  · exact List.mem_of_mem_drop hmem
  · split at hmem
    · exact List.mem_of_mem_take (List.mem_reverse.mp hmem)
    · simp at hmem

theorem walked_walk (v : Value) : Walked F (walk v) := by
  unfold walk
  refine walked_get fun w => ?_
  split
  · rename_i o i _ _
    split
    · exact walked_of (walkOf_stays [])
    · have hrest : ∀ all, Walk.Stays F all → Walked F (do
          if (walkRest o i all).isEmpty then
            modify fun w => w.setObject o (.iteration { i with finished := true })
          return walkRest o i all) := by
        intro all hall
        split
        · exact walked_bind (keeps_setObject _ _) fun _ =>
            walked_of (walkRest_stays o i hall)
        · exact walked_of (walkRest_stays o i hall)
      refine walked_bind_walk (walked_walkPlain i.source) fun all hall =>
        walked_get fun w => ?_
      split
      · dsimp only
        split
        · exact walked_bind (keeps_fail _) fun _ => hrest all hall
        · exact hrest all hall
      · exact hrest all hall
  · exact walked_walkPlain _

theorem keeps_elements (v : Value) : Keeps F (elements v) :=
  keeps_bind_of (walked_walk v).keeps (walked_walk v).reads fun _ h => keeps_reads h

theorem keeps_elementsOf (v : Option Value) : Keeps F (elementsOf v) := by
  cases v with
  | none => exact keeps_pure _
  | some v => exact keeps_elements v

theorem keeps_bothParts (v : Value) : Keeps F (bothParts v) := by
  have htake : ∀ reads, Walk.Stays F reads → Walk.Stays F (reads.take 3) :=
    fun reads h read hread => h read (List.mem_of_mem_take hread)
  refine keeps_bind_of (walked_walk v).keeps (walked_walk v).reads fun reads h =>
    keeps_bind (keeps_reads (htake reads h)) fun parts => ?_
  split
  · exact keeps_pure _
  · split <;> exact keeps_fail _

theorem keeps_snapshotItem? (s : Snapshot) (key : Value) : Keeps F (snapshotItem? s key) := by
  refine keeps_bind (keeps_requireKey key) fun _ => keeps_bind keeps_get fun w =>
    keeps_bind (keeps_snapshotTable s) fun entries => ?_
  split
  · exact keeps_bind (keeps_noteRead _ _) fun _ => keeps_pure _
  · exact keeps_pure _

theorem keeps_mappingEntries (v : Value) : Keeps F (mappingEntries v) := by
  refine keeps_bind keeps_get fun w => keeps_bind (keeps_snapshot? v) fun found => ?_
  split
  · exact keeps_pure _
  · exact keeps_bind (keeps_snapshotTable _) fun _ =>
      keeps_bind (keeps_noteRead _ _) fun _ => keeps_pure _
  · exact keeps_wrongType

end Walking

/-! ## 4. Comparisons -/

section Comparing

variable {F : Frame} {same : Value → Value → Action Bool}

theorem keeps_alsoSame (first : Bool) {second : Action Bool} (h : Keeps F second) :
    Keeps F (alsoSame first second) := by
  cases first with
  | true => exact h
  | false => exact keeps_pure _

theorem keeps_allSame {same : α → Action Bool} {xs : List α} (h : ∀ x ∈ xs, Keeps F (same x)) :
    Keeps F (allSame same xs) := by
  induction xs with
  | nil => exact keeps_pure _
  | cons x xs ih =>
    refine keeps_bind (h x List.mem_cons_self) fun found => ?_
    split
    · exact ih fun x hx => h x (List.mem_cons_of_mem _ hx)
    · exact keeps_pure _

theorem keeps_sameList {same : α → α → Action Bool} (h : ∀ x y, Keeps F (same x y))
    (xs ys : List α) : Keeps F (sameList same xs ys) := by
  induction xs generalizing ys with
  | nil => cases ys <;> exact keeps_pure _
  | cons x xs ih =>
    cases ys with
    | nil => exact keeps_pure _
    | cons y ys =>
      refine keeps_bind (h x y) fun found => ?_
      split
      · exact ih ys
      · exact keeps_pure _

variable (hsame : ∀ a b, Keeps F (same a b))

include hsame

theorem keeps_samePart (a b : Value) : Keeps F (samePart same a b) := by
  unfold samePart
  split
  · exact keeps_pure _
  · exact hsame a b

theorem keeps_findEntry (key : Value) (entries : List (Value × Value)) :
    Keeps F (findEntry same key entries) := by
  induction entries with
  | nil => exact keeps_pure _
  | cons e es ih =>
    refine keeps_bind (keeps_samePart hsame _ _) fun found => ?_
    split
    · exact keeps_pure _
    · exact ih

theorem keeps_sameEntries (s t : List (Value × Value)) : Keeps F (sameEntries same s t) := by
  refine keeps_alsoSame _ (keeps_allSame fun e _ =>
    keeps_bind (keeps_findEntry hsame _ _) fun found => ?_)
  split
  · exact keeps_samePart hsame _ _
  · exact keeps_pure _

theorem keeps_sameFields (s t : Table Value) : Keeps F (sameFields same s t) := by
  refine keeps_alsoSame _ (keeps_allSame fun e _ => ?_)
  split
  · exact keeps_samePart hsame _ _
  · exact keeps_pure _

theorem keeps_sameAttribute (a b : AttributeValue) : Keeps F (sameAttribute same a b) := by
  unfold sameAttribute
  split
  · exact keeps_alsoSame _ (keeps_samePart hsame _ _)
  · exact keeps_samePart hsame _ _
  · exact keeps_alsoSame _ (keeps_samePart hsame _ _)
  · exact keeps_pure _

theorem keeps_sameDeclaration (a b : Declaration) : Keeps F (sameDeclaration same a b) :=
  keeps_alsoSame _ (keeps_sameAttribute hsame _ _)

theorem keeps_sameCallback (a b : Callback) : Keeps F (sameCallback same a b) :=
  keeps_alsoSame _ (keeps_samePart hsame _ _)

theorem keeps_sameOptional (a b : Option Value) : Keeps F (sameOptional same a b) := by
  unfold sameOptional
  split
  · exact keeps_pure _
  · exact keeps_samePart hsame _ _
  · exact keeps_pure _

theorem keeps_sameLayer (a b : Layer) : Keeps F (sameLayer same a b) := by
  refine keeps_alsoSame _ (keeps_allSame ?_)
  simp only [List.mem_cons, List.not_mem_nil, or_false, forall_eq_or_imp, forall_eq]
  exact ⟨keeps_sameList (keeps_sameDeclaration hsame) _ _, keeps_sameOptional hsame _ _,
    keeps_sameOptional hsame _ _, keeps_sameList (keeps_sameCallback hsame) _ _⟩

theorem keeps_samePlan (a b : Plan) : Keeps F (samePlan same a b) := by
  refine keeps_alsoSame _ (keeps_allSame ?_)
  simp only [List.mem_cons, List.not_mem_nil, or_false, forall_eq_or_imp, forall_eq]
  exact ⟨keeps_samePart hsame _ _, keeps_sameList (keeps_sameLayer hsame) _ _,
    keeps_sameList (keeps_sameDeclaration hsame) _ _, keeps_sameOptional hsame _ _,
    keeps_sameOptional hsame _ _, keeps_sameList (keeps_sameCallback hsame) _ _⟩

theorem keeps_isAmong (x : Value) (ys : List Value) : Keeps F (isAmong same x ys) := by
  induction ys with
  | nil => exact keeps_pure _
  | cons y ys ih =>
    refine keeps_bind (keeps_samePart hsame _ _) fun found => ?_
    split
    · exact keeps_pure _
    · exact ih

theorem keeps_sameMembers (xs ys : List Value) : Keeps F (sameMembers same xs ys) :=
  keeps_alsoSame _ (keeps_allSame fun x _ => keeps_isAmong hsame x ys)

theorem keeps_sameSettings (a b : RunnerSettings) : Keeps F (sameSettings same a b) := by
  refine keeps_allSame ?_
  simp only [List.mem_cons, List.not_mem_nil, or_false, forall_eq_or_imp, forall_eq]
  exact ⟨keeps_samePart hsame _ _, keeps_samePart hsame _ _, keeps_samePart hsame _ _,
    keeps_samePart hsame _ _⟩

theorem keeps_sameObject? {x y : Object} {a : Action Bool}
    (h : a ∈ sameObject? same x y) : Keeps F a := by
  unfold sameObject? at h
  split at h <;> first | cases h | skip
  · exact keeps_alsoSame _ (keeps_sameList (keeps_samePart hsame) _ _)
  · exact keeps_alsoSame _ (keeps_sameList (keeps_samePart hsame) _ _)
  · exact keeps_sameEntries hsame _ _
  · exact keeps_sameMembers hsame _ _
  · split at h
    · cases h
      exact keeps_sameFields hsame _ _
    · cases h
  · exact keeps_sameAttribute hsame _ _
  · exact keeps_sameDeclaration hsame _ _
  · exact keeps_sameCallback hsame _ _
  · exact keeps_sameLayer hsame _ _

theorem keeps_sameTables? {w : World} {a b : Value} {c : Action Bool}
    (h : c ∈ w.sameTables? same a b) : Keeps F c := by
  simp only [World.sameTables?, Option.mem_def, Option.or_eq_some_iff, Option.bind_eq_bind,
    Option.bind_eq_some_iff, Option.some.injEq, pure] at h
  obtain ⟨_, _, _, _, rfl⟩ | ⟨_, ⟨_, _, _, _, rfl⟩ | ⟨_, _, _, _, _, rfl⟩⟩ := h
  · exact keeps_sameEntries hsame _ _
  · exact keeps_sameMembers hsame _ _
  · exact keeps_sameEntries hsame _ _

theorem keeps_sameParts? {w : World} {a b : Value} {c : Action Bool}
    (h : c ∈ w.sameParts? same a b) : Keeps F c := by
  unfold World.sameParts? at h
  split at h
  · cases h
    exact keeps_pure _
  · simp only [Option.mem_def, Option.bind_eq_bind, Option.bind_eq_some_iff, Option.some.injEq,
      pure] at h
    obtain ⟨_, _, _, _, rfl⟩ := h
    exact keeps_samePlan hsame _ _
  · simp only [Option.mem_def, Option.bind_eq_bind, Option.bind_eq_some_iff, Option.some.injEq,
      pure] at h
    obtain ⟨_, _, _, _, rfl⟩ := h
    exact keeps_sameSettings hsame _ _
  · rw [Option.mem_def, Option.or_eq_some_iff] at h
    rcases h with h | ⟨_, h⟩
    · exact keeps_sameTables? hsame h
    · simp only [Option.bind_eq_bind, Option.bind_eq_some_iff] at h
      obtain ⟨_, _, _, _, h⟩ := h
      exact keeps_sameObject? hsame h

end Comparing

section Members

variable {F : Frame} {same : Value → Value → Action Bool} (hsame : ∀ a b, Keeps F (same a b))

include hsame

theorem keeps_entryShown (entries : List (Value × Value)) (pair : Value) :
    Keeps F (entryShown same entries pair) := by
  refine keeps_bind keeps_get fun w => ?_
  split
  · refine keeps_bind (keeps_entryUnder _ _) fun found => ?_
    split
    · exact keeps_samePart hsame _ _
    · exact keeps_pure _
  · exact keeps_pure _

variable [F.Lenient]

theorem keeps_snapshotEntryShown (s : Snapshot) (pair : Value) :
    Keeps F (snapshotEntryShown same s pair) := by
  refine keeps_bind (keeps_bothParts pair) fun parts =>
    keeps_bind (keeps_snapshotItem? s _) fun found => ?_
  split
  · exact keeps_samePart hsame _ _
  · exact keeps_pure _

theorem keeps_hasMember (v member : Value) : Keeps F (hasMember same v member) := by
  refine keeps_bind keeps_get fun w => ?_
  split
  · refine keeps_bind (keeps_snapshot? _) fun found => ?_
    split
    · exact keeps_bind (keeps_entryUnder _ _) fun _ => keeps_pure _
    · exact keeps_entryShown hsame _ _
    · exact keeps_bind (keeps_snapshotItem? _ _) fun _ => keeps_pure _
    · exact keeps_snapshotEntryShown hsame _ _
    · exact keeps_wrongType
  · exact keeps_setHas _ _
  · exact keeps_wrongType

theorem keeps_isWithin (a b : Value) : Keeps F (isWithin same a b) :=
  keeps_bind_of (walked_walk a).keeps (walked_walk a).reads fun _ hreads =>
    keeps_allOn (keeps_hasMember hsame b) hreads

theorem keeps_sameContents (a b : Value) : Keeps F (sameContents same a b) := by
  have hsets : Keeps F (do
      if (← setSize a) = (← setSize b) then isWithin same a b else return false) := by
    refine keeps_bind (keeps_setSize a) fun _ => keeps_bind (keeps_setSize b) fun _ => ?_
    split
    · exact keeps_isWithin hsame a b
    · exact keeps_pure _
  refine keeps_bind keeps_get fun w => ?_
  split
  · exact keeps_bind (keeps_mappingEntries a) fun _ => keeps_bind (keeps_mappingEntries b) fun _ =>
      keeps_sameEntries hsame _ _
  · exact keeps_pure _
  · exact hsets
  · exact hsets
  · exact hsets
  · split
    · exact keeps_pure _
    · rcases hparts : w.sameParts? same a b with _ | c
      · exact keeps_pure _
      · exact keeps_sameParts? hsame hparts

end Members

section Contents

variable {F : Frame} [F.Lenient]

theorem keeps_equalAt (depth : Nat) (a b : Value) : Keeps F (equalAt depth a b) := by
  induction depth generalizing a b with
  | zero => exact keeps_fail _
  | succ depth ih =>
    refine keeps_bind keeps_get fun w => ?_
    split
    · exact keeps_sameContents ih a b
    · split
      · exact keeps_sameContents ih b a
      · exact keeps_pure _

theorem keeps_equal (a b : Value) : Keeps F (equal a b) :=
  keeps_bind (keeps_bind keeps_get fun _ => keeps_pure _) fun _ => keeps_equalAt _ _ _

theorem keeps_elementsContain (v key : Value) : Keeps F (elementsContain v key) :=
  keeps_bind_of (walked_walk v).keeps (walked_walk v).reads fun _ hreads =>
    keeps_anyOn (fun x => keeps_samePart keeps_equal x key) hreads

theorem keeps_contains (v key : Value) : Keeps F (contains v key) := by
  unfold contains
  dsimp only
  split
  · split
    · exact keeps_pure _
    · exact keeps_wrongType
  · split
    · exact keeps_bind (keeps_evaluationOf _) fun _ => keeps_bind (keeps_getEvaluation _) fun _ =>
        keeps_bind (keeps_declared? _ _) fun _ => keeps_pure _
    · exact keeps_pure _
  · exact keeps_bytesContain _ _
  · exact keeps_elementsContain _ _
  · exact keeps_hasMember keeps_equal _ _
  · exact keeps_enumerationContains _ _
  · refine keeps_bind keeps_get fun w => ?_
    split
    · exact keeps_bind (keeps_entryUnder _ _) fun _ => keeps_pure _
    · exact keeps_bind (keeps_snapshotItem? _ _) fun _ => keeps_pure _
    · exact keeps_setHas _ _
    · exact keeps_membersContain _ _
    · exact keeps_elementsContain _ _

end Contents

end Action

end TraitFactory
