import TraitFactory.Object.Items
import TraitFactory.Proofs.Idling
import TraitFactory.Proofs.Indifferent
import TraitFactory.Proofs.Presenting

/-!
# What is done alike with values

Values are made, gone through, compared and looked up in the same way wherever registries differ in
nothing but what they count and what is old in their caches.
-/

namespace TraitFactory

namespace Action

variable [Scrutiny] {α β : Type} {Q : α → Prop}

/-- What is done alike has results with the property that all its results have. -/
theorem uniformWith_of_gives {a : Action α} (h : Uniform a) (hQ : Gives Q a) : UniformWith Q a := by
  intro w w' hw
  have hQ := hQ w
  have ha := h w w' hw
  generalize a.execute w = s, a.execute w' = s' at hQ ha
  cases ha with
  | ok _ h => exact .ok (hQ _ rfl) h
  | error e h => exact .error e h

/-! ## 1. What is made -/

theorem uniform_setObject (o : ObjectId) (x : Object) :
    Uniform (modify fun w => w.setObject o x : Action PUnit) := uniform_modify fun _ _ => rfl

theorem uniform_alloc (x : Object) : Uniform (alloc x) := (apart_alloc x).uniform

theorem uniformWith_alloc (x : Object) : UniformWith (fun v => ∃ o, v = .object o) (alloc x) :=
  uniformWith_of_gives (uniform_alloc x) fun _ _ h => ⟨_, (Except.ok.inj h).symm⟩

theorem uniform_place (x : Object) : Uniform (place x) := (apart_place x).uniform

theorem uniform_newSerial : Uniform newSerial := uniform_of_same fun _ _ => rfl

theorem uniform_newFloat (x : Double) : Uniform (newFloat x) :=
  uniform_bind uniform_newSerial fun _ => uniform_pure _

theorem uniform_newFunction (f : Function) : Uniform (newFunction f) :=
  uniform_of_same fun _ _ => rfl

theorem uniform_newDefinition (d : Definition) : Uniform (newDefinition d) :=
  uniform_of_same fun _ _ => rfl

theorem uniform_newPlan (p : StoredPlan) : Uniform (newPlan p) := uniform_of_same fun _ _ => rfl

theorem uniform_newBuilder (b : Builder) : Uniform (newBuilder b) := uniform_of_same fun _ _ => rfl

theorem uniform_newSettings (s : RunnerSettings) : Uniform (newSettings s) :=
  uniform_of_same fun _ _ => rfl

theorem uniform_newEvaluator (e : Evaluator) : Uniform (newEvaluator e) :=
  uniform_of_same fun _ _ => rfl

theorem uniform_newMethod (receiver : Value) (name : String) :
    Uniform (newMethod receiver name) := by
  unfold newMethod
  split
  · exact uniform_pure _
  · exact uniform_bind uniform_newSerial fun _ => uniform_pure _

theorem uniform_newDeclaration (name : String) (value : AttributeValue) (object : ObjectId)
    (origin : String) : Uniform (newDeclaration name value object origin) :=
  uniform_of_same fun _ _ => rfl

theorem uniform_newCallback (event : Event) (fn : Value) (owner : String) :
    Uniform (newCallback event fn owner) := uniform_of_same fun _ _ => rfl

theorem uniform_log (level : LogLevel) (logger message : String) :
    Uniform (log level logger message) := fun _ _ hw => .ok trivial (hw.logged _)

theorem uniform_announce (parts : List View) : Uniform (announce parts) :=
  uniform_modify fun _ _ => rfl

theorem uniform_once (v : Value) (name : String) {make : Action Value} (h : Uniform make) :
    Uniform (once v name make) := by
  refine uniformWith_get (fun _ _ => rfl) fun w => ?_
  split
  · exact uniform_pure _
  · exact uniform_bind h fun x => uniform_bind (uniform_modify fun _ _ => rfl) fun _ =>
      uniform_pure _

theorem uniform_lasting (owner : Value) (name : String) (vs : List Value) :
    Uniform (Parts.lasting owner name vs).2 := uniform_once _ _ (uniform_alloc _)

/-! ## 2. What is read -/

theorem uniform_getRunner (r : RunnerId) : Uniform (getRunner r) :=
  uniformWith_get (fun _ _ => rfl) fun w => by
    split <;> first | exact uniform_pure _ | exact uniformWith_wrongType

theorem uniform_getBuilder (b : BuilderId) : Uniform (getBuilder b) :=
  uniformWith_get (fun _ _ => rfl) fun w => by
    split <;> first | exact uniform_pure _ | exact uniformWith_wrongType

theorem uniform_getSettings (s : SettingsId) : Uniform (getSettings s) :=
  uniformWith_get (fun _ _ => rfl) fun w => by
    split <;> first | exact uniform_pure _ | exact uniformWith_wrongType

theorem uniform_getEvaluator (e : EvaluatorId) : Uniform (getEvaluator e) :=
  uniformWith_get (fun _ _ => rfl) fun w => by
    split <;> first | exact uniform_pure _ | exact uniformWith_wrongType

theorem uniform_getStored (p : PlanId) : Uniform (getStored p) :=
  uniformWith_get (fun _ _ => rfl) fun w => by
    split <;> first | exact uniform_pure _ | exact uniformWith_wrongType

theorem uniform_getPlan (p : PlanId) : Uniform (getPlan p) :=
  uniformWith_get (fun _ _ => rfl) fun w => by
    split <;> first | exact uniform_pure _ | exact uniformWith_wrongType

theorem uniform_getEvaluation (e : EvaluationId) : Uniform (getEvaluation e) :=
  uniformWith_get (fun _ _ => rfl) fun w => by
    split <;> first | exact uniform_pure _ | exact uniformWith_wrongType

theorem uniform_getDefinition (d : DefinitionId) : Uniform (getDefinition d) :=
  uniformWith_get (fun _ _ => rfl) fun w => by
    split <;> first | exact uniform_pure _ | exact uniformWith_wrongType

theorem uniform_written (v : Value) (text : View → String) : Uniform (written v text) :=
  (apart_written v text).uniform

theorem uniform_nameOr (cause : String → Cause) (ref : Value) : Uniform (nameOr cause ref) :=
  (apart_nameOr cause ref).uniform

theorem uniform_elementsOf (v : Option Value) : Uniform (elementsOf v) :=
  (apart_elementsOf v).uniform

theorem uniform_entriesOf (v : Option Value) : Uniform (entriesOf v) := by
  cases v with
  | none => exact uniform_pure []
  | some v =>
    refine uniformWith_get (fun _ _ => rfl) fun w => ?_
    split <;> first | exact uniform_pure _ | exact uniformWith_wrongType

theorem uniform_keywordsOf (v : Option Value) : Uniform (keywordsOf v) := by
  refine uniform_bind (uniform_entriesOf v) fun entries => ?_
  split
  · exact uniform_pure _
  · exact uniformWith_wrongType

/-- What a read of a walk does, is done alike. -/
theorem uniformWith_walk (v : Value) :
    UniformWith (fun reads : Walk => ∀ read ∈ reads, Uniform read) (walk v) :=
  (apart_walk v).uniform.imp fun _ hreads read hread => (hreads read hread).uniform

theorem uniform_reads {reads : Walk} (h : ∀ read ∈ reads, Uniform read) :
    Uniform (reads.mapM id) := (uniformWith_mapM h).uniform

/-! ## 3. Keys -/

theorem uniform_requireKey (key : Value) : Uniform (requireKey key) := by
  refine uniformWith_get (fun w m => by rw [World.isKey_withMargin]) fun w => ?_
  split
  · exact uniformWith_wrongType
  · exact uniform_pure _

theorem uniform_missing (key : Value) : Uniform (missing key) :=
  uniform_bind (uniform_written _ _) fun _ => uniformWith_fail _

theorem uniform_entryUnder (entries : List (Value × Value)) (key : Value) :
    Uniform (entryUnder entries key) :=
  uniform_bind (uniform_requireKey key) fun _ =>
    uniformWith_get (fun w m => by rw [World.entryValue?_withMargin]) fun _ => uniform_pure _

theorem uniform_membersContain (members : List Value) (key : Value) :
    Uniform (membersContain members key) :=
  uniform_bind (uniform_requireKey key) fun _ =>
    uniformWith_get (fun w m => by rw [World.sameKey_withMargin]) fun _ => uniform_pure _

theorem uniform_isSet (v : Value) : Uniform (isSet v) := by
  refine uniformWith_get (fun _ _ => rfl) fun w => ?_
  split <;> exact uniform_pure _

theorem uniform_setHas (members : List Value) (x : Value) : Uniform (setHas members x) := by
  refine uniform_bind (uniform_isSet x) fun isSet => ?_
  split
  · exact uniform_pure _
  · exact uniform_membersContain members x

theorem uniform_bothParts (v : Value) : Uniform (bothParts v) := by
  refine uniformWith_bind (uniformWith_walk v) fun reads hreads => uniform_bind
    (uniform_reads fun read hread => hreads read (List.mem_of_mem_take hread)) fun parts => ?_
  split
  · exact uniform_pure _
  · split <;> exact uniformWith_fail _

theorem uniform_snapshot? (v : Value) : Uniform (snapshot? v) := (apart_snapshot? v).uniform

theorem uniform_snapshotTable (s : Snapshot) : Uniform (snapshotTable s) :=
  (apart_snapshotTable s).uniform

theorem uniform_noteRead (s : Snapshot) (keys : List Value) : Uniform (noteRead s keys) :=
  (apart_noteRead s keys).uniform

theorem uniform_snapshotItem? (s : Snapshot) (key : Value) : Uniform (snapshotItem? s key) := by
  refine uniform_bind (uniform_requireKey key) fun _ =>
    uniformWith_get (fun w m => by rw [World.entryValue?_withMargin]) fun w =>
    uniform_bind (uniform_snapshotTable s) fun entries => ?_
  split
  · exact uniform_bind (uniform_noteRead _ _) fun _ => uniform_pure _
  · exact uniform_pure _

theorem uniform_mappingEntries (v : Value) : Uniform (mappingEntries v) := by
  refine uniformWith_get (fun _ _ => rfl) fun w =>
    uniform_bind (uniform_snapshot? v) fun found => ?_
  split
  · exact uniform_pure _
  · exact uniform_bind (uniform_snapshotTable _) fun _ =>
      uniform_bind (uniform_noteRead _ _) fun _ => uniform_pure _
  · exact uniformWith_wrongType

theorem uniform_setSize (v : Value) : Uniform (setSize v) := by
  refine uniformWith_get (fun _ _ => rfl) fun w => ?_
  split
  · refine uniform_bind (uniform_snapshot? _) fun found => ?_
    split
    · exact uniform_pure _
    · exact uniform_bind (uniform_snapshotTable _) fun _ => uniform_pure _
    · exact uniformWith_wrongType
  · exact uniform_pure _
  · exact uniformWith_wrongType

theorem uniform_anyOn {has : Value → Action Bool} (hhas : ∀ v, Uniform (has v)) {reads : Walk}
    (h : ∀ read ∈ reads, Uniform read) : Uniform (anyOn has reads) := by
  induction reads with
  | nil => exact uniform_pure _
  | cons read reads ih =>
    refine uniform_bind (h read List.mem_cons_self) fun v => uniform_bind (hhas v) fun found => ?_
    split
    · exact uniform_pure _
    · exact ih fun read hread => h read (List.mem_cons_of_mem _ hread)

theorem uniform_allOn {has : Value → Action Bool} (hhas : ∀ v, Uniform (has v)) {reads : Walk}
    (h : ∀ read ∈ reads, Uniform read) : Uniform (allOn has reads) := by
  induction reads with
  | nil => exact uniform_pure _
  | cons read reads ih =>
    refine uniform_bind (h read List.mem_cons_self) fun v => uniform_bind (hhas v) fun found => ?_
    split
    · exact ih fun read hread => h read (List.mem_cons_of_mem _ hread)
    · exact uniform_pure _

/-! ## 4. Comparisons -/

section Comparing

variable {same : Value → Value → Action Bool}

theorem uniform_alsoSame (first : Bool) {second : Action Bool} (h : Uniform second) :
    Uniform (alsoSame first second) := by
  cases first with
  | true => exact h
  | false => exact uniform_pure _

theorem uniform_allSame {same : α → Action Bool} {xs : List α} (h : ∀ x ∈ xs, Uniform (same x)) :
    Uniform (allSame same xs) := by
  induction xs with
  | nil => exact uniform_pure _
  | cons x xs ih =>
    refine uniform_bind (h x List.mem_cons_self) fun found => ?_
    split
    · exact ih fun x hx => h x (List.mem_cons_of_mem _ hx)
    · exact uniform_pure _

theorem uniform_sameList {same : α → α → Action Bool} (h : ∀ x y, Uniform (same x y))
    (xs ys : List α) : Uniform (sameList same xs ys) := by
  induction xs generalizing ys with
  | nil => cases ys <;> exact uniform_pure _
  | cons x xs ih =>
    cases ys with
    | nil => exact uniform_pure _
    | cons y ys =>
      refine uniform_bind (h x y) fun found => ?_
      split
      · exact ih ys
      · exact uniform_pure _

variable (hsame : ∀ a b, Uniform (same a b))

include hsame

theorem uniform_samePart (a b : Value) : Uniform (samePart same a b) := by
  unfold samePart
  split
  · exact uniform_pure _
  · exact hsame a b

theorem uniform_findEntry (key : Value) (entries : List (Value × Value)) :
    Uniform (findEntry same key entries) := by
  induction entries with
  | nil => exact uniform_pure _
  | cons e es ih =>
    refine uniform_bind (uniform_samePart hsame _ _) fun found => ?_
    split
    · exact uniform_pure _
    · exact ih

theorem uniform_sameEntries (s t : List (Value × Value)) : Uniform (sameEntries same s t) := by
  refine uniform_alsoSame _ (uniform_allSame fun e _ =>
    uniform_bind (uniform_findEntry hsame _ _) fun found => ?_)
  split
  · exact uniform_samePart hsame _ _
  · exact uniform_pure _

theorem uniform_sameFields (s t : Table Value) : Uniform (sameFields same s t) := by
  refine uniform_alsoSame _ (uniform_allSame fun e _ => ?_)
  split
  · exact uniform_samePart hsame _ _
  · exact uniform_pure _

theorem uniform_sameAttribute (a b : AttributeValue) : Uniform (sameAttribute same a b) := by
  unfold sameAttribute
  split
  · exact uniform_alsoSame _ (uniform_samePart hsame _ _)
  · exact uniform_samePart hsame _ _
  · exact uniform_alsoSame _ (uniform_samePart hsame _ _)
  · exact uniform_pure _

theorem uniform_sameDeclaration (a b : Declaration) : Uniform (sameDeclaration same a b) :=
  uniform_alsoSame _ (uniform_sameAttribute hsame _ _)

theorem uniform_sameCallback (a b : Callback) : Uniform (sameCallback same a b) :=
  uniform_alsoSame _ (uniform_samePart hsame _ _)

theorem uniform_sameOptional (a b : Option Value) : Uniform (sameOptional same a b) := by
  unfold sameOptional
  split
  · exact uniform_pure _
  · exact uniform_samePart hsame _ _
  · exact uniform_pure _

theorem uniform_sameLayer (a b : Layer) : Uniform (sameLayer same a b) := by
  refine uniform_alsoSame _ (uniform_allSame ?_)
  simp only [List.mem_cons, List.not_mem_nil, or_false, forall_eq_or_imp, forall_eq]
  exact ⟨uniform_sameList (uniform_sameDeclaration hsame) _ _, uniform_sameOptional hsame _ _,
    uniform_sameOptional hsame _ _, uniform_sameList (uniform_sameCallback hsame) _ _⟩

theorem uniform_samePlan (a b : Plan) : Uniform (samePlan same a b) := by
  refine uniform_alsoSame _ (uniform_allSame ?_)
  simp only [List.mem_cons, List.not_mem_nil, or_false, forall_eq_or_imp, forall_eq]
  exact ⟨uniform_samePart hsame _ _, uniform_sameList (uniform_sameLayer hsame) _ _,
    uniform_sameList (uniform_sameDeclaration hsame) _ _, uniform_sameOptional hsame _ _,
    uniform_sameOptional hsame _ _, uniform_sameList (uniform_sameCallback hsame) _ _⟩

theorem uniform_isAmong (x : Value) (ys : List Value) : Uniform (isAmong same x ys) := by
  induction ys with
  | nil => exact uniform_pure _
  | cons y ys ih =>
    refine uniform_bind (uniform_samePart hsame _ _) fun found => ?_
    split
    · exact uniform_pure _
    · exact ih

theorem uniform_sameMembers (xs ys : List Value) : Uniform (sameMembers same xs ys) :=
  uniform_alsoSame _ (uniform_allSame fun x _ => uniform_isAmong hsame x ys)

theorem uniform_sameSettings (a b : RunnerSettings) : Uniform (sameSettings same a b) := by
  refine uniform_allSame ?_
  simp only [List.mem_cons, List.not_mem_nil, or_false, forall_eq_or_imp, forall_eq]
  exact ⟨uniform_samePart hsame _ _, uniform_samePart hsame _ _, uniform_samePart hsame _ _,
    uniform_samePart hsame _ _⟩

theorem uniform_sameObject? {x y : Object} {a : Action Bool} (h : a ∈ sameObject? same x y) :
    Uniform a := by
  unfold sameObject? at h
  split at h <;> first | cases h | skip
  · exact uniform_alsoSame _ (uniform_sameList (uniform_samePart hsame) _ _)
  · exact uniform_alsoSame _ (uniform_sameList (uniform_samePart hsame) _ _)
  · exact uniform_sameEntries hsame _ _
  · exact uniform_sameMembers hsame _ _
  · split at h
    · cases h
      exact uniform_sameFields hsame _ _
    · cases h
  · exact uniform_sameAttribute hsame _ _
  · exact uniform_sameDeclaration hsame _ _
  · exact uniform_sameCallback hsame _ _
  · exact uniform_sameLayer hsame _ _

theorem uniform_sameTables? {w : World} {a b : Value} {c : Action Bool}
    (h : c ∈ w.sameTables? same a b) : Uniform c := by
  simp only [World.sameTables?, Option.mem_def, Option.or_eq_some_iff, Option.bind_eq_bind,
    Option.bind_eq_some_iff, Option.some.injEq, pure] at h
  obtain ⟨_, _, _, _, rfl⟩ | ⟨_, ⟨_, _, _, _, rfl⟩ | ⟨_, _, _, _, _, rfl⟩⟩ := h
  · exact uniform_sameEntries hsame _ _
  · exact uniform_sameMembers hsame _ _
  · exact uniform_sameEntries hsame _ _

theorem uniform_sameParts? {w : World} {a b : Value} {c : Action Bool}
    (h : c ∈ w.sameParts? same a b) : Uniform c := by
  unfold World.sameParts? at h
  split at h
  · cases h
    exact uniform_pure _
  · simp only [Option.mem_def, Option.bind_eq_bind, Option.bind_eq_some_iff, Option.some.injEq,
      pure] at h
    obtain ⟨_, _, _, _, rfl⟩ := h
    exact uniform_samePlan hsame _ _
  · simp only [Option.mem_def, Option.bind_eq_bind, Option.bind_eq_some_iff, Option.some.injEq,
      pure] at h
    obtain ⟨_, _, _, _, rfl⟩ := h
    exact uniform_sameSettings hsame _ _
  · rw [Option.mem_def, Option.or_eq_some_iff] at h
    rcases h with h | ⟨_, h⟩
    · exact uniform_sameTables? hsame h
    · simp only [Option.bind_eq_bind, Option.bind_eq_some_iff] at h
      obtain ⟨_, _, _, _, h⟩ := h
      exact uniform_sameObject? hsame h

theorem uniform_entryShown (entries : List (Value × Value)) (pair : Value) :
    Uniform (entryShown same entries pair) := by
  refine uniformWith_get (fun _ _ => rfl) fun w => ?_
  split
  · refine uniform_bind (uniform_entryUnder _ _) fun found => ?_
    split
    · exact uniform_samePart hsame _ _
    · exact uniform_pure _
  · exact uniform_pure _

theorem uniform_snapshotEntryShown (s : Snapshot) (pair : Value) :
    Uniform (snapshotEntryShown same s pair) := by
  refine uniform_bind (uniform_bothParts pair) fun parts =>
    uniform_bind (uniform_snapshotItem? s _) fun found => ?_
  split
  · exact uniform_samePart hsame _ _
  · exact uniform_pure _

theorem uniform_hasMember (v member : Value) : Uniform (hasMember same v member) := by
  refine uniformWith_get (fun _ _ => rfl) fun w => ?_
  split
  · refine uniform_bind (uniform_snapshot? _) fun found => ?_
    split
    · exact uniform_bind (uniform_entryUnder _ _) fun _ => uniform_pure _
    · exact uniform_entryShown hsame _ _
    · exact uniform_bind (uniform_snapshotItem? _ _) fun _ => uniform_pure _
    · exact uniform_snapshotEntryShown hsame _ _
    · exact uniformWith_wrongType
  · exact uniform_setHas _ _
  · exact uniformWith_wrongType

theorem uniform_isWithin (a b : Value) : Uniform (isWithin same a b) :=
  uniformWith_bind (uniformWith_walk a) fun _ hreads =>
    uniform_allOn (uniform_hasMember hsame b) hreads

theorem uniform_sameContents (a b : Value) : Uniform (sameContents same a b) := by
  have hsets : Uniform (do
      if (← setSize a) = (← setSize b) then isWithin same a b else return false) := by
    refine uniform_bind (uniform_setSize a) fun _ => uniform_bind (uniform_setSize b) fun _ => ?_
    split
    · exact uniform_isWithin hsame a b
    · exact uniform_pure _
  refine uniformWith_get (fun w m => ?_) fun w => ?_
  · rw [World.equal_withMargin]
    rfl
  · split
    · exact uniform_bind (uniform_mappingEntries a) fun _ =>
        uniform_bind (uniform_mappingEntries b) fun _ => uniform_sameEntries hsame _ _
    · exact uniform_pure _
    · exact hsets
    · exact hsets
    · exact hsets
    · split
      · exact uniform_pure _
      · rcases hparts : w.sameParts? same a b with _ | c
        · exact uniform_pure _
        · exact uniform_sameParts? hsame hparts

end Comparing

theorem uniform_equalAt (depth : Nat) (a b : Value) : Uniform (equalAt depth a b) := by
  induction depth generalizing a b with
  | zero => exact uniformWith_fail _
  | succ depth ih =>
    refine uniformWith_get (fun _ _ => rfl) fun w => ?_
    split
    · exact uniform_sameContents ih a b
    · split
      · exact uniform_sameContents ih b a
      · exact uniform_pure _

theorem uniform_equal (a b : Value) : Uniform (equal a b) :=
  uniform_bind (uniformWith_get (fun _ _ => rfl) fun _ => uniform_pure _) fun _ =>
    uniform_equalAt _ _ _

/-! ## 5. Membership -/

theorem uniform_bytesContain (bs : List UInt8) (key : Value) : Uniform (bytesContain bs key) := by
  unfold bytesContain
  split
  · exact uniform_pure _
  · split
    · exact uniform_pure _
    · exact uniformWith_fail _
  · exact uniformWith_wrongType

theorem uniform_enumerationContains (member key : Value) :
    Uniform (enumerationContains member key) := by
  unfold enumerationContains
  split <;> first | exact uniform_pure _ | exact uniformWith_wrongType

theorem uniform_declared? (e : Evaluation) (name : String) : Uniform (declared? e name) := by
  unfold declared?
  split
  · exact uniform_pure _
  · refine uniformWith_get (fun w m => by rw [World.entryValue?_withMargin]; rfl) fun w => ?_
    split
    · exact uniform_pure _
    · exact uniformWith_wrongType

theorem uniform_evaluationOf (e : EvaluationId) : Uniform (evaluationOf e) := by
  refine uniform_bind (uniform_getEvaluation e) fun evaluation => ?_
  split <;> first | exact uniform_pure _ | exact uniformWith_noAttribute

theorem uniform_elementsContain (v key : Value) : Uniform (elementsContain v key) :=
  uniformWith_bind (uniformWith_walk v) fun _ hreads =>
    uniform_anyOn (fun x => uniform_samePart uniform_equal x key) hreads

theorem uniform_contains (v key : Value) : Uniform (contains v key) := by
  unfold contains
  dsimp only
  split
  · split
    · exact uniform_pure _
    · exact uniformWith_wrongType
  · split
    · exact uniform_bind (uniform_evaluationOf _) fun _ =>
        uniform_bind (uniform_getEvaluation _) fun _ =>
        uniform_bind (uniform_declared? _ _) fun _ => uniform_pure _
    · exact uniform_pure _
  · exact uniform_bytesContain _ _
  · exact uniform_elementsContain _ _
  · exact uniform_hasMember uniform_equal _ _
  · exact uniform_enumerationContains _ _
  · refine uniformWith_get (fun _ _ => rfl) fun w => ?_
    split
    · exact uniform_bind (uniform_entryUnder _ _) fun _ => uniform_pure _
    · exact uniform_bind (uniform_snapshotItem? _ _) fun _ => uniform_pure _
    · exact uniform_setHas _ _
    · exact uniform_membersContain _ _
    · exact uniform_elementsContain _ _

end Action

end TraitFactory
