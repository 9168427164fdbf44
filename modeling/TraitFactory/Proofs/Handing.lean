import TraitFactory.Proofs.Beside
import TraitFactory.Proofs.Course

/-!
# What a constructor is handed

A constructor reads the attributes through a snapshot, which notes what is read. Where what makes an
instance leaves alone what it is handed, the attributes are found again under their names when the
instance has been made and while it is given the others.
-/

namespace TraitFactory

open Action

/-! ## 1. Leaving alone what is handed out -/

/-- **The frame of what leaves alone what it is handed**: dictionaries with just some names keep
them, sets stay sets, and what a snapshot notes stays where it is noted. -/
def Frame.handed (names : List String) : Frame where
  rel w w' :=
    (∀ o entries, w.heap.get? o = some (.dict entries) → entries.map (·.1) = names.map .text →
      ∃ entries', w'.heap.get? o = some (.dict entries') ∧
        entries'.map (·.1) = names.map .text) ∧
    (∀ o members, w.heap.get? o = some (.set members) →
      ∃ members', w'.heap.get? o = some (.set members')) ∧
    ∀ o s, w.heap.get? o = some (.snapshot s) →
      ∃ s', w'.heap.get? o = some (.snapshot s') ∧ s'.read = s.read
  refl w := ⟨fun _ entries h hkeys => ⟨entries, h, hkeys⟩, fun _ members h => ⟨members, h⟩,
    fun _ s h => ⟨s, h, rfl⟩⟩
  trans h h' := by
    refine ⟨fun o entries ho hkeys => ?_, fun o members ho => ?_, fun o s ho => ?_⟩
    · obtain ⟨entries₁, ho₁, hkeys₁⟩ := h.1 o entries ho hkeys
      exact h'.1 o entries₁ ho₁ hkeys₁
    · obtain ⟨members₁, ho₁⟩ := h.2.1 o members ho
      exact h'.2.1 o members₁ ho₁
    · obtain ⟨s₁, ho₁, hread⟩ := h.2.2 o s ho
      obtain ⟨s₂, ho₂, hread'⟩ := h'.2.2 o s₁ ho₁
      exact ⟨s₂, ho₂, hread'.trans hread⟩

/-- What is called to make the instances of a plan, if anything is. -/
def Plan.maker? (plan : Plan) : Option Value :=
  match plan.constructor, plan.model with
  | some fn, _ => some fn
  | none, .null | none, .model _ => none
  | none, f => some f

/-- **A plan whose instances are made without tampering** with what is handed to a constructor. -/
def Plan.Leaves (host : Host) (plan : Plan) : Prop :=
  ∀ fn, plan.maker? = some fn → ∀ arguments, Keeps (.handed plan.names) (host.call fn arguments)

/-- **The attributes and the names read of them**, as they are handed on: a dictionary and a set. -/
structure World.Hands (w : World) (o : ObjectId) (read : Value) (names : List String) : Prop where
  attributes : ∃ entries, w.heap.get? o = some (.dict entries) ∧
    entries.map (·.1) = names.map .text
  read : ∃ p members, read = .object p ∧ w.heap.get? p = some (.set members)

namespace Action

variable {host : Host} {plan : Plan} {w w' : World} {o : ObjectId} {names : List String}
  {v read : Value}

theorem keeps_handed_of_heap {α : Type} {a : Action α}
    (h : ∀ w o x, w.heap.get? o = some x → (a.execute w).2.heap.get? o = some x) :
    Keeps (.handed names) a := fun w =>
  ⟨fun o entries ho hkeys => ⟨entries, h w o _ ho, hkeys⟩,
    fun o members ho => ⟨members, h w o _ ho⟩, fun o s ho => ⟨s, h w o _ ho, rfl⟩⟩

theorem keeps_handed_construct (m : Model) : Keeps (.handed names) (construct m [] []) :=
  keeps_handed_of_heap fun _ _ _ h => get?_construct m [] [] h

theorem keeps_handed_instanceOf (h : plan.Leaves host) (hnone : plan.constructor = none) :
    Keeps (.handed plan.names) (instanceOf host plan.model) := by
  unfold instanceOf
  split
  · exact keeps_handed_construct _
  · exact keeps_handed_construct _
  · rename_i hnull hmodel
    refine h plan.model ?_ []
    rw [Plan.maker?, hnone]
    split
    · rename_i heq
      cases heq
    · exact absurd ‹_› hnull
    · exact absurd ‹_› (hmodel _)
    · rfl

/-- **Where nothing is tampered with**, the attributes and the names read of them are handed on. -/
theorem hands_constructInstance (h : plan.Leaves host) {entries : List (Value × Value)}
    (ho : w.heap.get? o = some (.dict entries)) (hkeys : entries.map (·.1) = plan.names.map .text)
    (hmade : (constructInstance host plan (.object o)).execute w = (.ok (v, read), w')) :
    w'.Hands o read plan.names := by
  obtain ⟨r, w₁, halloc, hmade⟩ := ok_of_execute_bind hmade
  obtain ⟨p, rfl, hset₁⟩ := object_of_alloc halloc
  have ho₁ := get?_alloc (.set []) _ ho
  rw [halloc] at ho₁
  cases hconstructor : plan.constructor with
  | none =>
    rw [hconstructor] at hmade
    obtain ⟨v', w₂, hinstance, hpair⟩ := ok_of_execute_bind hmade
    cases hpair
    have hkeeps := keeps_handed_instanceOf h hconstructor w₁
    rw [hinstance] at hkeeps
    obtain ⟨members, hmembers⟩ := hkeeps.2.1 _ _ hset₁
    exact ⟨hkeeps.1 _ _ ho₁ hkeys, _, members, rfl, hmembers⟩
  | some fn =>
    rw [hconstructor] at hmade
    obtain ⟨snapshot, w₂, halloc₂, hmade⟩ := ok_of_execute_bind hmade
    obtain ⟨q, rfl, hs₂⟩ := object_of_alloc halloc₂
    have ho₂ := get?_alloc (.snapshot
      { table := .object o, model := plan.model, read := .object p }) _ ho₁
    have hset₂ := get?_alloc (.snapshot
      { table := .object o, model := plan.model, read := .object p }) _ hset₁
    rw [halloc₂] at ho₂ hset₂
    obtain ⟨v', w₃, hcall, hmade⟩ := ok_of_execute_bind hmade
    obtain ⟨read', w₄, hreadOf, hpair⟩ := ok_of_execute_bind hmade
    cases hpair
    have hmaker : plan.maker? = some fn := by rw [Plan.maker?, hconstructor]
    have hkeeps := keeps_noting s!"while running the constructor of factory '{plan.factory}'"
      (h fn hmaker [.object q]) w₂
    rw [hcall] at hkeeps
    obtain ⟨members, hmembers⟩ := hkeeps.2.1 _ _ hset₂
    obtain ⟨s, hs, hread⟩ := hkeeps.2.2 _ _ hs₂
    have hfound : (readOf (.object q)).execute w₃ = (.ok s.read, w₃) := by
      have hsnapshot? : (snapshot? (.object q)).execute w₃ = (.ok (some s), w₃) := by
        rw [snapshot?, execute_bind_ok (execute_get w₃)]
        simp only [Heap.object?, hs]
        rfl
      rw [readOf, execute_bind_ok hsnapshot?]
      rfl
    cases hfound.symm.trans hreadOf
    exact ⟨hkeeps.1 _ _ ho₂ hkeys, p, members, hread, hmembers⟩

end Action

/-! ## 2. Assigning the others -/

/-- Whether an object has nothing that could be set on it by name. -/
def Object.isBare : Object → Bool
  | .dict _ | .set _ => true
  | _ => false

theorem Frame.sets_at {o : ObjectId} {v : Value} (h : v ≠ .object o) : (Frame.at o).Sets v where
  object o' ho' w x y hy := by
    have hne : o'.index ≠ o.index := fun heq => h (by rw [ho']; cases o; cases o'; cases heq; rfl)
    show (w.heap.objects.setIfInBounds o'.index x)[o.index]? = _
    rw [Array.getElem?_setIfInBounds_ne hne]
    exact hy
  rest w w' hheap _ x hx := by rwa [hheap]

/-- A text and what is none are no two scalars of one kind. -/
theorem Value.sameScalar?_of_mixed {a b : Value} (h : a.asText?.isSome ≠ b.asText?.isSome) :
    a.sameScalar? b = none := by
  unfold sameScalar?
  cases ha : a.asText? with
  | some s =>
    cases hb : b.asText? with
    | some t => simp [ha, hb] at h
    | none =>
      cases a <;> (first | (cases ha; done) | (cases b <;> first | (cases hb; done) | rfl))
  | none =>
    cases hb : b.asText? with
    | some t =>
      cases b <;> (first | (cases hb; done) | (cases a <;> first | (cases ha; done) | rfl))
    | none => simp [ha, hb] at h

namespace World

/-- A text has no parts that could be compared. -/
theorem sameParts?_of_text {m : Type → Type} [Monad m] (w : World)
    (same : Value → Value → m Bool) {a b : Value} (h : a.asText?.isSome ∨ b.asText?.isSome) :
    w.sameParts? same a b = none := by
  have htext : ∀ v : Value, v.asText?.isSome → w.entries? v = none ∧ w.keysShown? v = none ∧
      w.entriesShown? v = none ∧ w.heap.object? v = none := by
    intro v hv
    cases v <;> first | exact ⟨rfl, rfl, rfl, rfl⟩ | cases hv
  have htables : w.sameTables? same a b = none ∧
      (do sameObject? same (← w.heap.object? a) (← w.heap.object? b)) = none := by
    unfold sameTables?
    rcases h with h | h
    · obtain ⟨hentries, hkeys, hshown, hobject⟩ := htext a h
      simp [hentries, hkeys, hshown, hobject]
    · obtain ⟨hentries, hkeys, hshown, hobject⟩ := htext b h
      simp [hentries, hkeys, hshown, hobject]
  unfold sameParts?
  split
  · rcases h with h | h <;> cases h
  · rcases h with h | h <;> cases h
  · rcases h with h | h <;> cases h
  · rw [htables.1, htables.2]
    rfl

/-- **Where one of two keys is a text**, they are the same key just when both are the same text. -/
theorem sameKey_asText (w : World) {a b : Value} (h : a.asText?.isSome ∨ b.asText?.isSome) :
    w.sameKey a b = decide (a.asText? = b.asText?) := by
  unfold sameKey samePart
  by_cases heq : a = b
  · simp [heq]
  · rw [if_neg heq]
    show w.same w.comparingDepth a b = _
    by_cases hmixed : a.asText?.isSome = b.asText?.isSome
    · have hboth : a.asText?.isSome ∧ b.asText?.isSome := by
        rw [hmixed] at h ⊢
        simpa using h
      obtain ⟨s, hs⟩ := Option.isSome_iff_exists.mp hboth.1
      obtain ⟨t, ht⟩ := Option.isSome_iff_exists.mp hboth.2
      unfold World.same Value.sameScalar?
      rw [hs, ht]
      simp
    · have hne : decide (a.asText? = b.asText?) = false :=
        decide_eq_false fun h' => hmixed (congrArg _ h')
      unfold World.same comparingDepth
      rw [Value.sameScalar?_of_mixed hmixed, hne]
      show ((w.sameParts? (m := Id) _ a b).getD (pure (a = b))).run = _
      rw [sameParts?_of_text w _ h]
      exact decide_eq_false heq

/-- Texts are the same key just when they are the same. -/
theorem sameKey_text (w : World) (a b : String) :
    w.sameKey (.text a) (.text b) = decide (a = b) := by
  rw [sameKey_asText w (.inl rfl)]
  simp [Value.asText?]

/-- Texts can be keys. -/
theorem isKey_of_asText (w : World) {key : Value} (h : key.asText?.isSome) : w.isKey key = true := by
  unfold isKey comparingDepth
  cases key <;> first | rfl | cases h

end World

namespace Action

variable {w w' : World} {o : ObjectId} {names : List String} {v read : Value}

/-- Nothing can be set on a dictionary or a set by name. -/
theorem execute_setAttr_bare {x : Object} (h : w.heap.get? o = some x) (hx : Object.isBare x)
    (name : String) (y : Value) : ((setAttr (.object o) name y).execute w).2 = w := by
  have hset : ((setPart (.object o) name y).execute w).2 = w := by
    have hpart : (setPart (.object o) name y).execute w = (setOnObject o name y x).execute w := by
      rw [setPart, execute_bind_ok (execute_get w), h]
    rw [hpart]
    cases x <;> first | rfl | cases hx
  rw [setAttr, execute_bind_ok (execute_get w)]
  split
  · exact hset
  · split <;> rfl
  · split
    · rfl
    · exact hset
  · exact hset

/-- What evaluates is no object, so no object is touched where a part of it is set. -/
theorem heap_setPart (hv : v.isExternal = false) (name : String) (y : Value) :
    ((setPart v name y).execute w).2.heap = w.heap := by
  cases v with
  | runner r =>
    simp only [setPart, setOnRunner]
    split <;> rfl
  | evaluator e =>
    simp only [setPart, setOnEvaluator]
    split <;> rfl
  | settings s =>
    simp only [setPart, setSetting]
    split <;> rfl
  | context e => rfl
  | evaluation e =>
    simp only [setPart, setOnEvaluation]
    split <;> rfl
  | _ => cases hv

/-- **Whatever is set on a value**, dictionaries and sets are what they were. -/
theorem get?_setAttr {x : Object} (h : w.heap.get? o = some x) (hx : Object.isBare x)
    (name : String) (y : Value) : ((setAttr v name y).execute w).2.heap.get? o = some x := by
  by_cases hvo : v = .object o
  · rw [hvo, execute_setAttr_bare h hx]
    exact h
  · cases hv : v.isExternal with
    | true => exact keeps_setAttr (Frame.sets_at hvo) hv name y w x h
    | false =>
      have hset : ((setPart v name y).execute w).2.heap.get? o = some x := by
        rw [heap_setPart hv]
        exact h
      rw [setAttr, execute_bind_ok (execute_get w)]
      split
      · exact hset
      · split <;> exact h
      · split
        · exact h
        · exact hset
      · exact hset

theorem hands_setAttr (h : w.Hands o read names) (name : String) (y : Value) :
    ((setAttr v name y).execute w).2.Hands o read names := by
  obtain ⟨⟨entries, hentries, hkeys⟩, p, members, hread, hmembers⟩ := h
  exact ⟨⟨entries, get?_setAttr hentries rfl name y, hkeys⟩, p, members, hread,
    get?_setAttr hmembers rfl name y⟩

theorem execute_contains_set {p : ObjectId} {members : List Value}
    (h : w.heap.get? p = some (.set members)) (key : Value) :
    (contains (.object p) key).execute w = (setHas members key).execute w := by
  have hentries : w.entries? (.object p) = none := by simp only [World.entries?, h]
  show ((get : Action World) >>= _).execute w = _
  rw [execute_bind_ok (execute_get w)]
  simp only [Value.behind, hentries, Heap.object?, h]

/-- Looking for a member of a set changes nothing. -/
theorem execute_lacks_set {p : ObjectId} {members : List Value}
    (h : w.heap.get? p = some (.set members)) (key : Value) :
    ((lacks (.object p) key).execute w).2 = w := by
  have heq : ((setHas members key).execute w).2 = w := keeps_setHas (F := .same) members key w
  rw [lacks, execute_bind, execute_contains_set h]
  rcases hrun : (setHas members key).execute w with ⟨failure | b, w'⟩ <;> rw [hrun] at heq <;>
    exact heq

theorem hands_lacks (h : w.Hands o read names) (key : Value) :
    ((lacks read key).execute w).2 = w := by
  obtain ⟨_, p, members, rfl, hmembers⟩ := h
  exact execute_lacks_set hmembers key

/-- **Whether an attribute has a name** is found in the attributes that are handed on. -/
theorem execute_lacks_name (h : w.Hands o read names) (name : String) :
    (lacks (.object o) (.text name)).execute w = (.ok !(names.contains name), w) := by
  obtain ⟨⟨entries, hentries, hkeys⟩, _⟩ := h
  have hfound : (w.entryValue? entries (.text name)).isSome = names.contains name := by
    clear hentries
    induction entries generalizing names with
    | nil =>
      cases names with
      | nil => rfl
      | cons => cases hkeys
    | cons entry entries ih =>
      cases names with
      | nil => cases hkeys
      | cons first names =>
        obtain ⟨hfirst, hrest⟩ := List.cons.inj hkeys
        have hsame : w.sameKey entry.1 (.text name) = decide (first = name) := by
          rw [show entry.1 = .text first from hfirst, World.sameKey_text]
        have ih := ih hrest
        unfold World.entryValue? at ih ⊢
        rw [List.find?_cons, hsame, List.contains_cons]
        by_cases heq : first = name
        · simp [heq]
        · have hne : (name == first) = false := by simpa using Ne.symm heq
          rw [hne, Bool.false_or, ← ih]
          simp [heq]
  have hcontains : (contains (.object o) (.text name)).execute w =
      (.ok (names.contains name), w) := by
    have hkey : (requireKey (.text name)).execute w = (.ok ⟨⟩, w) := by
      rw [requireKey, execute_bind_ok (execute_get w)]
      rw [w.isKey_of_asText rfl]
      rfl
    have hentries' : w.entries? (.object o) = some entries := by
      simp only [World.entries?, hentries]
    show ((get : Action World) >>= _).execute w = _
    rw [execute_bind_ok (execute_get w)]
    simp only [Value.behind, hentries']
    rw [entryUnder, bind_assoc, execute_bind_ok hkey, bind_assoc,
      execute_bind_ok (execute_get w), ← hfound]
    rfl
  rw [lacks, execute_bind_ok hcontains]
  rfl

end Action

end TraitFactory
