import Mathlib.Data.List.Nodup
import Mathlib.Data.List.Perm.Subperm
import Mathlib.Logic.Relation
import TraitFactory.Failure
import TraitFactory.Proofs.Evaluating
import TraitFactory.Table

/-!
# Lazy evaluation solves the equations between attributes

An evaluation whose attributes follow formulas in their siblings works them out one after another,
in whatever order reads come. What it has kept is therefore part of the only solution, and what
one order can work out every order can.

In the equations each attribute is given by a formula in its siblings, and which siblings a formula
reads may depend on what it has read before. A mapping solves them when each attribute is what its
formula gives under this very mapping. Equations whose attributes can be worked out one after another
have one solution only, and no attribute of it leads back to itself.
-/

namespace TraitFactory

/-! ## 1. Formulas -/

/-- **What an attribute is in terms of its siblings**: it is a value or fails at once, or a sibling
is read, and what it is decides how to go on. A sibling that fails makes the attribute fail. -/
inductive Formula (δ : Type) where
  | value (x : δ)
  | failure (e : Failure)
  | sibling (name : String) (rest : δ → Formula δ)

namespace Formula

variable {δ : Type} {m m' : String → Option δ}

/-- What a formula gives where the siblings are what a mapping says, unless it fails. -/
def under (m : String → Option δ) : Formula δ → Option δ
  | value x => some x
  | failure _ => none
  | sibling name rest =>
    match m name with
    | some x => (rest x).under m
    | none => none

/-- The siblings that a formula reads on its way. -/
def reads (m : String → Option δ) : Formula δ → List String
  | value _ | failure _ => []
  | sibling name rest =>
    name :: match m name with
      | some x => (rest x).reads m
      | none => []

/-- What a formula gives is given by a larger mapping, too, and by reading the same siblings. -/
theorem under_of_le {φ : Formula δ} {x : δ} (hle : ∀ n y, m n = some y → m' n = some y)
    (h : φ.under m = some x) : φ.under m' = some x ∧ φ.reads m' = φ.reads m := by
  induction φ with
  | value y => exact ⟨h, rfl⟩
  | failure e => exact absurd h (by simp [under])
  | sibling n rest ih =>
    cases hn : m n with
    | none => rw [under, hn] at h; cases h
    | some y =>
      rw [under, hn] at h
      have hrest := ih y h
      simp only [under, reads, hn, hle n y hn]
      exact ⟨hrest.1, by rw [hrest.2]⟩

/-- A formula that gives something reads only what the mapping knows. -/
theorem isSome_of_mem_reads {φ : Formula δ} {x : δ} (h : φ.under m = some x) :
    ∀ n ∈ φ.reads m, (m n).isSome := by
  induction φ with
  | value y => exact fun n hn => absurd hn List.not_mem_nil
  | failure e => exact fun n hn => absurd hn List.not_mem_nil
  | sibling n rest ih =>
    cases hn : m n with
    | none => rw [under, hn] at h; cases h
    | some y =>
      rw [under, hn] at h
      intro n' hn'
      simp only [reads, hn, List.mem_cons] at hn'
      rcases hn' with rfl | hn'
      · rw [hn]; rfl
      · exact ih y h n' hn'

end Formula

/-! ## 2. Solutions -/

section Solutions

variable {δ : Type} {f : String → Formula δ} {names : List String} {m : String → Option δ}

/-- **A mapping that solves the equations** of some names: each is what its formula gives under the
mapping itself, and no other name is anything. -/
structure Solves (f : String → Formula δ) (names : List String) (m : String → Option δ) : Prop where
  equation : ∀ n ∈ names, ∃ x, m n = some x ∧ (f n).under m = some x
  only : ∀ n, n ∉ names → m n = none

/-- One attribute reads another, where the attributes are what a mapping says. -/
def ReadsIn (f : String → Formula δ) (names : List String) (m : String → Option δ)
    (n n' : String) : Prop := n ∈ names ∧ n' ∈ (f n).reads m

/-- **Attributes worked out one after another**: each from those that were worked out before. -/
inductive WorkedOut (f : String → Formula δ) : Table δ → Prop
  | empty : WorkedOut f ∅
  | insert {t : Table δ} {n : String} {x : δ} (h : WorkedOut f t) (hn : n ∉ t.keys)
      (hx : (f n).under t.get? = some x) : WorkedOut f (t.insert n x)

theorem Table.get?_eq_none_of_not_mem {t : Table δ} {k : String} (h : k ∉ t.keys) :
    t.get? k = none :=
  Option.not_isSome_iff_eq_none.mp fun hs => h ((Table.isSome_get?_iff t k).mp hs)

/-- An entry that is added changes none that is there. -/
theorem Table.get?_insert_of_some {t : Table δ} {n : String} (x : δ) (hn : n ∉ t.keys) {k : String}
    {y : δ} (hk : t.get? k = some y) : (t.insert n x).get? k = some y := by
  have hne : k ≠ n := by
    rintro rfl
    rw [Table.get?_eq_none_of_not_mem hn] at hk
    cases hk
  rw [Table.get?_insert_of_ne t x hne, hk]

/-- What has been worked out solves its equations. -/
theorem WorkedOut.solves {t : Table δ} (h : WorkedOut f t) : Solves f t.keys t.get? := by
  refine ⟨?_, fun n hn => Table.get?_eq_none_of_not_mem hn⟩
  induction h with
  | empty => exact fun n hn => absurd hn List.not_mem_nil
  | @insert t n x h hn hx ih =>
    have hle := fun k y => Table.get?_insert_of_some (k := k) (y := y) x hn
    intro k hk
    rw [Table.keys_insert_of_not_mem x hn, List.mem_append, List.mem_singleton] at hk
    rcases hk with hk | rfl
    · obtain ⟨y, hy, hunder⟩ := ih k hk
      exact ⟨y, hle k y hy, (Formula.under_of_le hle hunder).1⟩
    · exact ⟨x, Table.get?_insert_self t k x, (Formula.under_of_le hle hx).1⟩

/-- Every solution agrees with what has been worked out. -/
theorem WorkedOut.agrees {t : Table δ} (h : WorkedOut f t)
    (hm : ∀ n ∈ t.keys, ∃ x, m n = some x ∧ (f n).under m = some x) :
    ∀ n x, t.get? n = some x → m n = some x := by
  induction h with
  | empty => exact fun n x hx => absurd hx (by simp)
  | @insert t n x h hn hx ih =>
    have hkeys := Table.keys_insert_of_not_mem x hn
    have ih := ih fun k hk => hm k (by rw [hkeys]; exact List.mem_append_left _ hk)
    intro k y hk
    by_cases hkn : k = n
    · subst hkn
      -- The formula gives the same under both, since they agree on all that it reads.
      obtain ⟨z, hz, hunder⟩ := hm k (by rw [hkeys]; simp)
      have hsame := (Formula.under_of_le ih hx).1
      rw [hunder] at hsame
      rw [Table.get?_insert_self] at hk
      rw [hz, hsame, hk]
    · rw [Table.get?_insert_of_ne t x hkn] at hk
      exact ih k y hk

/-- **What has been worked out is the only solution.** -/
theorem WorkedOut.unique {t : Table δ} (h : WorkedOut f t) (hnames : ∀ n, n ∈ names ↔ n ∈ t.keys)
    (hm : Solves f names m) : m = t.get? := by
  have hagrees := h.agrees (m := m) fun n hn => hm.equation n ((hnames n).mpr hn)
  funext n
  by_cases hn : n ∈ t.keys
  · obtain ⟨x, hx⟩ := Option.isSome_iff_exists.mp ((Table.isSome_get?_iff t n).mpr hn)
    rw [hx, hagrees n x hx]
  · rw [Table.get?_eq_none_of_not_mem hn, hm.only n (mt (hnames n).mp hn)]

/-- What is worked out reads only what was worked out before: the attributes have ranks, in the
order in which they were worked out. -/
theorem WorkedOut.ranked {t : Table δ} (h : WorkedOut f t) :
    ∃ rank : String → Nat, (∀ n ∈ t.keys, rank n < t.keys.length) ∧
      ∀ n n', ReadsIn f t.keys t.get? n n' → rank n' < rank n := by
  induction h with
  | empty => exact ⟨fun _ => 0, fun n hn => absurd hn List.not_mem_nil,
      fun n n' hr => absurd hr.1 List.not_mem_nil⟩
  | @insert t n x h hn hx ih =>
    obtain ⟨rank, hbound, hrank⟩ := ih
    have hle := fun k y => Table.get?_insert_of_some (k := k) (y := y) x hn
    have hkeys := Table.keys_insert_of_not_mem x hn
    have hne : ∀ k ∈ t.keys, k ≠ n := fun k hk heq => hn (heq ▸ hk)
    -- The new attribute comes after all the others.
    refine ⟨fun k => if k = n then t.keys.length else rank k, fun k hk => ?_, ?_⟩
    · rw [hkeys, List.length_append, List.length_singleton]
      rw [hkeys, List.mem_append, List.mem_singleton] at hk
      rcases hk with hk | rfl
      · have := hbound k hk
        simp only [hne k hk, if_false]
        omega
      · simp
    · rintro k k' ⟨hk, hk'⟩
      rw [hkeys, List.mem_append, List.mem_singleton] at hk
      rcases hk with hk | rfl
      · obtain ⟨y, hy, hunder⟩ := h.solves.equation k hk
        rw [(Formula.under_of_le hle hunder).2] at hk'
        have hmem := (Table.isSome_get?_iff t k').mp (Formula.isSome_of_mem_reads hunder k' hk')
        simpa [hne k hk, hne k' hmem] using hrank k k' ⟨hk, hk'⟩
      · rw [(Formula.under_of_le hle hx).2] at hk'
        have hmem := (Table.isSome_get?_iff t k').mp (Formula.isSome_of_mem_reads hx k' hk')
        simpa [hne k' hmem] using hbound k' hmem

/-- **No attribute that has been worked out leads back to itself.** -/
theorem WorkedOut.acyclic {t : Table δ} (h : WorkedOut f t) (n : String) :
    ¬ Relation.TransGen (ReadsIn f t.keys t.get?) n n := by
  obtain ⟨rank, _, hrank⟩ := h.ranked
  have hdescends : ∀ n', Relation.TransGen (ReadsIn f t.keys t.get?) n n' → rank n' < rank n := by
    intro n' hn'
    induction hn' with
    | single hr => exact hrank _ _ hr
    | tail _ hr ih => exact Nat.lt_trans (hrank _ _ hr) ih
  exact fun hcycle => absurd (hdescends n hcycle) (Nat.lt_irrefl _)

end Solutions

open Action

/-! ## 3. Attributes that follow formulas -/

/-- **What values mean**: no value means two things, and what a value means lasts as long as nothing
is changed. -/
structure Meaning (δ : Type) where
  Means : World → Value → δ → Prop
  unique : ∀ {w v x y}, Means w v x → Means w v y → x = y
  lasts : ∀ {w w' v x}, w.Widened w' → Means w v x → Means w' v x

/-- The same evaluation with the declarations in another order. -/
def Evaluation.ordered (E : Evaluation) (ds : List Declaration) : Evaluation :=
  { E with plan := { E.plan with attributes := ds } }

def World.ordered (w : World) (e : EvaluationId) (ds : List Declaration) : World :=
  w.modifyEvaluation e (·.ordered ds)

/-- **A world in which there is more, while an evaluation stays where it stands.** -/
structure World.Calm (e : EvaluationId) (w w' : World) : Prop where
  widened : w.Widened w'
  evaluation : w'.evaluation? e = w.evaluation? e

theorem World.Calm.refl (e : EvaluationId) (w : World) : w.Calm e w := ⟨.refl w, rfl⟩

theorem World.Calm.trans {e : EvaluationId} {w w₁ w₂ : World} (h : w.Calm e w₁)
    (h' : w₁.Calm e w₂) : w.Calm e w₂ :=
  ⟨h.widened.trans h'.widened, h'.evaluation.trans h.evaluation⟩

variable {δ : Type}

/-- **An action follows a formula**: it changes nothing, reads the siblings that the formula reads
and passes their failures on, and depends on what the siblings mean only. -/
def Follows (M : Meaning δ) (Serves : Host → Prop) (e : EvaluationId) (E : Evaluation) :
    Formula δ → Action Value → World → Prop
  | .value x, a, w => ∃ v w', a.execute w = (.ok v, w') ∧ w.Calm e w' ∧ M.Means w' v x
  | .failure failure, a, w => ∃ w', a.execute w = (.error failure, w')
  | .sibling name rest, a, w =>
    ∃ host k w₁, Serves host ∧ w.Calm e w₁ ∧
      a.execute w = (read host e name >>= k).execute w₁ ∧
      ∀ w₂ t active v x, w₁.Widened w₂ → w₂.Stands e E t active → M.Means w₂ v x →
        Follows M Serves e E (rest x) (k v) w₂

/-- What comes to an action that follows a formula, follows it as well. -/
theorem Follows.of_calm {M : Meaning δ} {Serves : Host → Prop} {e : EvaluationId} {E : Evaluation}
    {φ : Formula δ} {a b : Action Value} {w w₁ : World} (h : Follows M Serves e E φ b w₁)
    (hw : w.Calm e w₁) (hab : a.execute w = b.execute w₁) : Follows M Serves e E φ a w := by
  cases φ with
  | value x =>
    obtain ⟨v, w', hb, hcalm, hmeans⟩ := h
    exact ⟨v, w', hab.trans hb, hw.trans hcalm, hmeans⟩
  | failure failure =>
    obtain ⟨w', hb⟩ := h
    exact ⟨w', hab.trans hb⟩
  | sibling name rest =>
    obtain ⟨host, k, w₂, hserves, hcalm, hb, hrest⟩ := h
    exact ⟨host, k, w₂, hserves, hw.trans hcalm, hab.trans hb, hrest⟩

/-- **Attributes that are determined**: to compute one is to follow the formula of its name, from
wherever the evaluation stands. The hosts that serve so many levels of reads are given. -/
def Determined (M : Meaning δ) (Serves : Nat → Host → Prop) (e : EvaluationId) (E : Evaluation)
    (f : String → Formula δ) (w : World) : Prop :=
  ∀ n host, Serves (n + 1) host → ∀ d ∈ E.plan.attributes, ∀ w' t active, w.Widened w' →
    w'.Stands e E t active → Follows M (Serves n) e E (f d.name) (compute host e d) w'

/-- One table has all that another has. -/
def Table.Within (t t' : Table δ) : Prop := ∀ n x, t.get? n = some x → t'.get? n = some x

theorem Table.Within.trans {t t₁ t₂ : Table δ} (h : t.Within t₁) (h' : t₁.Within t₂) :
    t.Within t₂ := fun n x hx => h' n x (h n x hx)

/-- The values of a table mean what a mapping says. -/
def Meaning.Values (M : Meaning δ) (w : World) (values : Table Value) (m : String → Option δ) :
    Prop := ∀ n v, values.get? n = some v → ∃ x, m n = some x ∧ M.Means w v x

theorem Meaning.Values.widened {M : Meaning δ} {w w' : World} {values : Table Value}
    {m : String → Option δ} (h : M.Values w values m) (hw : w.Widened w') :
    M.Values w' values m := by
  intro n v hv
  obtain ⟨x, hx, hmeans⟩ := h n v hv
  exact ⟨x, hx, M.lasts hw hmeans⟩

/-! ## 4. How far an evaluation has come -/

section Evaluating

variable {M : Meaning δ} {Serves : Nat → Host → Prop} {e : EvaluationId} {E : Evaluation}
  {f : String → Formula δ} {w₀ w w' w₁ : World} {μ μ' q : Table δ} {active : List String}
  {name : String} {v : Value} {x : δ} {host : Host} {a : Action Value} {n : Nat}

/-- **How far an evaluation has come**: what it keeps means what has been worked out, and what it is
computing is not kept yet. -/
structure Progress (M : Meaning δ) (f : String → Formula δ) (e : EvaluationId) (E : Evaluation)
    (w₀ w : World) (μ : Table δ) (active : List String) : Prop where
  widened : w₀.Widened w
  stands : ∃ t : Table Value, w.Stands e E t active ∧ t.keys = μ.keys ∧ M.Values w t μ.get?
  workedOut : WorkedOut f μ
  apart : ∀ n ∈ active, n ∉ μ.keys
  once : active.Nodup
  known : ∀ n, n ∈ μ.keys ∨ n ∈ active → n ∈ E.plan.names

namespace Progress

theorem fresh (hw : w₀.Widened w) (h : w.Stands e E ∅ []) : Progress M f e E w₀ w ∅ [] where
  widened := hw
  stands := ⟨∅, h, rfl, fun _ _ hv => by cases hv⟩
  workedOut := .empty
  apart := fun _ h => absurd h List.not_mem_nil
  once := List.nodup_nil
  known := fun _ h => h.elim (fun h => absurd h List.not_mem_nil) fun h => absurd h List.not_mem_nil

theorem calm (h : Progress M f e E w₀ w μ active) (hw : w.Calm e w') :
    Progress M f e E w₀ w' μ active := by
  obtain ⟨t, hstands, hkeys, hvalues⟩ := h.stands
  have hstands' : w'.Stands e E t active := hw.evaluation.trans hstands
  exact { h with
    widened := h.widened.trans hw.widened
    stands := ⟨t, hstands', hkeys, hvalues.widened hw.widened⟩ }

/-- There is room for one more attribute to be computed. -/
theorem length_lt (h : Progress M f e E w₀ w μ active) (hname : name ∈ E.plan.names)
    (hactive : name ∉ active) : active.length < E.plan.names.length := by
  have hnodup : (name :: active).Nodup := List.nodup_cons.mpr ⟨hactive, h.once⟩
  have hsubset : name :: active ⊆ E.plan.names := by
    intro n hn
    rcases List.mem_cons.mp hn with rfl | hn
    · exact hname
    · exact h.known n (.inr hn)
  have hlength := (List.subperm_of_subset hnodup hsubset).length_le
  rw [List.length_cons] at hlength
  omega

theorem activate (h : Progress M f e E w₀ w μ active) (hname : name ∈ E.plan.names)
    (hactive : name ∉ active) (hμ : name ∉ μ.keys) :
    Progress M f e E w₀ (activated w e name) μ (active ++ [name]) := by
  have hw : w.Widened (activated w e name) := World.widened_modifyEvaluation w e _
  obtain ⟨t, hstands, hkeys, hvalues⟩ := h.stands
  refine ⟨h.widened.trans hw, ⟨t, stands_activated hstands, hkeys, hvalues.widened hw⟩,
    h.workedOut, fun n hn => ?_, ?_, fun n hn => ?_⟩
  · rcases List.mem_append.mp hn with hn | hn
    · exact h.apart n hn
    · exact List.mem_singleton.mp hn ▸ hμ
  · exact h.once.append (List.nodup_singleton name) (by simpa using hactive)
  · rw [List.mem_append, List.mem_singleton] at hn
    rcases hn with hn | hn | rfl
    · exact h.known n (.inl hn)
    · exact h.known n (.inr hn)
    · exact hname

/-- What has been computed by its formula is worked out. -/
theorem keep (h : Progress M f e E w₀ w μ (active ++ [name])) (hx : (f name).under μ.get? = some x)
    (hv : M.Means w v x) :
    Progress M f e E w₀ (withKept (deactivated w e) e name v) (μ.insert name x) active := by
  have hw : w.Widened (withKept (deactivated w e) e name v) :=
    (World.widened_modifyEvaluation w e _).trans (World.widened_modifyEvaluation _ e _)
  obtain ⟨t, hstands, hkeys, hvalues⟩ := h.stands
  have hμ : name ∉ μ.keys := h.apart name (by simp)
  have hμkeys := Table.keys_insert_of_not_mem x hμ
  have htkeys := Table.keys_insert_of_not_mem v (hkeys ▸ hμ : name ∉ t.keys)
  have honce := List.nodup_append.mp h.once
  refine ⟨h.widened.trans hw, ⟨t.insert name v, stands_withKept (stands_deactivated hstands),
    by rw [htkeys, hμkeys, hkeys], fun n u hu => ?_⟩, .insert h.workedOut hμ hx, fun n hn => ?_,
    honce.1, fun n hn => ?_⟩
  · by_cases hn : n = name
    · subst hn
      rw [Table.get?_insert_self] at hu
      rw [Table.get?_insert_self]
      exact ⟨x, rfl, Option.some.inj hu ▸ M.lasts hw hv⟩
    · rw [Table.get?_insert_of_ne t v hn] at hu
      rw [Table.get?_insert_of_ne μ x hn]
      exact hvalues.widened hw n u hu
  · rw [hμkeys, List.mem_append, List.mem_singleton]
    rintro (hn' | rfl)
    · exact h.apart n (List.mem_append_left _ hn) hn'
    · exact honce.2.2 n hn n (by simp) rfl
  · rw [hμkeys, List.mem_append, List.mem_singleton] at hn
    rcases hn with (hn | rfl) | hn
    · exact h.known n (.inl hn)
    · exact h.known n (.inr (by simp))
    · exact h.known n (.inr (List.mem_append_left _ hn))

/-- A mapping that solves the equations has all that has been worked out. -/
theorem agrees (h : Progress M f e E w₀ w μ active) {m : String → Option δ}
    (hm : Solves f E.plan.names m) (hx : μ.get? name = some x) : m name = some x :=
  h.workedOut.agrees (fun n hn => hm.equation n (h.known n (.inl hn))) name x hx

end Progress

theorem Plan.exists_declaration? {p : Plan} (h : name ∈ p.names) :
    ∃ d ∈ p.attributes, p.declaration? name = some d ∧ d.name = name := by
  obtain ⟨d, hd, hname⟩ := List.mem_map.mp h
  have hsome : (p.attributes.find? (·.name = name)).isSome :=
    List.find?_isSome.mpr ⟨d, hd, by simpa using hname⟩
  obtain ⟨d', hd'⟩ := Option.isSome_iff_exists.mp hsome
  exact ⟨d', List.mem_of_find?_eq_some hd', hd', by simpa using List.find?_some hd'⟩

/-! ## 5. What is read is worked out -/

/-- **A read that gave a value**: the evaluation has come further, and the value means what has been
worked out for the name. -/
def Yields (M : Meaning δ) (f : String → Formula δ) (e : EvaluationId) (E : Evaluation)
    (w₀ w : World) (μ : Table δ) (active : List String) (v : Value) (w' : World)
    (result : (String → Option δ) → Option δ) : Prop :=
  ∃ μ' x, Progress M f e E w₀ w' μ' active ∧ w.Widened w' ∧ μ.Within μ' ∧
    result μ'.get? = some x ∧ M.Means w' v x

/-- Under a host, while some attributes are being computed, whatever is read is worked out. -/
def ReadsSoundly (M : Meaning δ) (f : String → Formula δ) (e : EvaluationId) (E : Evaluation)
    (w₀ : World) (active : List String) (host : Host) : Prop :=
  ∀ name w μ v w', Progress M f e E w₀ w μ active → (read host e name).execute w = (.ok v, w') →
    Yields M f e E w₀ w μ active v w' (· name)

/-- What follows a formula and gives a value gives what the formula gives, if what it reads is
worked out. -/
theorem Follows.sound {Serves : Host → Prop} {φ : Formula δ}
    (hread : ∀ host, Serves host → ReadsSoundly M f e E w₀ active host)
    (hp : Progress M f e E w₀ w μ active) (hfollows : Follows M Serves e E φ a w)
    (h : a.execute w = (.ok v, w')) : Yields M f e E w₀ w μ active v w' φ.under := by
  induction φ generalizing a w μ with
  | value x =>
    obtain ⟨u, w₁, ha, hcalm, hmeans⟩ := hfollows
    obtain ⟨rfl, rfl⟩ : v = u ∧ w' = w₁ := by simpa using h.symm.trans ha
    exact ⟨μ, x, hp.calm hcalm, hcalm.widened, fun _ _ hx => hx, rfl, hmeans⟩
  | failure failure =>
    obtain ⟨w₁, ha⟩ := hfollows
    cases h.symm.trans ha
  | sibling name rest ih =>
    obtain ⟨host, k, w₁, hserves, hcalm, ha, hrest⟩ := hfollows
    obtain ⟨u, w₂, hu, hk⟩ := ok_of_execute_bind (ha.symm.trans h)
    obtain ⟨μ₁, x, hp₁, hw₁, hwithin, hx, hmeans⟩ :=
      hread host hserves name w₁ μ u w₂ (hp.calm hcalm) hu
    obtain ⟨t, hstands, _⟩ := hp₁.stands
    obtain ⟨μ', y, hp', hw', hwithin', hy, hmeans'⟩ :=
      ih x hp₁ (hrest w₂ t active u x hw₁ hstands hmeans) hk
    refine ⟨μ', y, hp', (hcalm.widened.trans hw₁).trans hw', hwithin.trans hwithin', ?_, hmeans'⟩
    show (Formula.sibling name rest).under μ'.get? = some y
    rw [Formula.under, hwithin' name x hx]
    exact hy

/-- **What is read is worked out**, however deeply the reads are nested. -/
theorem readsSoundly (hE : E.declarations = none) (hdet : Determined M Serves e E f w₀)
    (hhost : Serves n host) (hn : E.plan.names.length < n + active.length) :
    ReadsSoundly M f e E w₀ active host := by
  induction n generalizing host active with
  | zero =>
    intro name w μ v w' hp h
    obtain ⟨t, hstands, hkeys, hvalues⟩ := hp.stands
    -- So many attributes are being computed that there is no other left to compute.
    have hlength := (List.subperm_of_subset hp.once fun n hn => hp.known n (.inr hn)).length_le
    omega
  | succ n ih =>
    intro name w μ v w' hp h
    obtain ⟨t, hstands, hkeys, hvalues⟩ := hp.stands
    cases hkept : t.get? name with
    | some u =>
      rw [execute_read_kept hstands hkept] at h
      cases h
      obtain ⟨x, hx, hmeans⟩ := hvalues name v hkept
      exact ⟨μ, x, hp, .refl w, fun _ _ hx => hx, hx, hmeans⟩
    | none =>
      by_cases hactive : name ∈ active
      · rw [execute_read_active hstands hkept hactive] at h
        cases h
      · by_cases hname : name ∈ E.plan.names
        · obtain ⟨d, hd, hdeclared, rfl⟩ := Plan.exists_declaration? hname
          have hμ : d.name ∉ μ.keys := by
            rw [← hkeys, ← Table.isSome_get?_iff, hkept]
            exact Bool.false_ne_true
          have hp₁ := hp.activate hname hactive hμ
          have hfollows := hdet n host hhost d hd _ _ _ hp₁.widened (stands_activated hstands)
          have hroom : E.plan.names.length < n + (active ++ [d.name]).length := by
            rw [List.length_append, List.length_singleton]
            omega
          rcases hcompute : (compute host e d).execute (activated w e d.name) with ⟨_ | u, w₁⟩
          · obtain ⟨failure, w₂, hfailed⟩ :=
              execute_read_failed hstands hE hkept hactive hdeclared hcompute
            cases hfailed.symm.trans h
          · obtain ⟨μ₁, x, hp₂, hw₁, hwithin, hx, hmeans⟩ :=
              hfollows.sound (fun host' hhost' => ih hhost' hroom) hp₁ hcompute
            obtain ⟨t₁, hstands₁, _⟩ := hp₂.stands
            rw [execute_read_computed hstands hE hkept hactive hdeclared hcompute hstands₁] at h
            cases h
            have hw := World.widened_modifyEvaluation
            refine ⟨μ₁.insert d.name x, x, hp₂.keep hx hmeans,
              (hw w e _).trans (hw₁.trans ((hw _ e _).trans (hw _ e _))), fun k y hy => ?_,
              Table.get?_insert_self _ _ _, M.lasts ((hw _ e _).trans (hw _ e _)) hmeans⟩
            exact Table.get?_insert_of_some x (hp₂.apart _ (by simp)) (hwithin k y hy)
        · have hdeclared : E.plan.declaration? name = none := by
            refine List.find?_eq_none.mpr fun d hd hdn => hname ?_
            exact List.mem_map.mpr ⟨d, hd, by simpa using hdn⟩
          rw [execute_read_undeclared hstands hE hkept hactive hdeclared] at h
          cases h

/-! ## 6. What can be worked out is read -/

/-- What follows a formula gives a value, if what the formula reads can be read and the formula
gives something. -/
theorem Follows.complete {Serves : Host → Prop} {φ : Formula δ} {m : String → Option δ}
    (hm : Solves f E.plan.names m) (hq : ∀ k y, q.get? k = some y → m k = some y)
    (hsound : ∀ host, Serves host → ReadsSoundly M f e E w₀ active host)
    (hread : ∀ host, Serves host → ∀ name ∈ q.keys, ∀ w μ, Progress M f e E w₀ w μ active →
      ∃ v w', (read host e name).execute w = (.ok v, w'))
    (hp : Progress M f e E w₀ w μ active) (hfollows : Follows M Serves e E φ a w)
    (hx : φ.under q.get? = some x) : ∃ v w', a.execute w = (.ok v, w') := by
  induction φ generalizing a w μ with
  | value y =>
    obtain ⟨v, w', ha, _⟩ := hfollows
    exact ⟨v, w', ha⟩
  | failure failure => cases hx
  | sibling name rest ih =>
    obtain ⟨host, k, w₁, hserves, hcalm, ha, hrest⟩ := hfollows
    have hp₁ := hp.calm hcalm
    cases hy : q.get? name with
    | none => rw [Formula.under, hy] at hx; cases hx
    | some y =>
      rw [Formula.under, hy] at hx
      have hmem : name ∈ q.keys := (Table.isSome_get?_iff q name).mp (by rw [hy]; rfl)
      obtain ⟨u, w₂, hu⟩ := hread host hserves name hmem w₁ μ hp₁
      obtain ⟨μ₁, z, hp₂, hw₂, _, hz, hmeans⟩ := hsound host hserves name w₁ μ u w₂ hp₁ hu
      -- What was read is what the solution says, and so is what the formula was told.
      have hzy : z = y := Option.some.inj ((hp₂.agrees hm hz).symm.trans (hq name y hy))
      obtain ⟨t, hstands, _⟩ := hp₂.stands
      rw [ha, execute_bind_ok hu]
      exact ih y hp₂ (hrest w₂ t active u y hw₂ hstands (hzy ▸ hmeans)) hx

/-- **What can be worked out is read**, from wherever the evaluation stands, as long as none of it
is being computed. -/
theorem exists_read (hE : E.declarations = none) (hdet : Determined M Serves e E f w₀)
    {m : String → Option δ} (hm : Solves f E.plan.names m) (hq : WorkedOut f q)
    (hqm : ∀ k y, q.get? k = some y → m k = some y) (hhost : Serves n host)
    (hn : E.plan.names.length < n + active.length) (hapart : ∀ k ∈ active, k ∉ q.keys)
    (hname : name ∈ q.keys) (hp : Progress M f e E w₀ w μ active) :
    ∃ v w', (read host e name).execute w = (.ok v, w') := by
  induction hq generalizing n host active name w μ with
  | empty => exact absurd hname List.not_mem_nil
  | @insert q n₀ x hq hnew hx ih =>
    have hkeys := Table.keys_insert_of_not_mem x hnew
    have hqm' : ∀ k y, q.get? k = some y → m k = some y := fun k y hy =>
      hqm k y (Table.get?_insert_of_some x hnew hy)
    have hbefore : ∀ k ∈ active, k ∉ q.keys := fun k hk hkq =>
      hapart k hk (by rw [hkeys]; exact List.mem_append_left _ hkq)
    rw [hkeys, List.mem_append, List.mem_singleton] at hname
    rcases hname with hname | rfl
    · exact ih hqm' hhost hn hbefore hname hp
    · obtain ⟨t, hstands, htkeys, _⟩ := hp.stands
      cases hkept : t.get? name with
      | some u => exact ⟨u, w, execute_read_kept hstands hkept⟩
      | none =>
        have hactive : name ∉ active := fun hmem => hapart name hmem (by rw [hkeys]; simp)
        have hknown : name ∈ E.plan.names := by
          by_contra hnot
          have hmx := hqm name x (Table.get?_insert_self q name x)
          rw [hm.only name hnot] at hmx
          cases hmx
        obtain ⟨d, hd, hdeclared, rfl⟩ := Plan.exists_declaration? hknown
        have hμ : d.name ∉ μ.keys := by
          rw [← htkeys, ← Table.isSome_get?_iff, hkept]
          exact Bool.false_ne_true
        have hp₁ := hp.activate hknown hactive hμ
        have hlength := hp.length_lt hknown hactive
        obtain ⟨n, rfl⟩ : ∃ k, n = k + 1 := ⟨n - 1, by omega⟩
        have hroom : E.plan.names.length < n + (active ++ [d.name]).length := by
          rw [List.length_append, List.length_singleton]
          omega
        have hfollows := hdet n host hhost d hd _ _ _ hp₁.widened (stands_activated hstands)
        have hapart' : ∀ k ∈ active ++ [d.name], k ∉ q.keys := by
          intro k hk
          rcases List.mem_append.mp hk with hk | hk
          · exact hbefore k hk
          · exact List.mem_singleton.mp hk ▸ hnew
        have hsound : ∀ host', Serves n host' →
            ReadsSoundly M f e E w₀ (active ++ [d.name]) host' :=
          fun host' hhost' => readsSoundly hE hdet hhost' hroom
        obtain ⟨v, w₁, hcompute⟩ := hfollows.complete hm hqm' hsound
          (fun host' hhost' name' hname' w' μ' hp' => ih hqm' hhost' hroom hapart' hname' hp')
          hp₁ hx
        obtain ⟨_, _, hp₂, _⟩ := hfollows.sound hsound hp₁ hcompute
        obtain ⟨t₁, hstands₁, _⟩ := hp₂.stands
        exact ⟨v, _, execute_read_computed hstands hE hkept hactive hdeclared hcompute hstands₁⟩

/-! ## 7. All attributes -/

theorem execute_readAmong_ok (hE : E.declarations = none) {count : Nat}
    (h : (read host e name).execute w = (.ok v, w')) {t : Table Value}
    (hstands : w'.Stands e E t active) :
    (readAmong host e count name).execute w = (.ok (name, v), w') := by
  have hdeclarations : ({ E with values := .own t, active := .own active } :
      Evaluation).declarations = none := hE
  rw [readAmong, execute_bind_ok h, execute_bind_ok (execute_getEvaluation hstands),
    execute_bind_ok (execute_get w'), hdeclarations]
  rfl

/-- Names that have been read one after another are worked out. -/
theorem mapM_readAmong_sound (hE : E.declarations = none)
    (hsound : ReadsSoundly M f e E w₀ [] host) {names : List String} {count : Nat}
    {entries : List (String × Value)} (hp : Progress M f e E w₀ w μ [])
    (h : (names.mapM (readAmong host e count)).execute w = (.ok entries, w')) :
    ∃ μ', Progress M f e E w₀ w' μ' [] ∧ w.Widened w' ∧ μ.Within μ' ∧
      entries.map (·.1) = names ∧
      ∀ entry ∈ entries, ∃ x, μ'.get? entry.1 = some x ∧ M.Means w' entry.2 x := by
  induction names generalizing w μ entries with
  | nil =>
    cases h
    exact ⟨μ, hp, .refl _, fun _ _ hx => hx, rfl, fun _ hentry => absurd hentry List.not_mem_nil⟩
  | cons name names ih =>
    rw [List.mapM_cons] at h
    obtain ⟨entry, w₁, hentry, h⟩ := ok_of_execute_bind h
    obtain ⟨rest, w₂, hrest, h⟩ := ok_of_execute_bind h
    cases h
    obtain ⟨v, w₃, hv, _⟩ := ok_of_execute_bind hentry
    obtain ⟨μ₁, x, hp₁, hw₁, hwithin, hx, hmeans⟩ := hsound name w μ v w₃ hp hv
    obtain ⟨t, hstands, _⟩ := hp₁.stands
    rw [execute_readAmong_ok hE hv hstands] at hentry
    cases hentry
    obtain ⟨μ', hp', hw', hwithin', hnames, hvalues⟩ := ih hp₁ hrest
    refine ⟨μ', hp', hw₁.trans hw', hwithin.trans hwithin', by rw [List.map_cons, hnames],
      fun entry hmem => ?_⟩
    rcases List.mem_cons.mp hmem with rfl | hmem
    · exact ⟨x, hwithin' name x hx, M.lasts hw' hmeans⟩
    · exact hvalues entry hmem

/-- Names that can be worked out can be read one after another. -/
theorem exists_mapM_readAmong (hE : E.declarations = none)
    (hsound : ReadsSoundly M f e E w₀ [] host) {names : List String} {count : Nat}
    (hread : ∀ name ∈ names, ∀ w μ, Progress M f e E w₀ w μ [] →
      ∃ v w', (read host e name).execute w = (.ok v, w'))
    (hp : Progress M f e E w₀ w μ []) :
    ∃ entries w', (names.mapM (readAmong host e count)).execute w = (.ok entries, w') := by
  induction names generalizing w μ with
  | nil => exact ⟨[], w, rfl⟩
  | cons name names ih =>
    obtain ⟨v, w₁, hv⟩ := hread name List.mem_cons_self w μ hp
    obtain ⟨μ₁, x, hp₁, _⟩ := hsound name w μ v w₁ hp hv
    obtain ⟨t, hstands, _⟩ := hp₁.stands
    obtain ⟨rest, w₂, hrest⟩ := ih (fun k hk => hread k (List.mem_cons_of_mem _ hk)) hp₁
    refine ⟨(name, v) :: rest, w₂, ?_⟩
    rw [List.mapM_cons, execute_bind_ok (execute_readAmong_ok hE hv hstands),
      execute_bind_ok hrest]
    rfl

theorem execute_resolve (hE : E.declarations = none) {t : Table Value}
    (h : w.Stands e E t active) :
    (resolve host e).execute w =
      (do return ⟨← E.plan.names.mapM (readAmong host e E.plan.names.length)⟩ :
        Action (Table Value)).execute w := by
  have hnames : (namesToResolve { E with values := .own t, active := .own active }).execute w =
      (.ok E.plan.names, w) := by
    rw [namesToResolve, hE]
    rfl
  rw [resolve, execute_bind_ok (execute_getEvaluation h), execute_bind_ok hnames]

/-- What was resolved is worked out, name by name. -/
theorem resolve_sound (hE : E.declarations = none) (hdet : Determined M Serves e E f w₀)
    (hhost : Serves n host) (hn : E.plan.names.length < n) (hw : w₀.Widened w)
    (h : w.Stands e E ∅ []) {values : Table Value}
    (hresolve : (resolve host e).execute w = (.ok values, w')) :
    values.keys = E.plan.names ∧
      ∃ μ, WorkedOut f μ ∧ (∀ k, k ∈ E.plan.names ↔ k ∈ μ.keys) ∧ M.Values w' values μ.get? := by
  rw [execute_resolve hE h] at hresolve
  obtain ⟨entries, w₁, hentries, hvalues⟩ := ok_of_execute_bind hresolve
  cases hvalues
  obtain ⟨μ, hp, _, _, hnames, hmeans⟩ :=
    mapM_readAmong_sound hE (readsSoundly hE hdet hhost (by simpa using hn)) (.fresh hw h) hentries
  refine ⟨hnames, μ, hp.workedOut, fun k => ⟨fun hk => ?_, fun hk => hp.known k (.inl hk)⟩,
    fun k v hv => ?_⟩
  · rw [← hnames] at hk
    obtain ⟨entry, hmem, rfl⟩ := List.mem_map.mp hk
    obtain ⟨x, hx, _⟩ := hmeans entry hmem
    exact (Table.isSome_get?_iff μ _).mp (by rw [hx]; rfl)
  · obtain ⟨entry, hfind, rfl⟩ := Option.map_eq_some_iff.mp hv
    have hname : entry.1 = k := by simpa using List.find?_some hfind
    exact hname ▸ hmeans entry (List.mem_of_find?_eq_some hfind)

/-- What can be worked out is resolved. -/
theorem exists_resolve (hE : E.declarations = none) (hdet : Determined M Serves e E f w₀)
    (hhost : Serves n host) (hn : E.plan.names.length < n) (hw : w₀.Widened w)
    (h : w.Stands e E ∅ []) (hμ : WorkedOut f μ) (hnames : ∀ k, k ∈ E.plan.names ↔ k ∈ μ.keys) :
    ∃ values w', (resolve host e).execute w = (.ok values, w') := by
  have hm : Solves f E.plan.names μ.get? :=
    ⟨fun k hk => hμ.solves.equation k ((hnames k).mp hk),
      fun k hk => hμ.solves.only k (mt (hnames k).mpr hk)⟩
  have hroom : E.plan.names.length < n + ([] : List String).length := by simpa using hn
  have hread : ∀ k ∈ E.plan.names, ∀ w₁ μ₁, Progress M f e E w₀ w₁ μ₁ [] →
      ∃ v w', (read host e k).execute w₁ = (.ok v, w') := fun k hk w₁ μ₁ hp =>
    exists_read hE hdet hm hμ (fun _ _ hy => hy) hhost hroom
      (fun _ h => absurd h List.not_mem_nil) ((hnames k).mp hk) hp
  obtain ⟨entries, w', hentries⟩ : ∃ entries w',
      (E.plan.names.mapM (readAmong host e E.plan.names.length)).execute w = (.ok entries, w') :=
    exists_mapM_readAmong hE (readsSoundly hE hdet hhost hroom) hread (.fresh hw h)
  refine ⟨⟨entries⟩, w', ?_⟩
  rw [execute_resolve hE h, execute_bind_ok hentries]
  rfl

end Evaluating

end TraitFactory
