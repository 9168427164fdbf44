import Mathlib.Data.List.Nodup
import Mathlib.Data.List.Perm.Subperm
import TraitFactory.Proofs.MildReads

/-!
# What is told of computing attributes

What an evaluation tells of the attributes that it computes nests as they do: between the start and
the end of one it tells of those that are computed for it. From where it begins to be told, it can
be reckoned after each mark which attributes are active and which values are kept. Nothing is active
twice, nothing is both, and nothing that is kept is given up.
-/

namespace TraitFactory

open Action

/-! ## 1. Tales of computing -/

/-- Whether a mark tells of an attribute that an evaluation computes. -/
def Mark.computes (e : EvaluationId) : Mark → Bool
  | .starts e' (.computes _) | .ends e' (.computes _) _ => e' = e
  | _ => false

/-- **What is told while an evaluation computes attributes**, from one table of values to another.
Only what is declared, neither active nor kept begins to be computed. It is active until it ends,
and its value is kept if it ends with one. -/
inductive Plan.Computes (plan : Plan) (e : EvaluationId) :
    List String → Table Value → List Mark → Table Value → Prop
  | nil {active : List String} {t : Table Value} : Computes plan e active t [] t
  | other {active : List String} {t t' : Table Value} {m : Mark} {rest : List Mark}
      (hm : m.computes e = false) (hrest : Computes plan e active t rest t') :
      Computes plan e active t (m :: rest) t'
  | failed {active : List String} {t t₁ t' : Table Value} {name : String} {failure : Failure}
      {inner rest : List Mark} (hdeclared : name ∈ plan.names) (hactive : name ∉ active)
      (hkept : t.get? name = none) (hinner : Computes plan e (active ++ [name]) t inner t₁)
      (hrest : Computes plan e active t₁ rest t') :
      Computes plan e active t (.starts e (.computes name) :: inner ++
        .ends e (.computes name) (.failed failure) :: rest) t'
  | done {active : List String} {t t₁ t' : Table Value} {name : String} {v : Value}
      {inner rest : List Mark} (hdeclared : name ∈ plan.names) (hactive : name ∉ active)
      (hkept : t.get? name = none) (hinner : Computes plan e (active ++ [name]) t inner t₁)
      (hrest : Computes plan e active (t₁.insert name v) rest t') :
      Computes plan e active t (.starts e (.computes name) :: inner ++
        .ends e (.computes name) .done :: rest) t'

namespace Plan.Computes

variable {plan : Plan} {e : EvaluationId} {active : List String} {t t₁ t' : Table Value}
  {marks marks' : List Mark} {name : String}

theorem append (h : plan.Computes e active t marks t₁) (h' : plan.Computes e active t₁ marks' t') :
    plan.Computes e active t (marks ++ marks') t' := by
  induction h with
  | nil => exact h'
  | other hm _ ih => exact .other hm (ih h')
  | failed hdeclared hactive hkept hinner _ _ ih =>
    rw [List.append_assoc]
    exact .failed hdeclared hactive hkept hinner (ih h')
  | done hdeclared hactive hkept hinner _ _ ih =>
    rw [List.append_assoc]
    exact .done hdeclared hactive hkept hinner (ih h')

theorem single {m : Mark} (hm : m.computes e = false) : plan.Computes e active t [m] t :=
  .other hm .nil

/-- No value is kept of what is active. -/
theorem get?_of_active (h : plan.Computes e active t marks t') (hname : name ∈ active)
    (hnone : t.get? name = none) : t'.get? name = none := by
  induction h with
  | nil => exact hnone
  | other _ _ ih => exact ih hname hnone
  | failed _ _ _ _ _ ihinner ihrest =>
    exact ihrest hname (ihinner (List.mem_append_left _ hname) hnone)
  | @done _ _ _ _ name' _ _ _ _ hactive _ _ _ ihinner ihrest =>
    have hne : name ≠ name' := fun heq => hactive (heq ▸ hname)
    refine ihrest hname ?_
    rw [Table.get?_insert_of_ne _ _ hne]
    exact ihinner (List.mem_append_left _ hname) hnone

/-- While an attribute is computed no value of it is kept. -/
theorem get?_of_inner (h : plan.Computes e (active ++ [name]) t marks t')
    (hnone : t.get? name = none) : t'.get? name = none :=
  h.get?_of_active (List.mem_append_right _ (List.mem_singleton.mpr rfl)) hnone

/-- **Values that are kept are never changed or dropped.** -/
theorem holds (h : plan.Computes e active t marks t') : t.Holds t' := by
  induction h with
  | nil => exact fun _ _ hv => hv
  | other _ _ ih => exact ih
  | failed _ _ _ _ _ ihinner ihrest => exact fun n u hu => ihrest n u (ihinner n u hu)
  | @done _ _ _ _ name' _ _ _ _ _ hkept _ _ ihinner ihrest =>
    intro n u hu
    have hne : n ≠ name' := fun heq => by rw [heq, hkept] at hu; cases hu
    refine ihrest n u ?_
    rw [Table.get?_insert_of_ne _ _ hne]
    exact ihinner n u hu

end Plan.Computes

/-! ## 2. Reckoning -/

/-- **What of an evaluation is active and what is kept**, as far as has been told. -/
structure Reckoning where
  active : List String
  kept : List String
  deriving DecidableEq, Repr

namespace Reckoning

/-- What has begun to be computed is active, and what was begun last ends first. -/
def tell (e : EvaluationId) (r : Reckoning) : Mark → Reckoning
  | .starts e' (.computes name) => if e' = e then ⟨r.active ++ [name], r.kept⟩ else r
  | .ends e' (.computes name) ending =>
    if e' = e then ⟨r.active.dropLast, if ending = .done then r.kept ++ [name] else r.kept⟩ else r
  | _ => r

def after (e : EvaluationId) (r : Reckoning) (marks : List Mark) : Reckoning :=
  marks.foldl (tell e) r

/-- **A sound reckoning** of an evaluation of a plan. -/
structure Sound (plan : Plan) (r : Reckoning) : Prop where
  nodup : r.active.Nodup
  declared : ∀ name ∈ r.active, name ∈ plan.names
  once : r.kept.Nodup
  disjoint : ∀ name ∈ r.active, name ∉ r.kept

variable {plan : Plan} {e : EvaluationId} {r : Reckoning} {m : Mark} {marks marks' : List Mark}
  {name : String}

@[simp] theorem after_nil : r.after e [] = r := rfl

@[simp] theorem after_cons : r.after e (m :: marks) = (r.tell e m).after e marks := rfl

@[simp] theorem after_append : r.after e (marks ++ marks') = (r.after e marks).after e marks' :=
  List.foldl_append

theorem tell_other (hm : m.computes e = false) : r.tell e m = r := by
  unfold tell
  split <;> simp_all [Mark.computes]

/-- Nothing that is kept is ever given up. -/
theorem kept_after (e : EvaluationId) (r : Reckoning) (marks : List Mark) :
    r.kept <+: (r.after e marks).kept := by
  induction marks generalizing r with
  | nil => exact List.prefix_rfl
  | cons m marks ih =>
    refine List.IsPrefix.trans ?_ (ih (r.tell e m))
    unfold tell
    split
    · split <;> exact List.prefix_rfl
    · split
      · dsimp only
        split
        · exact List.prefix_append _ _
        · exact List.prefix_rfl
      · exact List.prefix_rfl
    · exact List.prefix_rfl

theorem Sound.starts (h : r.Sound plan) (hdeclared : name ∈ plan.names) (hactive : name ∉ r.active)
    (hkept : name ∉ r.kept) : Sound plan ⟨r.active ++ [name], r.kept⟩ where
  nodup := h.nodup.append (List.nodup_singleton _) (by simpa using hactive)
  declared := List.forall_mem_append.mpr ⟨h.declared, by simpa using hdeclared⟩
  once := h.once
  disjoint := List.forall_mem_append.mpr ⟨h.disjoint, by simpa using hkept⟩

theorem Sound.done (h : r.Sound plan) (hactive : name ∉ r.active) (hkept : name ∉ r.kept) :
    Sound plan ⟨r.active, r.kept ++ [name]⟩ where
  nodup := h.nodup
  declared := h.declared
  once := h.once.append (List.nodup_singleton _) (by simpa using hkept)
  disjoint n hn hmem := by
    rcases List.mem_append.mp hmem with hmem | hmem
    · exact h.disjoint n hn hmem
    · exact hactive (List.mem_singleton.mp hmem ▸ hn)

/-- What was active before the last is so soundly. -/
theorem Sound.left {active kept : List String} (h : Sound plan ⟨active ++ [name], kept⟩) :
    Sound plan ⟨active, kept⟩ where
  nodup := h.nodup.of_append_left
  declared n hn := h.declared n (List.mem_append_left _ hn)
  once := h.once
  disjoint n hn := h.disjoint n (List.mem_append_left _ hn)

/-- **No more is active than is declared.** -/
theorem Sound.length_le (h : r.Sound plan) : r.active.length ≤ plan.names.eraseDups.length :=
  (List.subperm_of_subset h.nodup fun name hname =>
    List.mem_eraseDups.mpr (h.declared name hname)).length_le

end Reckoning

/-- The reckoning of an evaluation as it stands. -/
def Table.reckoned (t : Table Value) (active : List String) : Reckoning := ⟨active, t.keys⟩

namespace Table

variable {t : Table Value} {e : EvaluationId} {active : List String} {name : String} {v : Value}

theorem not_mem_keys (h : t.get? name = none) : name ∉ t.keys := by
  rw [← Table.isSome_get?_iff, h]
  exact Bool.false_ne_true

@[simp] theorem tell_starts : (t.reckoned active).tell e (.starts e (.computes name)) =
    t.reckoned (active ++ [name]) := if_pos rfl

@[simp] theorem tell_failed {failure : Failure} :
    (t.reckoned (active ++ [name])).tell e (.ends e (.computes name) (.failed failure)) =
      t.reckoned active := by
  rw [Reckoning.tell, if_pos rfl, reckoned, List.dropLast_concat]
  rfl

/-- A value that is kept for the first time is reckoned with last. -/
theorem tell_done (h : name ∉ t.keys) :
    (t.reckoned (active ++ [name])).tell e (.ends e (.computes name) .done) =
      (t.insert name v).reckoned active := by
  rw [Reckoning.tell, if_pos rfl, reckoned, List.dropLast_concat, if_pos rfl, reckoned,
    Table.keys_insert_of_not_mem _ h]

end Table

namespace Plan.Computes

variable {plan : Plan} {e : EvaluationId} {active : List String} {t t' : Table Value}
  {marks past : List Mark} {name : String}

/-- **At the end it is reckoned what the evaluation has come to**: the same is active as before. -/
theorem after_eq (h : plan.Computes e active t marks t') :
    (t.reckoned active).after e marks = t'.reckoned active := by
  induction h with
  | nil => rfl
  | other hm _ ih => rwa [Reckoning.after_cons, Reckoning.tell_other hm]
  | failed _ _ _ _ _ ihinner ihrest =>
    rw [List.cons_append, Reckoning.after_cons, Table.tell_starts, Reckoning.after_append, ihinner,
      Reckoning.after_cons, Table.tell_failed, ihrest]
  | done _ _ hkept hinner _ ihinner ihrest =>
    rw [List.cons_append, Reckoning.after_cons, Table.tell_starts, Reckoning.after_append, ihinner,
      Reckoning.after_cons, Table.tell_done (Table.not_mem_keys (hinner.get?_of_inner hkept)),
      ihrest]

/-- A prefix of what is told of one attribute and then of others stops before it begins, while it is
computed, or later. -/
theorem prefix_cases {first last : Mark} {inner rest : List Mark}
    (h : past <+: first :: inner ++ last :: rest) :
    past = [] ∨ (∃ past', past' <+: inner ∧ past = first :: past') ∨
      ∃ past', past' <+: rest ∧ past = first :: inner ++ last :: past' := by
  rw [List.cons_append] at h
  obtain rfl | ⟨past₁, rfl, h₁⟩ := List.prefix_cons_iff.mp h
  · exact .inl rfl
  refine .inr ?_
  obtain hinner | ⟨past₂, rfl⟩ := List.prefix_or_prefix_of_prefix h₁ (List.prefix_append inner _)
  · exact .inl ⟨past₁, hinner, rfl⟩
  · obtain rfl | ⟨past₃, rfl, h₃⟩ :=
      List.prefix_cons_iff.mp ((List.prefix_append_right_inj inner).mp h₁)
    · exact .inl ⟨inner, List.prefix_rfl, by rw [List.append_nil]⟩
    · exact .inr ⟨past₃, h₃, rfl⟩

/-- **At every moment** the reckoning is sound, and what was active before still is. -/
theorem sound_of_prefix (h : plan.Computes e active t marks t')
    (hsound : (t.reckoned active).Sound plan) (hpast : past <+: marks) :
    ((t.reckoned active).after e past).Sound plan ∧
      active <+: ((t.reckoned active).after e past).active := by
  induction h generalizing past with
  | nil =>
    rw [List.prefix_nil.mp hpast]
    exact ⟨hsound, List.prefix_rfl⟩
  | other hm _ ih =>
    obtain rfl | ⟨past', rfl, hrest⟩ := List.prefix_cons_iff.mp hpast
    · exact ⟨hsound, List.prefix_rfl⟩
    · rw [Reckoning.after_cons, Reckoning.tell_other hm]
      exact ih hsound hrest
  | @failed active t t₁ t' name failure inner rest hdeclared hactive hkept hinner _ ihinner ihrest =>
    have hbegun : (t.reckoned (active ++ [name])).Sound plan :=
      hsound.starts hdeclared hactive (Table.not_mem_keys hkept)
    obtain rfl | ⟨past', hinside, rfl⟩ | ⟨past', hlater, rfl⟩ := prefix_cases hpast
    · exact ⟨hsound, List.prefix_rfl⟩
    · obtain ⟨hthen, hwas⟩ := ihinner hbegun hinside
      rw [Reckoning.after_cons, Table.tell_starts]
      exact ⟨hthen, (List.prefix_append _ _).trans hwas⟩
    · have hended := (ihinner hbegun List.prefix_rfl).1
      rw [hinner.after_eq] at hended
      rw [List.cons_append, Reckoning.after_cons, Table.tell_starts, Reckoning.after_append,
        hinner.after_eq, Reckoning.after_cons, Table.tell_failed]
      exact ihrest hended.left hlater
  | @done active t t₁ t' name v inner rest hdeclared hactive hkept hinner _ ihinner ihrest =>
    have hbegun : (t.reckoned (active ++ [name])).Sound plan :=
      hsound.starts hdeclared hactive (Table.not_mem_keys hkept)
    obtain rfl | ⟨past', hinside, rfl⟩ | ⟨past', hlater, rfl⟩ := prefix_cases hpast
    · exact ⟨hsound, List.prefix_rfl⟩
    · obtain ⟨hthen, hwas⟩ := ihinner hbegun hinside
      rw [Reckoning.after_cons, Table.tell_starts]
      exact ⟨hthen, (List.prefix_append _ _).trans hwas⟩
    · have hnew := Table.not_mem_keys (hinner.get?_of_inner hkept)
      have hended := (ihinner hbegun List.prefix_rfl).1
      rw [hinner.after_eq] at hended
      rw [List.cons_append, Reckoning.after_cons, Table.tell_starts, Reckoning.after_append,
        hinner.after_eq, Reckoning.after_cons, Table.tell_done hnew]
      refine ihrest ?_ hlater
      rw [Table.reckoned, Table.keys_insert_of_not_mem _ hnew]
      exact hended.left.done hactive hnew

end Plan.Computes

/-! ## 3. How often an attribute is computed -/

/-- Whether a mark tells that an attribute could not be computed. -/
def Mark.fails (e : EvaluationId) (name : String) : Mark → Bool
  | .ends e' (.computes name') (.failed _) => e' = e && name' = name
  | _ => false

/-- An attribute is kept as often as it has been computed. -/
theorem Reckoning.count_kept_after (e : EvaluationId) (r : Reckoning) (marks : List Mark)
    (name : String) : (r.after e marks).kept.count name =
      r.kept.count name + marks.count (.ends e (.computes name) .done) := by
  induction marks generalizing r with
  | nil => rfl
  | cons m marks ih =>
    rw [after_cons, ih, List.count_cons]
    have htell : (r.tell e m).kept.count name = r.kept.count name +
        if m == .ends e (.computes name) .done then 1 else 0 := by
      unfold tell
      split
      · split <;> simp
      · rename_i e' name' ending
        by_cases he : e' = e
        · by_cases hending : ending = .done
          · simp [he, hending, List.count_append, List.count_singleton]
          · simp [he, hending]
        · simp [he]
      · rename_i h
        rw [beq_eq_false_iff_ne.mpr fun heq => h e name .done heq]
        rfl
    omega

namespace Plan.Computes

variable {plan : Plan} {e : EvaluationId} {active : List String} {t t' : Table Value}
  {marks past rest : List Mark} {name : String}

/-- **Each attempt at an attribute ends**: with its value, or with a failure. -/
theorem count_starts (h : plan.Computes e active t marks t') (name : String) :
    marks.count (.starts e (.computes name)) =
      marks.count (.ends e (.computes name) .done) + marks.countP (Mark.fails e name) := by
  induction h with
  | nil => rfl
  | @other _ _ _ m rest hm _ ih =>
    have hstarts : m ≠ .starts e (.computes name) := by
      rintro rfl
      simp [Mark.computes] at hm
    have hends : m ≠ .ends e (.computes name) .done := by
      rintro rfl
      simp [Mark.computes] at hm
    have hfails : Mark.fails e name m = false := by
      unfold Mark.fails
      split
      · simp only [Mark.computes, decide_eq_false_iff_not] at hm
        simp [hm]
      · rfl
    rw [List.count_cons_of_ne hstarts, List.count_cons_of_ne hends, List.countP_cons_of_neg, ih]
    rw [hfails]
    exact Bool.false_ne_true
  | @failed _ _ _ _ name' _ inner rest _ _ _ _ _ ihinner ihrest =>
    by_cases hname : name' = name
    · simp [Mark.fails, hname, ihinner, ihrest]
      omega
    · simp [Mark.fails, hname, ihinner, ihrest]
      omega
  | @done _ _ _ _ name' _ inner rest _ _ _ _ _ ihinner ihrest =>
    by_cases hname : name' = name
    · simp [Mark.fails, hname, ihinner, ihrest]
      omega
    · simp [Mark.fails, hname, ihinner, ihrest]
      omega

/-- Only what is declared is computed. -/
theorem declared_of_starts (h : plan.Computes e active t marks t')
    (hmem : .starts e (.computes name) ∈ marks) : name ∈ plan.names := by
  induction h with
  | nil => cases hmem
  | other hm _ ih =>
    rcases List.mem_cons.mp hmem with rfl | hmem
    · simp [Mark.computes] at hm
    · exact ih hmem
  | failed hdeclared _ _ _ _ ihinner ihrest | done hdeclared _ _ _ _ ihinner ihrest =>
    simp only [List.cons_append, List.mem_cons, List.mem_append, Mark.starts.injEq,
      Deed.computes.injEq, true_and, reduceCtorEq, false_or] at hmem
    rcases hmem with rfl | hmem | hmem
    · exact hdeclared
    · exact ihinner hmem
    · exact ihrest hmem

/-- **An attribute is computed once at most.** -/
theorem count_done_le (h : plan.Computes e active t marks t')
    (hsound : (t.reckoned active).Sound plan) (name : String) :
    marks.count (.ends e (.computes name) .done) ≤ 1 := by
  have honce := List.nodup_iff_count_le_one.mp (h.sound_of_prefix hsound List.prefix_rfl).1.once name
  rw [Reckoning.count_kept_after] at honce
  omega

/-- **What is computed again has not been computed yet**: all that was done for it has failed. -/
theorem done_not_mem (h : plan.Computes e active t marks t')
    (hsound : (t.reckoned active).Sound plan)
    (hmarks : marks = past ++ .starts e (.computes name) :: rest) :
    .ends e (.computes name) .done ∉ past := by
  intro hmem
  have hprefix : past ++ [.starts e (.computes name)] <+: marks :=
    ⟨rest, by rw [hmarks, List.append_assoc]; rfl⟩
  have hnow := (h.sound_of_prefix hsound hprefix).1
  rw [Reckoning.after_append, Reckoning.after_cons, Reckoning.after_nil] at hnow
  have hactive : name ∈ (((t.reckoned active).after e past).tell e
      (.starts e (.computes name))).active := by
    rw [Reckoning.tell, if_pos rfl]
    exact List.mem_append_right _ (List.mem_singleton.mpr rfl)
  refine hnow.disjoint name hactive ?_
  rw [Reckoning.tell, if_pos rfl, ← List.count_pos_iff, Reckoning.count_kept_after]
  exact Nat.add_pos_right _ (List.count_pos_iff.mpr hmem)

end Plan.Computes

end TraitFactory
