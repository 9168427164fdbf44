import Mathlib.Data.List.Nodup
import Mathlib.Tactic.MkIffOfInductiveProp
import TraitFactory.Settings.Loading

/-!
# What comes of loading settings

Settings are read from a file that is asked for or found, and from the environment. Most of what can
be wrong with them is told as an error of settings. The rest is not: it is said here what that is, and
what the settings are otherwise.
-/

namespace TraitFactory

/-! ## 1. Failures of reading TOML -/

/-- **A failure that is the text's fault**: it is malformed, or a whole number in it is too long. -/
def Cause.IsOfText (c : Cause) : Prop := c = .malformedToml ∨ ∃ digits, c = .unreadable digits

namespace Toml

/-- An outcome that is the text's fault, if it is a failure. -/
def Blames {α : Type} (x : Except Cause α) : Prop := ∀ c, x = .error c → c.IsOfText

section Blaming

variable {α β : Type}

theorem blames_ok (x : α) : Blames (.ok x) := fun _ h => by cases h

theorem blames_malformed : Blames (.error .malformedToml : Except Cause α) := fun _ h => by
  cases h
  exact .inl rfl

theorem blames_require (x : Option α) : Blames (require x) := by
  cases x with
  | none => exact blames_malformed
  | some x => exact blames_ok x

theorem Blames.bind {x : Except Cause α} {f : α → Except Cause β} (h : Blames x)
    (hf : ∀ y, Blames (f y)) : Blames (x >>= f) := by
  intro c hc
  cases x with
  | error c' =>
    cases hc
    exact h c rfl
  | ok y => exact hf y c hc

theorem blames_readLimited (cs : Rest) : Blames (readLimited cs) := by
  unfold readLimited
  split
  · split
    · exact blames_ok _
    · intro c hc
      cases hc
      exact .inr ⟨_, rfl⟩
  · exact blames_require _

theorem blames_readScalar (cs : Rest) : Blames (readScalar cs) := by
  unfold readScalar
  split
  · exact blames_ok _
  · exact blames_ok _
  · split
    · exact blames_require _
    · split
      · exact blames_require _
      · split
        · exact blames_ok _
        · exact blames_readLimited _
  · exact blames_malformed

/-- The readers of values and of what values are made of, each with the fuel of the one before it. -/
theorem blames_readers (fuel : Nat) :
    (∀ cs, Blames (readValue fuel cs)) ∧ (∀ acc cs, Blames (readItems fuel acc cs)) ∧
      (∀ cs, Blames (readPair fuel cs)) ∧
      ∀ closed entries cs, Blames (readInline fuel closed entries cs) := by
  induction fuel with
  | zero =>
    exact ⟨fun _ => blames_malformed, fun _ _ => blames_malformed, fun _ => blames_malformed,
      fun _ _ _ => blames_malformed⟩
  | succ fuel ih =>
    obtain ⟨hvalue, hitems, hpair, hinline⟩ := ih
    refine ⟨fun cs => ?_, fun acc cs => ?_, fun cs => ?_, fun closed entries cs => ?_⟩
    · unfold readValue
      split
      · refine (blames_require _).bind fun cs => ?_
        split
        · exact blames_ok _
        · exact (hitems _ _).bind fun _ => blames_ok _
      · split
        · exact blames_ok _
        · exact (hinline _ _ _).bind fun _ => blames_ok _
      · exact blames_readScalar _
    · unfold readItems
      refine (hvalue _).bind fun ⟨v, cs⟩ => (blames_require _).bind fun cs => ?_
      split
      · exact blames_ok _
      · refine (blames_require _).bind fun cs => ?_
        split
        · exact blames_ok _
        · exact hitems _ _
      · exact blames_malformed
    · unfold readPair
      refine (blames_require _).bind fun ⟨key, cs⟩ => ?_
      dsimp only
      split
      · exact (hvalue _).bind fun _ => blames_ok _
      · exact blames_malformed
    · unfold readInline
      refine (hpair _).bind fun ⟨⟨key, v⟩, cs⟩ => ?_
      dsimp only
      split
      · exact blames_malformed
      · refine (blames_require _).bind fun entries => ?_
        split
        · exact blames_ok _
        · exact hinline _ _ _
        · exact blames_malformed

theorem Document.blames_statement (d : Document) (cs : Rest) : Blames (d.statement cs) := by
  unfold Document.statement
  split
  · refine (blames_require _).bind fun ⟨key, cs⟩ => ?_
    dsimp only
    split
    · exact (blames_require _).bind fun _ => blames_ok _
    · exact blames_malformed
  · refine (blames_require _).bind fun ⟨key, cs⟩ => ?_
    dsimp only
    split
    · exact (blames_require _).bind fun _ => blames_ok _
    · exact blames_malformed
  · exact ((blames_readers _).2.2.1 _).bind fun _ => (blames_require _).bind fun _ => blames_ok _

theorem Document.blames_lines (fuel : Nat) (d : Document) (cs : Rest) :
    Blames (Document.lines fuel d cs) := by
  induction fuel generalizing d cs with
  | zero => exact blames_malformed
  | succ fuel ih =>
    unfold Document.lines
    split
    · exact blames_ok _
    · exact ih _ _
    · dsimp only
      split
      on_goal 2 => refine (d.blames_statement _).bind fun r => ?_
      -- What follows the statement of a line is the same as where there is none.
      all_goals
        refine (blames_require _).bind fun cs => ?_
        split
        · exact blames_ok _
        · exact ih _ _
        · exact blames_malformed

/-- **Where a text is no document** that is the text's fault. -/
theorem blames_read (s : String) : Blames (read s) := by
  intro c hc
  rw [read] at hc
  rcases hlines : Document.lines _ {} (normalizeLines s.toList) with c' | d <;> rw [hlines] at hc
  · cases hc
    exact Document.blames_lines _ _ _ _ hlines
  · cases hc

end Blaming

end Toml

/-! ## 2. Settings of a table -/

/-- An error of settings. -/
def Cause.IsOfSettings (c : Cause) : Prop := ∃ message, c = .badSettings message

namespace Settings

/-- **Settings that follow a table**, where other settings are the usual ones. -/
@[mk_iff]
structure FollowsOver (s usual : Settings) (t : Table SettingValue) : Prop where
  known : ∀ key ∈ t.keys, isKnown key
  stubIdStart : (t.get? "stub_id_start").getD (.int usual.stubIdStart) = .int s.stubIdStart
  useParentStrategy : (t.get? "use_parent_strategy").getD (.bool usual.useParentStrategy) =
    .bool s.useParentStrategy
  cachePlans : (t.get? "cache_plans").getD (.bool usual.cachePlans) = .bool s.cachePlans
  logLevel : (t.get? "log_level").getD (.text usual.logLevel) = .text s.logLevel

/-- The first entry of a table with others. -/
theorem get?_cons (key key' : String) (v : SettingValue) (entries : List (String × SettingValue)) :
    (⟨(key, v) :: entries⟩ : Table SettingValue).get? key' =
      if key = key' then some v else (⟨entries⟩ : Table SettingValue).get? key' := by
  rw [Table.get?, List.find?_cons]
  by_cases h : key = key'
  · simp [h]
  · simp [h, Table.get?]

theorem isKnown_iff {key : String} : isKnown key ↔ key = "stub_id_start" ∨
    key = "use_parent_strategy" ∨ key = "cache_plans" ∨ key = "log_level" := by
  refine ⟨fun h => ?_, fun h => ?_⟩
  · refine Decidable.byContradiction fun hother => ?_
    simp only [not_or] at hother
    obtain ⟨hid, hfollow, hcache, hlevel⟩ := hother
    rw [isKnown, types, List.lookup_cons, beq_eq_false_iff_ne.mpr hid] at h
    simp [List.lookup_cons, beq_eq_false_iff_ne.mpr hfollow, beq_eq_false_iff_ne.mpr hcache,
      beq_eq_false_iff_ne.mpr hlevel] at h
  · obtain rfl | rfl | rfl | rfl := h <;> rfl

/-- **Taking over all entries of a table**, none of whose keys is there twice. -/
theorem assignAll_eq_ok_iff {usual s : Settings} {entries : List (String × SettingValue)}
    (h : (entries.map (·.1)).Nodup) :
    usual.assignAll entries = .ok s ↔ s.FollowsOver usual ⟨entries⟩ := by
  induction entries generalizing usual with
  | nil =>
    refine ⟨fun hs => ?_, fun hs => ?_⟩
    · cases hs
      exact ⟨nofun, rfl, rfl, rfl, rfl⟩
    · obtain ⟨-, h₁, h₂, h₃, h₄⟩ := hs
      cases usual
      cases s
      cases h₁
      cases h₂
      cases h₃
      cases h₄
      rfl
  | cons e entries ih =>
    obtain ⟨key, v⟩ := e
    obtain ⟨hnew, hrest⟩ := List.nodup_cons.mp h
    have hnone : (⟨entries⟩ : Table SettingValue).get? key = none := by
      rw [← Option.not_isSome_iff_eq_none, Table.isSome_get?_iff]
      exact hnew
    have hkeys : (⟨(key, v) :: entries⟩ : Table SettingValue).keys =
        key :: (⟨entries⟩ : Table SettingValue).keys := rfl
    have hfirst : usual.assign key v >>= (fun s₁ => s₁.assignAll entries) = .ok s ↔
        s.FollowsOver usual ⟨(key, v) :: entries⟩ := by
      unfold assign
      split
      case h_5 hint hfollow hcache hlevel =>
        refine iff_of_false nofun fun hs => ?_
        have hvalue : (⟨(key, v) :: entries⟩ : Table SettingValue).get? key = some v := by
          rw [get?_cons, if_pos rfl]
        obtain rfl | rfl | rfl | rfl := isKnown_iff.mp (hs.known key List.mem_cons_self)
        · exact hint _ rfl (by simpa [hvalue] using hs.stubIdStart)
        · exact hfollow _ rfl (by simpa [hvalue] using hs.useParentStrategy)
        · exact hcache _ rfl (by simpa [hvalue] using hs.cachePlans)
        · exact hlevel _ rfl (by simpa [hvalue] using hs.logLevel)
      all_goals
        show assignAll _ entries = .ok s ↔ _
        rw [ih hrest]
        simp [followsOver_iff, get?_cons, hnone, hkeys, isKnown_iff]
    exact hfirst

/-- **Settings that follow a table** and the level that the environment asks for, which comes before
that of the table. Where neither says anything, they are the usual ones. -/
@[mk_iff]
structure Follows (s : Settings) (level : Option String) (t : Table SettingValue) : Prop where
  known : ∀ key ∈ t.keys, isKnown key
  stubIdStart : (t.get? "stub_id_start").getD (.int ({} : Settings).stubIdStart) =
    .int s.stubIdStart
  useParentStrategy : (t.get? "use_parent_strategy").getD
    (.bool ({} : Settings).useParentStrategy) = .bool s.useParentStrategy
  cachePlans : (t.get? "cache_plans").getD (.bool ({} : Settings).cachePlans) =
    .bool s.cachePlans
  logLevel : ∃ chosen, ((level.map SettingValue.text).or (t.get? "log_level")).getD
    (.text ({} : Settings).logLevel) = .text chosen ∧ s.logLevel = Text.capitals chosen
  listed : s.logLevel ∈ logLevels

theorem unknownKeys_eq_nil_iff {t : Table SettingValue} :
    unknownKeys t = [] ↔ ∀ key ∈ t.keys, isKnown key := by
  have hperm := List.mergeSort_perm (t.keys.filter fun key => !isKnown key)
    fun a b => !Text.before b a
  have hnil : unknownKeys t = [] ↔ t.keys.filter (fun key => !isKnown key) = [] :=
    ⟨fun h => (hperm.symm.trans (.of_eq h)).eq_nil, fun h => (hperm.trans (.of_eq h)).eq_nil⟩
  rw [hnil, List.filter_eq_nil_iff]
  simp only [Bool.not_eq_true', Bool.not_eq_false]

theorem checkLogLevel_eq_ok_iff {s s' : Settings} : s.checkLogLevel = .ok s' ↔
    Text.capitals s.logLevel ∈ logLevels ∧
      s' = { s with logLevel := Text.capitals s.logLevel } := by
  rw [checkLogLevel]
  split
  · rename_i hlisted
    exact ⟨fun h => ⟨List.contains_iff_mem.mp hlisted, (Except.ok.inj h).symm⟩,
      fun h => congrArg Except.ok h.2.symm⟩
  · rename_i hlisted
    exact iff_of_false nofun fun h => hlisted (List.contains_iff_mem.mpr h.1)

end Settings

namespace Table

variable {α : Type} {t : Table α}

theorem nodup_keys_insert (h : t.keys.Nodup) (key : String) (v : α) :
    (t.insert key v).keys.Nodup := by
  by_cases hmem : key ∈ t.keys
  · rwa [keys_insert_of_mem v hmem]
  · rw [keys_insert_of_not_mem v hmem]
    exact List.nodup_append.mpr ⟨h, List.nodup_singleton key, fun a ha b hb => by
      rw [List.mem_singleton.mp hb]
      exact fun heq => hmem (heq ▸ ha)⟩

theorem nodup_keys_ofList (entries : List (String × α)) : (ofList entries).keys.Nodup := by
  have hall : ∀ t : Table α, t.keys.Nodup →
      (entries.foldl (fun t e => t.insert e.1 e.2) t).keys.Nodup := by
    induction entries with
    | nil => exact fun _ h => h
    | cons e entries ih => exact fun t h => ih _ (nodup_keys_insert h e.1 e.2)
  exact hall ∅ List.nodup_nil

end Table

namespace Settings

/-- **Settings of a table** are those that follow it. -/
theorem ofTable_eq_ok_iff {s : Settings} {t : Table SettingValue} (h : t.keys.Nodup) :
    ofTable t = .ok s ↔ s.Follows none t := by
  rw [ofTable]
  split
  · rename_i hknown
    refine ⟨fun hs => ?_, fun hs => ?_⟩
    · rcases hall : ({} : Settings).assignAll t.entries with c | s₀ <;> rw [hall] at hs
      · cases hs
      · obtain ⟨hlisted, rfl⟩ := checkLogLevel_eq_ok_iff.mp hs
        have hfollows := (assignAll_eq_ok_iff h).mp hall
        exact ⟨hfollows.known, hfollows.stubIdStart, hfollows.useParentStrategy,
          hfollows.cachePlans, ⟨_, hfollows.logLevel, rfl⟩, hlisted⟩
    · obtain ⟨chosen, hchosen, hlevel⟩ := hs.logLevel
      have hfollows : ({ s with logLevel := chosen } : Settings).FollowsOver {} t :=
        ⟨hs.known, hs.stubIdStart, hs.useParentStrategy, hs.cachePlans, hchosen⟩
      rw [(assignAll_eq_ok_iff h).mpr hfollows]
      refine checkLogLevel_eq_ok_iff.mpr ⟨hlevel ▸ hs.listed, ?_⟩
      rw [← hlevel]
  · rename_i hunknown
    exact iff_of_false nofun fun hs => hunknown (unknownKeys_eq_nil_iff.mpr hs.known)

/-- The level of the environment is put in the place of that of the table. -/
theorem follows_insert_iff {s : Settings} {t : Table SettingValue} (level : String) :
    s.Follows none (t.insert "log_level" (.text level)) ↔ s.Follows (some level) t := by
  have hkeys : (∀ key ∈ (t.insert "log_level" (.text level)).keys, isKnown key) ↔
      ∀ key ∈ t.keys, isKnown key := by
    by_cases hmem : "log_level" ∈ t.keys
    · rw [Table.keys_insert_of_mem _ hmem]
    · rw [Table.keys_insert_of_not_mem _ hmem, List.forall_mem_append]
      exact and_iff_left (List.forall_mem_singleton.mpr rfl)
  have hother : ∀ key, key ≠ "log_level" →
      (t.insert "log_level" (.text level)).get? key = t.get? key := fun key hkey =>
    Table.get?_insert_of_ne _ _ hkey
  rw [follows_iff, follows_iff, hkeys, hother _ (by decide), hother _ (by decide),
    hother _ (by decide), Table.get?_insert_self]
  rfl

theorem ofTable_withEnvironment_iff {s : Settings} {env : Environment}
    {entries : List (String × SettingValue)} : ofTable (withEnvironment env entries) = .ok s ↔
      s.Follows (levelOf env) (Table.ofList entries) := by
  have hnodup := Table.nodup_keys_ofList entries
  rw [withEnvironment]
  cases levelOf env with
  | none => exact ofTable_eq_ok_iff hnodup
  | some level =>
    exact (ofTable_eq_ok_iff (Table.nodup_keys_insert hnodup _ _)).trans (follows_insert_iff level)

/-- **Whatever else is wrong with a table** is an error of settings. -/
theorem isOfSettings_of_ofTable {t : Table SettingValue} {c : Cause} (h : ofTable t = .error c) :
    c.IsOfSettings := by
  have hassign : ∀ (entries : List (String × SettingValue)) (usual : Settings) (c : Cause),
      usual.assignAll entries = .error c → c.IsOfSettings := by
    intro entries
    induction entries with
    | nil => exact fun _ _ h => by cases h
    | cons e entries ih =>
      intro usual c hc
      rw [assignAll] at hc
      rcases hfirst : usual.assign e.1 e.2 with c' | s <;> rw [hfirst] at hc
      · cases hc
        unfold assign at hfirst
        split at hfirst <;> cases hfirst
        exact ⟨_, rfl⟩
      · exact ih s c hc
  rw [ofTable] at h
  split at h
  · rcases hall : ({} : Settings).assignAll t.entries with c' | s <;> rw [hall] at h
    · cases h
      exact hassign _ _ _ hall
    · replace h : s.checkLogLevel = .error c := h
      rw [checkLogLevel] at h
      split at h <;> cases h
      exact ⟨_, rfl⟩
  · cases h
    exact ⟨_, rfl⟩

end Settings

/-! ## 3. Settings of a document -/

namespace Toml

/-- The entries of a table as pairs. -/
def asPairs (entries : Entries) : List (Toml × Toml) := entries.map fun e => (.text e.1, e.2)

/-- What is no pair is so by its type, or has too few or too many parts. -/
theorem cause_of_pair {index : Nat} {v : Toml} {c : Cause} (h : pair index v = .error c) :
    c = .wrongType none ∨ ∃ parts, c = .badPair index parts := by
  unfold pair at h
  dsimp only at h
  split at h
  · split at h <;> cases h <;> exact .inl rfl
  · cases h
    exact .inr ⟨_, rfl⟩
  · cases h
    exact .inl rfl

theorem cause_of_pairs {items : List Toml} {index : Nat} {c : Cause}
    (h : pairs index items = .error c) :
    c = .wrongType none ∨ ∃ index parts, c = .badPair index parts := by
  induction items generalizing index with
  | nil => cases h
  | cons item items ih =>
    rw [pairs] at h
    rcases hfirst : pair index item with c' | e <;> rw [hfirst] at h
    · cases h
      exact (cause_of_pair hfirst).imp_right fun hparts => ⟨index, hparts⟩
    · rcases hrest : pairs (index + 1) items with c' | rest <;> rw [hrest] at h
      · cases h
        exact ih hrest
      · cases h

theorem cause_of_asEntries {v : Toml} {c : Cause} (h : v.asEntries = .error c) :
    c = .wrongType none ∨ ∃ index parts, c = .badPair index parts := by
  cases v with
  | table entries => cases h
  | list items => exact cause_of_pairs h
  | text s => exact cause_of_pairs h
  | _ =>
    cases h
    exact .inl rfl

end Toml

namespace Settings

/-- The values of entries, as settings. -/
def values (entries : Toml.Entries) : List (String × SettingValue) :=
  entries.map fun e => (e.1, e.2.settingValue)

theorem textKeys_asPairs (entries : Toml.Entries) :
    textKeys (Toml.asPairs entries) = .ok (values entries) := by
  induction entries with
  | nil => rfl
  | cons e entries ih =>
    have hcons : Toml.asPairs (e :: entries) = (.text e.1, e.2) :: Toml.asPairs entries := rfl
    rw [textKeys] at ih ⊢
    rw [hcons, List.mapM_cons, ih]
    rfl

/-- **Pairs are entries**, or one of them has no text for a key. -/
theorem asPairs_or_error (pairs : List (Toml × Toml)) :
    (∃ entries, pairs = Toml.asPairs entries) ∨
      textKeys pairs = .error (.wrongType none) ∧ ∃ e ∈ pairs, ∀ key, e.1 ≠ .text key := by
  induction pairs with
  | nil => exact .inl ⟨[], rfl⟩
  | cons e pairs ih =>
    obtain ⟨k, v⟩ := e
    cases k with
    | text key =>
      obtain ⟨entries, rfl⟩ | ⟨hfails, e, he, hkey⟩ := ih
      · exact .inl ⟨(key, v) :: entries, rfl⟩
      · refine .inr ⟨?_, e, List.mem_cons_of_mem _ he, hkey⟩
        rw [textKeys] at hfails ⊢
        rw [List.mapM_cons, hfails]
        rfl
    | _ => exact .inr ⟨by rw [textKeys, List.mapM_cons]; rfl, _, List.mem_cons_self, nofun⟩

/-- **What a document says** of settings: all of it, unless it is the project's, which says it in a
table for the tool in the table of tools. A list of pairs can stand for that. -/
inductive Says (path : PathName) (doc : Toml.Entries) : Toml.Entries → Prop
  | own (h : path.name ≠ projectFileName) : Says path doc doc
  | project {tools entries : Toml.Entries} (h : path.name = projectFileName)
      (htools : (doc.lookup "tool").getD (.table []) = .table tools)
      (hentries : ((tools.lookup toolName).getD (.table [])).asEntries =
        .ok (Toml.asPairs entries)) : Says path doc entries

/-- **How a project's document is out of place**: its tools are no table, or what they have for the
tool is neither a table nor a list of pairs, or such a list, but the keys are not all texts. -/
inductive Misplaces (path : PathName) (doc : Toml.Entries) : Cause → Prop
  | tools {v : Toml} (h : path.name = projectFileName) (htools : doc.lookup "tool" = some v)
      (hv : ∀ tools, v ≠ .table tools) : Misplaces path doc (.noAttribute none)
  | entries {tools : Toml.Entries} {v : Toml} {c : Cause} (h : path.name = projectFileName)
      (htools : doc.lookup "tool" = some (.table tools)) (hv : tools.lookup toolName = some v)
      (hentries : v.asEntries = .error c) : Misplaces path doc c
  | keys {tools : Toml.Entries} {v : Toml} {pairs : List (Toml × Toml)} {e : Toml × Toml}
      (h : path.name = projectFileName) (htools : doc.lookup "tool" = some (.table tools))
      (hv : tools.lookup toolName = some v) (hentries : v.asEntries = .ok pairs) (he : e ∈ pairs)
      (hkey : ∀ key, e.1 ≠ .text key) : Misplaces path doc (.wrongType none)

/-- The values that a document says, or why it is out of place. -/
def saidBy (path : PathName) (doc : Toml.Entries) : Except Cause (List (String × SettingValue)) :=
  sectionOf path doc >>= textKeys

variable {path : PathName} {doc entries : Toml.Entries} {c : Cause}

theorem saidBy_of_says (h : Says path doc entries) : saidBy path doc = .ok (values entries) := by
  cases h with
  | own h =>
    rw [saidBy, sectionOf, if_neg h]
    exact textKeys_asPairs _
  | project h htools hentries =>
    rw [saidBy, sectionOf, if_pos h, htools]
    show ((Toml.asEntries _) >>= textKeys) = _
    rw [hentries]
    exact textKeys_asPairs _

theorem saidBy_of_misplaces (h : Misplaces path doc c) : saidBy path doc = .error c := by
  cases h with
  | @tools v h htools hv =>
    rw [saidBy, sectionOf, if_pos h, htools]
    cases v with
    | table tools => exact absurd rfl (hv tools)
    | _ => rfl
  | entries h htools hv hentries =>
    rw [saidBy, sectionOf, if_pos h, htools]
    show (((List.lookup _ _).getD (Toml.table [])).asEntries >>= textKeys) = _
    rw [hv, Option.getD_some, hentries]
    rfl
  | @keys tools v pairs e h htools hv hentries he hkey =>
    rw [saidBy, sectionOf, if_pos h, htools]
    show (((List.lookup _ _).getD (Toml.table [])).asEntries >>= textKeys) = _
    rw [hv, Option.getD_some, hentries]
    obtain ⟨entries, rfl⟩ | ⟨hfails, -⟩ := asPairs_or_error pairs
    · obtain ⟨entry, -, rfl⟩ := List.mem_map.mp he
      exact absurd rfl (hkey entry.1)
    · exact hfails

theorem says_or_misplaces (path : PathName) (doc : Toml.Entries) :
    (∃ entries, Says path doc entries) ∨ ∃ c, Misplaces path doc c := by
  by_cases h : path.name = projectFileName
  · -- What is not there is an empty table.
    have hempty : (Toml.table []).asEntries = .ok (Toml.asPairs []) := rfl
    rcases htools : doc.lookup "tool" with _ | v
    · have hnone : (doc.lookup "tool").getD (.table []) = .table [] := by
        rw [htools]
        rfl
      exact .inl ⟨[], .project h hnone hempty⟩
    · cases v with
      | table tools =>
        rcases hv : tools.lookup toolName with _ | v
        · exact .inl ⟨[], .project h (by rw [htools]; rfl) (by rw [hv]; exact hempty)⟩
        · rcases hentries : v.asEntries with c | pairs
          · exact .inr ⟨c, .entries h htools hv hentries⟩
          · obtain ⟨entries, rfl⟩ | ⟨-, e, he, hkey⟩ := asPairs_or_error pairs
            · exact .inl ⟨entries, .project h (by rw [htools]; rfl) (by rw [hv]; exact hentries)⟩
            · exact .inr ⟨_, .keys h htools hv hentries he hkey⟩
      | _ => exact .inr ⟨_, .tools h htools nofun⟩
  · exact .inl ⟨doc, .own h⟩

theorem not_isOfSettings_of_misplaces (h : Misplaces path doc c) : ¬ c.IsOfSettings := by
  rintro ⟨message, rfl⟩
  cases h with
  | entries _ _ _ hentries => obtain h | ⟨_, _, h⟩ := Toml.cause_of_asEntries hentries <;> cases h

end Settings

/-! ## 4. The file that is read -/

namespace Settings

/-- The file that holds nothing but settings, as it is searched for. -/
def ownPath : PathName := (⟨[], ""⟩ : PathName).append fileName

/-- The project's file, as it is searched for. -/
def projectPath : PathName := (⟨[], ""⟩ : PathName).append projectFileName

/-- Whether a document has something for the tool among its tools. -/
def mentionsTool (doc : Toml.Entries) : Except Cause Bool :=
  ((doc.lookup "tool").getD (.table [])).mentions toolName

/-- **The file that is chosen**: the one that is asked for, or else the file of its own that the
working folder has, or else the project's file there if it mentions the tool, or else none. -/
inductive Chooses (f : Folder) : Option PathName → Option PathName → Prop
  | asked (path : PathName) : Chooses f (some path) (some path)
  | own {bytes : ByteArray} (hown : f.read ownPath = .ok bytes) : Chooses f none (some ownPath)
  | project {bytes : ByteArray} {doc : Toml.Entries} (hown : ∀ bytes, f.read ownPath ≠ .ok bytes)
      (hread : f.read projectPath = .ok bytes) (hdoc : document bytes = .ok doc)
      (hmentions : mentionsTool doc = .ok true) : Chooses f none (some projectPath)
  | unmentioned {bytes : ByteArray} {doc : Toml.Entries}
      (hown : ∀ bytes, f.read ownPath ≠ .ok bytes) (hread : f.read projectPath = .ok bytes)
      (hdoc : document bytes = .ok doc) (hmentions : mentionsTool doc = .ok false) :
      Chooses f none none
  | missing (hown : ∀ bytes, f.read ownPath ≠ .ok bytes)
      (hproject : ∀ bytes, f.read projectPath ≠ .ok bytes) : Chooses f none none

/-- **What the chosen file says**: nothing, where there is none. -/
inductive Gives (f : Folder) (asked : Option PathName) : Toml.Entries → Prop
  | read {path : PathName} {bytes : ByteArray} {doc entries : Toml.Entries}
      (hchooses : Chooses f asked (some path)) (hread : f.read path = .ok bytes)
      (hdoc : document bytes = .ok doc) (hsaying : Says path doc entries) : Gives f asked entries
  | nothing (hchooses : Chooses f asked none) : Gives f asked []

/-- **A file that cannot be read**: there is no such file to be read, or it is malformed. -/
inductive Unreadable (f : Folder) : Option PathName → LoadProblem → Prop
  | file {path : PathName} {p : FileProblem} (hread : f.read path = .error p) (hpath : p ≠ .noPath)
      (hname : p ≠ .unwritable) : Unreadable f (some path) (.file p)
  | malformed {asked : Option PathName} {path : PathName} {bytes : ByteArray}
      (hchooses : Chooses f asked (some path)) (hread : f.read path = .ok bytes)
      (hdoc : document bytes = .error .malformedToml) : Unreadable f asked .malformed

/-- **How loading goes astray**, so that it is told as another error than one of settings: a path is
asked for that can be none; the project's file is looked into, and it is no document, or one in which
the tools can mention nothing; the chosen file holds bytes that are no text, or a number that is too
long; or what it says is out of place. -/
inductive Astray (f : Folder) : Option PathName → Cause → Prop
  | path {path : PathName} {p : FileProblem} (hread : f.read path = .error p)
      (hp : p = .noPath ∨ p = .unwritable) : Astray f (some path) (.atPath p path.text)
  | searched {bytes : ByteArray} {c : Cause} (hown : ∀ bytes, f.read ownPath ≠ .ok bytes)
      (hread : f.read projectPath = .ok bytes) (hdoc : document bytes = .error c) :
      Astray f none c
  | unmentioning {bytes : ByteArray} {doc : Toml.Entries} {c : Cause}
      (hown : ∀ bytes, f.read ownPath ≠ .ok bytes) (hread : f.read projectPath = .ok bytes)
      (hdoc : document bytes = .ok doc) (hmentions : mentionsTool doc = .error c) :
      Astray f none c
  | content {asked : Option PathName} {path : PathName} {bytes : ByteArray} {c : Cause}
      (hchooses : Chooses f asked (some path)) (hread : f.read path = .ok bytes)
      (hdoc : document bytes = .error c) (hc : c ≠ .malformedToml) : Astray f asked c
  | misplaced {asked : Option PathName} {path : PathName} {bytes : ByteArray} {doc : Toml.Entries}
      {c : Cause} (hchooses : Chooses f asked (some path)) (hread : f.read path = .ok bytes)
      (hdoc : document bytes = .ok doc) (h : Misplaces path doc c) : Astray f asked c

/-- A walk of one short step is not too long. -/
theorem walk_ne_tooLong (f : Folder) (here : List String) {name : String} {size : Nat}
    (hsize : PathName.size? name = some size) (hshort : size ≤ PathName.maxPart) :
    f.walk here [name] ≠ .error .tooLong := by
  have hend : ∀ place, f.walk place [] ≠ .error .tooLong := fun place => by
    rw [Folder.walk]
    split <;> nofun
  have hlong : (PathName.size? name).any (PathName.maxPart < ·) = false := by
    rw [hsize]
    exact decide_eq_false (Nat.not_lt.mpr hshort)
  unfold Folder.walk
  split
  · split
    · exact hend _
    · rw [hlong]
      exact hend _
  · nofun
  · nofun

theorem size_searched {name : String} (hname : name = fileName ∨ name = projectFileName) :
    ∃ size, PathName.size? name = some size ∧ size ≤ PathName.maxPart := by
  obtain rfl | rfl := hname
  · exact ⟨12, by decide +kernel, by decide⟩
  · exact ⟨14, by decide +kernel, by decide⟩

/-- What is found where a file of settings is searched for: the path itself can be one. -/
theorem find_searched (f : Folder) {name : String}
    (hname : name = fileName ∨ name = projectFileName) :
    f.find ((⟨[], ""⟩ : PathName).append name) =
      match f.entries.lookup ((⟨[], ""⟩ : PathName).append name) with
      | some e => .ok e
      | none => f.walk Folder.place [name] := by
  have hname' : name.contains '\x00' = false ∧
      ((⟨[], ""⟩ : PathName).append name).text = name := by
    obtain rfl | rfl := hname
    · exact ⟨by simp [fileName], by decide +kernel⟩
    · exact ⟨by simp [projectFileName], by decide +kernel⟩
  obtain ⟨hnull, htext⟩ := hname'
  obtain ⟨size, hsize, hshort⟩ := size_searched hname
  rw [Folder.find, htext, hsize]
  dsimp only
  have hmax : PathName.maxPart ≤ PathName.maxLength := by decide
  rw [hnull, if_neg Bool.false_ne_true, if_neg (Nat.not_lt.mpr (Nat.le_trans hshort hmax))]
  rfl

/-- **No file of settings is searched for at too long a path.** -/
theorem isFile_searched (f : Folder) {name : String}
    (hname : name = fileName ∨ name = projectFileName) :
    isFile f ((⟨[], ""⟩ : PathName).append name) =
      .ok (f.read ((⟨[], ""⟩ : PathName).append name)).isOk := by
  have hfind : f.find ((⟨[], ""⟩ : PathName).append name) ≠ .error .tooLong := by
    obtain ⟨size, hsize, hshort⟩ := size_searched hname
    rw [find_searched f hname]
    split
    · nofun
    · exact walk_ne_tooLong f _ hsize hshort
  rw [isFile, Folder.isFile, Folder.read]
  rcases hfound : f.find ((⟨[], ""⟩ : PathName).append name) with p | e
  · cases p with
    | tooLong => exact absurd hfound hfind
    | _ => rfl
  · cases e <;> rfl

section Loading

variable {f : Folder} {asked : Option PathName} {env : Environment} {path : PathName}
  {entries : Toml.Entries} {c : Cause} {p : LoadProblem}

/-- **Searching for a file of settings**: the project's is looked into where there is no other. -/
theorem findFile_eq (f : Folder) : findFile f ⟨[], ""⟩ =
    if (f.read ownPath).isOk then .ok (some ownPath)
    else match f.read projectPath with
      | .error _ => .ok none
      | .ok bytes => do
        let doc ← document bytes
        return if ← mentionsTool doc then some projectPath else none := by
  have hown : isFile f ((⟨[], ""⟩ : PathName).append fileName) = .ok (f.read ownPath).isOk :=
    isFile_searched f (.inl rfl)
  have hproject : isFile f ((⟨[], ""⟩ : PathName).append projectFileName) =
      .ok (f.read projectPath).isOk := isFile_searched f (.inr rfl)
  rw [findFile]
  dsimp only
  rw [hown, hproject]
  show (if (f.read ownPath).isOk then _ else _) = _
  split
  · rfl
  · show (if (f.read projectPath).isOk then _ else _) = _
    rcases hread : f.read projectPath with p | bytes
    · rfl
    · rw [show f.read ((⟨[], ""⟩ : PathName).append projectFileName) = .ok bytes from hread]
      show (document bytes >>= _) = (document bytes >>= _)
      refine bind_congr fun doc => ?_
      show (mentionsTool doc >>= _) = (mentionsTool doc >>= _)
      refine bind_congr fun m => ?_
      cases m <;> rfl

theorem not_isOk (h : ∀ bytes, f.read path ≠ .ok bytes) : ¬ (f.read path).isOk = true := by
  rcases hread : f.read path with p | bytes
  · nofun
  · exact absurd hread (h bytes)

/-- **What is searched for is found.** -/
theorem findFile_of_chooses {chosen : Option PathName} (h : Chooses f none chosen) :
    findFile f ⟨[], ""⟩ = .ok chosen := by
  rw [findFile_eq]
  cases h with
  | own hown =>
    rw [hown]
    rfl
  | project hown hread hdoc hmentions =>
    rw [if_neg (not_isOk hown), hread]
    dsimp only
    rw [hdoc]
    show (mentionsTool _ >>= _) = _
    rw [hmentions]
    rfl
  | unmentioned hown hread hdoc hmentions =>
    rw [if_neg (not_isOk hown), hread]
    dsimp only
    rw [hdoc]
    show (mentionsTool _ >>= _) = _
    rw [hmentions]
    rfl
  | missing hown hproject =>
    rw [if_neg (not_isOk hown)]
    rcases hread : f.read projectPath with p | bytes
    · rfl
    · exact absurd hread (hproject bytes)

/-- A failure of which nothing more is told. -/
def plain (c : Cause) : LoadFailure := ⟨c, none⟩

/-- The settings of the entries of a file and of the environment. -/
def settle (env : Environment) (pairs : List (Toml × Toml)) : Except LoadFailure Settings :=
  (textKeys pairs).mapError plain >>= fun entries =>
    (ofTable (withEnvironment env entries)).mapError plain

theorem load_of_chooses_none (h : Chooses f asked none) : load f env asked = settle env [] := by
  cases asked with
  | some path => cases h
  | none =>
    rw [load]
    dsimp only
    rw [findFile_of_chooses h]
    rfl

theorem load_of_chooses (env : Environment) (h : Chooses f asked (some path)) :
    ∃ shown, load f env asked = readFile f path shown >>= settle env := by
  cases asked with
  | some path =>
    cases h
    exact ⟨path, rfl⟩
  | none =>
    refine ⟨path.below f.location, ?_⟩
    rw [load]
    dsimp only
    rw [findFile_of_chooses h]
    rfl

/-- A file that can be read is as good as its document. -/
theorem readFile_of_read {shown : PathName} {bytes : ByteArray} (hread : f.read path = .ok bytes) :
    readFile f path shown = match document bytes with
      | .error .malformedToml =>
        .error ⟨.badSettings ("Cannot read config " ++ shown.text), some .malformed⟩
      | .error c => .error (plain c)
      | .ok doc => (sectionOf path doc).mapError plain := by
  rw [readFile, hread]
  rfl

/-- **A document that is read** is as good as the values that it says. -/
theorem load_of_document {bytes : ByteArray} {doc : Toml.Entries} (env : Environment)
    (hchooses : Chooses f asked (some path)) (hread : f.read path = .ok bytes)
    (hdoc : document bytes = .ok doc) :
    load f env asked = (saidBy path doc).mapError plain >>= fun said =>
      (ofTable (withEnvironment env said)).mapError plain := by
  obtain ⟨shown, hload⟩ := load_of_chooses env hchooses
  rw [hload, readFile_of_read hread, hdoc, saidBy]
  dsimp only
  cases sectionOf path doc with
  | error c => rfl
  | ok pairs => rfl

theorem load_of_gives (h : Gives f asked entries) :
    load f env asked = (ofTable (withEnvironment env (values entries))).mapError plain := by
  cases h with
  | read hchooses hread hdoc hsaying =>
    rw [load_of_document env hchooses hread hdoc, saidBy_of_says hsaying]
    rfl
  | nothing hchooses =>
    rw [load_of_chooses_none hchooses]
    rfl

/-- **A file that cannot be read** is told of as an error of settings, and why it cannot. -/
theorem load_of_unreadable (env : Environment) (h : Unreadable f asked p) :
    ∃ shown : PathName, load f env asked =
      .error ⟨.badSettings ("Cannot read config " ++ shown.text), some p⟩ := by
  cases h with
  | @file path p hread hpath hname =>
    refine ⟨path, ?_⟩
    have hload : load f env (some path) = readFile f path path >>= settle env := rfl
    rw [hload, readFile, hread]
    cases p with
    | noPath => exact absurd rfl hpath
    | unwritable => exact absurd rfl hname
    | _ => rfl
  | malformed hchooses hread hdoc =>
    obtain ⟨shown, hload⟩ := load_of_chooses env hchooses
    refine ⟨shown, ?_⟩
    rw [hload, readFile_of_read hread, hdoc]
    rfl

theorem load_of_findFile (h : findFile f ⟨[], ""⟩ = .error c) :
    load f env none = .error (plain c) := by
  rw [load]
  dsimp only
  rw [h]
  rfl

/-- **Loading that goes astray** fails with nothing told of the file. -/
theorem load_of_astray (env : Environment) (h : Astray f asked c) :
    load f env asked = .error (plain c) := by
  cases h with
  | @path path p hread hp =>
    have hload : load f env (some path) = readFile f path path >>= settle env := rfl
    rw [hload, readFile, hread]
    obtain rfl | rfl := hp <;> rfl
  | searched hown hread hdoc =>
    apply load_of_findFile
    rw [findFile_eq, if_neg (not_isOk hown), hread]
    dsimp only
    rw [hdoc]
    rfl
  | unmentioning hown hread hdoc hmentions =>
    apply load_of_findFile
    rw [findFile_eq, if_neg (not_isOk hown), hread]
    dsimp only
    rw [hdoc]
    show (mentionsTool _ >>= _) = _
    rw [hmentions]
    rfl
  | content hchooses hread hdoc hc =>
    obtain ⟨shown, hload⟩ := load_of_chooses env hchooses
    rw [hload, readFile_of_read hread, hdoc]
    cases c with
    | malformedToml => exact absurd rfl hc
    | _ => rfl
  | misplaced hchooses hread hdoc hmisplaces =>
    rw [load_of_document env hchooses hread hdoc, saidBy_of_misplaces hmisplaces]
    rfl

theorem not_isOfSettings_of_document {bytes : ByteArray} (h : document bytes = .error c) :
    ¬ c.IsOfSettings := by
  rintro ⟨message, rfl⟩
  rw [document] at h
  split at h
  · cases h
  · obtain h | ⟨digits, h⟩ := Toml.blames_read _ _ h <;> cases h

theorem not_isOfSettings_of_mentionsTool {doc : Toml.Entries} (h : mentionsTool doc = .error c) :
    ¬ c.IsOfSettings := by
  rintro ⟨message, rfl⟩
  rw [mentionsTool] at h
  unfold Toml.mentions at h
  split at h <;> cases h

theorem not_isOfSettings_of_astray (h : Astray f asked c) : ¬ c.IsOfSettings := by
  cases h with
  | path _ hp =>
    rintro ⟨message, hmessage⟩
    obtain rfl | rfl := hp <;> cases hmessage
  | searched _ _ hdoc => exact not_isOfSettings_of_document hdoc
  | unmentioning _ _ _ hmentions => exact not_isOfSettings_of_mentionsTool hmentions
  | content _ _ hdoc _ => exact not_isOfSettings_of_document hdoc
  | misplaced _ _ _ hmisplaces => exact not_isOfSettings_of_misplaces hmisplaces

/-- A chosen file that can be read says something, is malformed or leads astray. -/
theorem gives_of_read {bytes : ByteArray} (hchooses : Chooses f asked (some path))
    (hread : f.read path = .ok bytes) :
    (∃ entries, Gives f asked entries) ∨ (∃ p, Unreadable f asked p) ∨ ∃ c, Astray f asked c := by
  rcases hdoc : document bytes with c | doc
  · by_cases hc : c = .malformedToml
    · subst hc
      exact .inr (.inl ⟨_, .malformed hchooses hread hdoc⟩)
    · exact .inr (.inr ⟨c, .content hchooses hread hdoc hc⟩)
  · obtain ⟨entries, hsaying⟩ | ⟨c, hmisplaces⟩ := says_or_misplaces path doc
    · exact .inl ⟨entries, .read hchooses hread hdoc hsaying⟩
    · exact .inr (.inr ⟨c, .misplaced hchooses hread hdoc hmisplaces⟩)

/-- **Every way that loading can go**: the chosen file gives entries, cannot be read or leads
astray. -/
theorem gives_or_unreadable_or_astray (f : Folder) (asked : Option PathName) :
    (∃ entries, Gives f asked entries) ∨ (∃ p, Unreadable f asked p) ∨ ∃ c, Astray f asked c := by
  cases asked with
  | some path =>
    rcases hread : f.read path with p | bytes
    · by_cases hp : p = .noPath ∨ p = .unwritable
      · exact .inr (.inr ⟨_, .path hread hp⟩)
      · obtain ⟨hpath, hname⟩ := not_or.mp hp
        exact .inr (.inl ⟨_, .file hread hpath hname⟩)
    · exact gives_of_read (.asked path) hread
  | none =>
    rcases hown : f.read ownPath with _ | bytes
    · have hnone : ∀ bytes, f.read ownPath ≠ .ok bytes := fun bytes h => by cases hown ▸ h
      rcases hread : f.read projectPath with _ | bytes
      · exact .inl ⟨[], .nothing (.missing hnone fun bytes h => by cases hread ▸ h)⟩
      · rcases hdoc : document bytes with c | doc
        · exact .inr (.inr ⟨c, .searched hnone hread hdoc⟩)
        · rcases hmentions : mentionsTool doc with c | _ | _
          · exact .inr (.inr ⟨c, .unmentioning hnone hread hdoc hmentions⟩)
          · exact .inl ⟨[], .nothing (.unmentioned hnone hread hdoc hmentions)⟩
          · exact gives_of_read (.project hnone hread hdoc hmentions) hread
    · exact gives_of_read (.own hown) hown

/-- **What comes of loading settings.** It succeeds with settings just where they follow what the
chosen file says, with the level of the environment before that of the file and the usual values for
what neither says. It fails with an error of settings, unless it goes astray; and where it goes
astray, it fails with another error. -/
theorem load_settles (f : Folder) (env : Environment) (asked : Option PathName) :
    (∀ s, load f env asked = .ok s ↔ ∃ entries, Gives f asked entries ∧
      s.Follows (levelOf env) (Table.ofList (values entries))) ∧
    (∀ failure, load f env asked = .error failure →
      failure.cause.IsOfSettings ∨ Astray f asked failure.cause) ∧
    ∀ c, Astray f asked c → load f env asked = .error ⟨c, none⟩ ∧ ¬ c.IsOfSettings := by
  have hgives : ∀ {s entries}, Gives f asked entries → (load f env asked = .ok s ↔
      s.Follows (levelOf env) (Table.ofList (values entries))) := fun {s entries} h => by
    rw [load_of_gives h, ← ofTable_withEnvironment_iff]
    cases ofTable (withEnvironment env (values entries)) with
    | error c => exact iff_of_false nofun nofun
    | ok s' => exact ⟨fun h => congrArg _ (Except.ok.inj h), fun h => congrArg _ (Except.ok.inj h)⟩
  refine ⟨fun s => ⟨fun hs => ?_, fun ⟨entries, h, hfollows⟩ => (hgives h).mpr hfollows⟩,
    fun failure hfailure => ?_, fun c h => ⟨load_of_astray env h, not_isOfSettings_of_astray h⟩⟩
  · obtain ⟨entries, h⟩ | ⟨p, h⟩ | ⟨c, h⟩ := gives_or_unreadable_or_astray f asked
    · exact ⟨entries, h, (hgives h).mp hs⟩
    · obtain ⟨shown, hload⟩ := load_of_unreadable env h
      cases hload ▸ hs
    · cases load_of_astray env h ▸ hs
  · obtain ⟨entries, h⟩ | ⟨p, h⟩ | ⟨c, h⟩ := gives_or_unreadable_or_astray f asked
    · rw [load_of_gives h] at hfailure
      rcases htable : ofTable (withEnvironment env (values entries)) with c | s <;>
        rw [htable] at hfailure
      · cases hfailure
        exact .inl (isOfSettings_of_ofTable htable)
      · cases hfailure
    · obtain ⟨shown, hload⟩ := load_of_unreadable env h
      cases hload ▸ hfailure
      exact .inl ⟨_, rfl⟩
    · cases load_of_astray env h ▸ hfailure
      exact .inr h

/-- **The project's file cut short** makes loading fail with another error than one of settings,
where the file of its own with the same content makes it fail with one. -/
theorem cut_short_astray :
    load ⟨"folder", [(projectPath, .file "[tool".toUTF8)]⟩ [] none = .error ⟨.malformedToml, none⟩ ∧
      ∃ shown : PathName, load ⟨"folder", [(ownPath, .file "[tool".toUTF8)]⟩ [] none =
        .error ⟨.badSettings ("Cannot read config " ++ shown.text), some .malformed⟩ := by
  have htext : Text.ofBytes? "[tool".toUTF8.toList = some "[tool" := by decide +kernel
  have hdoc : document "[tool".toUTF8 = .error .malformedToml := by
    rw [document, htext]
    rfl
  constructor
  · have hown : Folder.read ⟨"folder", [(projectPath, .file "[tool".toUTF8)]⟩ ownPath =
        .error .missing := by
      rw [Folder.read, ownPath, find_searched _ (.inl rfl)]
      decide +kernel
    have hread : Folder.read ⟨"folder", [(projectPath, .file "[tool".toUTF8)]⟩ projectPath =
        .ok "[tool".toUTF8 := by
      rw [Folder.read, projectPath, find_searched _ (.inr rfl)]
      rfl
    exact load_of_astray [] (.searched (fun bytes h => by cases hown ▸ h) hread hdoc)
  · have hown : Folder.read ⟨"folder", [(ownPath, .file "[tool".toUTF8)]⟩ ownPath =
        .ok "[tool".toUTF8 := by
      rw [Folder.read, ownPath, find_searched _ (.inl rfl)]
      rfl
    exact load_of_unreadable [] (.malformed (.own hown) hown hdoc)

end Loading

end Settings

end TraitFactory
