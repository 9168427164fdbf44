import TraitFactory.Proofs.Errands
import TraitFactory.Proofs.Propagation

/-!
# Synthetic ids

From the time a runner has been made or reset, its synthetic ids count on from where its settings
say. Whatever a session does, as long as nothing meddles with evaluation, each run draws one id just
when it has made a stand-in with its attributes, none of which is named `id`.
-/

namespace TraitFactory

open Action Recorded

/-! ## 1. Starting to count -/

/-- Where the settings of a runner say that ids start. -/
def World.stubIdStart? (w : World) (s : SettingsId) : Option Int :=
  (w.settingsAt? s).bind fun S =>
    (((w.extrasOf (.settings s)).get? "stub_id_start").getD S.stubIdStart).asInt?

/-- **A world in which a runner has just been made or reset**, and starts to count. -/
inductive World.Starts (host : Host) (r : RunnerId) (start : Int) : World → Prop
  | made {w w' : World} {registry : RegistryId} {settings : RunnerSettings} {follow : Bool}
      (hstart : settings.stubIdStart.asInt? = some start)
      (hfollow : ∀ w : World, w.isTrue settings.useParentStrategy = follow)
      (hmade : (newRunner registry settings).execute w = (.ok r, w')) : Starts host r start w'
  | reset {w w' : World} {c : Wiring} (hwired : w.Wired c) (hr : c.runner = some r)
      (hstart : w.stubIdStart? c.settings = some start)
      (hreset : (resetRunner host r).execute w = (.ok (), w')) : Starts host r start w'

/-- The frame of what leaves evaluation alone and sets no names on anything. -/
def Frame.unnamed : Frame where
  rel w w' := w.Idle w' ∧ w'.extras = w.extras
  refl w := ⟨Frame.idle.refl w, rfl⟩
  trans h h' := ⟨Frame.idle.trans h.1 h'.1, h'.2.trans h.2⟩

namespace Action

variable {w w' : World} {c : Wiring} {r : RunnerId} {start : Int}

/-- A name that was set on settings hides the setting. -/
theorem execute_getAttr_settings {s : SettingsId} {S : RunnerSettings}
    (hS : w.settingsAt? s = some S) (host : Host) :
    (getAttr host (.settings s) "stub_id_start").execute w =
      (.ok (((w.extrasOf (.settings s)).get? "stub_id_start").getD S.stubIdStart), w) := by
  have hparts : (partsOf (.settings s)).execute w = (.ok (Parts.ofSettings S), w) := by
    show (getSettings s >>= fun S => pure (Parts.ofSettings S)).execute w = _
    rw [execute_bind_ok (execute_getSettings hS)]
    rfl
  show (plainField (.settings s) "stub_id_start").execute w = _
  rw [plainField, execute_bind_ok (execute_get w), execute_bind_ok hparts]
  rcases (w.extrasOf (.settings s)).get? "stub_id_start" with _ | x <;> rfl

theorem execute_getAttr_stubIdStart {s : SettingsId} (h : w.stubIdStart? s = some start)
    (host : Host) : ∃ v, v.asInt? = some start ∧
      (getAttr host (.settings s) "stub_id_start").execute w = (.ok v, w) := by
  obtain ⟨S, hS, hv⟩ := Option.bind_eq_some_iff.mp h
  exact ⟨_, hv, execute_getAttr_settings hS host⟩

/-- **An evaluator starts to count anew** from where its settings say. -/
theorem execute_resetIds {host : Host} {ev : EvaluatorId} {E : Evaluator} {s : SettingsId}
    (hE : w.evaluator? ev = some E) (hsettings : E.settings = .settings s)
    (hstart : w.stubIdStart? s = some start) : (resetIds host ev).execute w =
      (.ok (), w.modifyEvaluator ev fun E => { E with nextId := .int start }) := by
  rw [resetIds, execute_bind_ok (execute_getEvaluator hE), hsettings]
  obtain ⟨v, hv, hget⟩ := execute_getAttr_stubIdStart hstart host
  rw [execute_bind_ok hget, execute_bind_ok (execute_firstId hv w)]
  rfl

theorem unnamed_resetRegistry (registry : RegistryId) :
    Keeps .unnamed (resetRegistry registry) := by
  have hmodify : ∀ f, Keeps .unnamed (modifyRegistry registry f) := fun f =>
    keeps_modify fun w => ⟨⟨rfl, rfl, rfl, rfl⟩, rfl⟩
  have hclear : ∀ t, Keeps .unnamed (clearTable t) := by
    intro t
    unfold clearTable
    split
    · exact keeps_pure _
    · refine keeps_get_bind fun w => ?_
      dsimp only
      split
      · exact ⟨⟨rfl, rfl, rfl, rfl⟩, rfl⟩
      · exact keeps_bind keeps_noAttribute (fun _ => keeps_pure _) w
  refine keeps_bind (keeps_getRegistry registry) fun reg => keeps_bind (hclear _) fun _ =>
    keeps_bind (hmodify _) fun _ => keeps_bind (hclear _) fun _ => keeps_bind (hmodify _) fun _ =>
    keeps_bind (hmodify _) fun _ => ?_
  exact keeps_modify fun w => ⟨⟨rfl, rfl, rfl, rfl⟩, rfl⟩

/-- **A runner that has been reset** counts from where its settings say. -/
theorem nextId?_of_resetRunner {host : Host} (hwired : w.Wired c) (hr : c.runner = some r)
    (hstart : w.stubIdStart? c.settings = some start)
    (h : (resetRunner host r).execute w = (.ok (), w')) :
    w'.Wired c ∧ w'.nextId? c.evaluator = some (.int start) := by
  obtain ⟨registry, w₁, hregistry, hrest⟩ := ok_of_execute_bind h
  obtain ⟨_, w₂, hcleared, hrest⟩ := ok_of_execute_bind hrest
  have hkept : Frame.unnamed.rel w w₂ := by
    have h₁ := keeps_registryOf (F := .unnamed) r w
    have h₂ := unnamed_resetRegistry registry w₁
    rw [hregistry] at h₁
    rw [hcleared] at h₂
    exact Frame.unnamed.trans h₁ h₂
  have hwired₂ := hwired.upheld hkept.1.upheld
  have hstart₂ : w₂.stubIdStart? c.settings = some start := by
    rw [World.stubIdStart?, World.settingsAt?, hkept.1.settings, World.extrasOf, hkept.2]
    exact hstart
  rw [execute_bind_ok (execute_evaluatorOf hwired₂ hr)] at hrest
  obtain ⟨E, hE, hsettings, _⟩ := hwired₂.evaluator
  rw [execute_resetIds hE hsettings hstart₂] at hrest
  cases hrest
  have hupheld : w₂.Upheld
      (w₂.modifyEvaluator c.evaluator fun E => { E with nextId := .int start }) :=
    { World.Upheld.refl w₂ with
      evaluators := (World.Upheld.refl w₂).evaluators.modify
        (fun _ _ _ hxy hyz => ⟨hyz.1.trans hxy.1, hyz.2.trans hxy.2⟩) _ fun _ _ => ⟨rfl, rfl⟩ }
  refine ⟨hwired₂.upheld hupheld, ?_⟩
  show Option.map _ (w₂.evaluators.modify c.evaluator.index _)[c.evaluator.index]? = _
  rw [Array.getElem?_modify, if_pos rfl]
  show Option.map _ (Option.map _ (w₂.evaluator? c.evaluator)) = _
  rw [hE]
  rfl

end Action

/-- A runner that starts to count is wired. -/
theorem World.Starts.wired {host : Host} {r : RunnerId} {start : Int} {w : World}
    (h : w.Starts host r start) :
    ∃ c : Wiring, c.runner = some r ∧ w.Wired c ∧ w.nextId? c.evaluator = some (.int start) := by
  cases h with
  | made hstart hfollow hmade =>
    obtain ⟨c, hr, _, hwired, hfirst⟩ := wired_newRunner hfollow hmade
    exact ⟨c, hr, hwired, hfirst start hstart⟩
  | reset hwired hr hstart hreset =>
    exact ⟨_, hr, nextId?_of_resetRunner hwired hr hstart hreset⟩

/-! ## 2. Accounts -/

/-- **The account of a session**: which ids were drawn, for which of the runs that are told of. -/
structure Account (spared : Plan → Prop) (start : Int) (marks : List Mark) (ds : List Draw) :
    Prop where
  /-- The ids count on from the first one. -/
  ids : ds.map (·.id) = (List.range ds.length).map fun i : Nat => .int (start + i)
  /-- No id is drawn twice. -/
  unique : (ds.map (·.id)).Nodup
  /-- No run begins twice. -/
  distinct : (marks.filterMap Mark.begins?).Nodup
  numbered : ∀ e plan s cause, .begins e plan s cause ∈ marks →
    plan.Numbered (spared plan) e s marks ds
  /-- No other run draws an id. -/
  stubbed : ∀ d ∈ ds, ∃ plan cause, .begins d.evaluation plan .buildStubbed cause ∈ marks
  /-- What an association asks for has a smaller id than what holds it. -/
  nested : ∀ e' plan s e a, .begins e' plan s (some (e, a)) ∈ marks → ∀ d ∈ ds, ∀ d' ∈ ds,
    d.evaluation = e → d'.evaluation = e' →
    ∃ i j : Nat, i < j ∧ d'.id = .int (start + i) ∧ d.id = .int (start + j)

/-- What is told and drawn from where counting starts is an account. -/
theorem Tally.account {spared : Plan → Prop} {ev : EvaluatorId} {w w' : World} {marks : List Mark}
    {ds : List Draw} {start : Int} (h : Tally spared ev .whole w marks ds w')
    (hstart : w.nextId? ev = some (.int start)) : Account spared start marks ds := by
  have hids := (h.draws.ids hstart).1
  have hpair : ds.Pairwise fun d' d => ∃ i j : Nat, i < j ∧ d'.id = .int (start + i) ∧
      d.id = .int (start + j) := by
    have hat : ∀ i (hi : i < ds.length), ds[i].id = .int (start + i) := fun i hi => by
      have hget := congrArg (fun ids : List Value => ids[i]?) hids
      simpa [List.getElem?_map, List.getElem?_eq_getElem hi, List.getElem?_range hi] using hget
    exact List.pairwise_iff_getElem.mpr fun i j hi hj hij => ⟨i, j, hij, hat i hi, hat j hj⟩
  refine ⟨hids, ?_, h.distinct, h.numbered, fun d hd => ?_, ?_⟩
  · refine List.pairwise_map.mpr (hpair.imp fun ⟨i, j, hij, hd', hd⟩ heq => ?_)
    rw [hd', hd] at heq
    have := Value.int.inj heq
    omega
  · obtain ⟨plan, s, cause, hm⟩ := (h.origin d hd).resolve_left (fun h => by cases h)
    obtain ⟨rfl, _⟩ := (h.numbered _ plan s cause hm).drawn d hd rfl
    exact ⟨plan, cause, hm⟩
  · intro e' plan s e a hm d hd d' hd' he he'
    have hordered := hpair.sublist (h.order e' plan s e a hm d hd d' hd' he he')
    exact (List.pairwise_cons.mp hordered).1 d List.mem_cons_self

/-! ## 3. Sessions -/

namespace Activity

/-- **Synthetic ids never repeat.** From when a runner has been made or reset, a session may ask it
for runs and do other things in between, and functions that are called may do so, too, as long as
nothing meddles with evaluation. Then the ids count on from where the settings of the runner say. A
run draws one id if it is to make a stand-in, has made the instance with its attributes, and no
attribute is named `id`, and only then. -/
theorem synthetic_ids (customs : Customs) (n : Nat) {r : RunnerId} {start : Int} {w : World}
    (hstarts : w.Starts (.tower customs n) r start) (session : Activity)
    (hmild : Mild (session.perform (.tower customs r n) r w).2) : ∃ marks ev ds,
    session.perform (.tower customs r n) r w =
      ((session.run (.tower customs n)).execute w, marks) ∧
    w.evaluatorOf? r = some ev ∧
    w.Draws ev ds ((session.run (.tower customs n)).execute w).2 ∧
    ((session.run (.tower customs n)).execute w).2.nextId? ev =
      some (.int (start + ds.length)) ∧
    Account (fun plan => ∀ m ≤ n, plan.Leaves (.tower customs m)) start marks ds := by
  obtain ⟨c, hr, hwired, hfirst⟩ := hstarts.wired
  obtain ⟨marks, hmarks⟩ : ∃ marks, (session.perform (.tower customs r n) r w).2 = marks := ⟨_, rfl⟩
  have hrecords := session.records_perform (O := .tower customs r n) (r := r) w
  rw [Observed.host_tower] at hrecords
  have hbooks := Observed.books_tower (c := c) customs n hr fun plan hplan => hplan
  obtain ⟨ds, htally, _⟩ := session.books_perform hbooks hr hwired trivial hmild
  rw [hmarks, hrecords] at htally
  exact ⟨marks, c.evaluator, ds, Prod.ext hrecords hmarks, World.evaluatorOf?_of_wired hwired hr,
    htally.draws, (htally.draws.ids hfirst).2, htally.account hfirst⟩

end Activity

/-! ## 4. A visit to the library -/

/-- A visit on which a page is torn, a book is stubbed with its author, and so are two authors. -/
def Program.visit : Program :=
  let stubbed (factory : String) : RunArguments :=
    { strategy := .text "build_stubbed", factory := .text factory }
  .request (.command (.defineFactory none (.text "author") .null .null none)) fun _ =>
  .request (.command (.defineFactory none (.text "book") .null .null none)) fun book =>
  .request (.command (.associate book (.text "author") .null none none none)) fun _ =>
  .define {} (fun _ => .raise (.runtime "torn")) fun torn =>
  .request (.command (.defineFactory none (.text "page") .null .null none)) fun page =>
  .request (.command (.set page (.text "number") none torn)) fun _ =>
  .ask (.command (.run none (stubbed "page"))) fun _ =>
  .request (.command (.run none (stubbed "book"))) fun _ =>
  .request (.command (.runList none (.int 2) (stubbed "author"))) .done

namespace World

theorem wired_fresh : fresh.Wired freshWiring where
  evaluator := ⟨⟨.settings ⟨0⟩, .method 0 (.runner ⟨0⟩) associationHook,
    (default : RunnerSettings).stubIdStart⟩, rfl, rfl, 0, rfl⟩
  settings := ⟨default, rfl, fun _ => rfl⟩
  runner r hr := by
    cases hr
    exact ⟨⟨.registry ⟨0⟩, .settings ⟨0⟩, .evaluator ⟨0⟩⟩, rfl, rfl⟩

/-- A new session whose runner has been reset. -/
def opened : World := ((resetRunner (.tower .ofPrograms 5) ⟨0⟩).execute fresh).2

theorem starts_opened : opened.Starts (.tower .ofPrograms 5) ⟨0⟩ 1000 :=
  .reset wired_fresh rfl rfl (Prod.ext rfl rfl)

end World

namespace Activity

/-- The visit as a session. -/
def visit : Activity := .ofProgram (.tower .ofPrograms 5) .visit

/-- What is told of it. -/
def toldOfVisit : List Mark := (visit.perform (.tower .ofPrograms ⟨0⟩ 5) ⟨0⟩ World.opened).2

/-- **On the visit** five runs begin. The one of the page fails, and the others draw four ids. -/
theorem synthetic_ids_visit : World.opened.Starts (.tower .ofPrograms 5) ⟨0⟩ 1000 ∧
    Mild toldOfVisit ∧ toldOfVisit.filterMap Mark.begins? = [⟨0⟩, ⟨1⟩, ⟨2⟩, ⟨3⟩, ⟨4⟩] ∧
    ∃ ds : List Draw, ds.length = 4 ∧
      Account (fun plan => ∀ m ≤ 5, plan.Leaves (.tower .ofPrograms m)) 1000 toldOfVisit ds := by
  have hmild : Mild toldOfVisit := by decide +kernel
  have hlast : ((visit.run (.tower .ofPrograms 5)).execute World.opened).2.nextId? ⟨0⟩ =
      some (.int 1004) := by decide +kernel
  have hev : World.opened.evaluatorOf? ⟨0⟩ = some ⟨0⟩ := by decide +kernel
  obtain ⟨marks, ev, ds, hrun, hev', _, hnext, haccount⟩ :=
    synthetic_ids .ofPrograms 5 World.starts_opened visit hmild
  have hmarks : toldOfVisit = marks := congrArg Prod.snd hrun
  obtain rfl := Option.some.inj (hev.symm.trans hev')
  have hcount := Value.int.inj (Option.some.inj (hlast.symm.trans hnext))
  exact ⟨World.starts_opened, hmild, by decide +kernel, ds, by omega, hmarks ▸ haccount⟩

end Activity

end TraitFactory
