import TraitFactory.Json.Values
import TraitFactory.Proofs.Overriding

/-!
# Values that depict JSON

JSON that is made into a value has lists and objects of its own. As long as these are what they
were, the value depicts the JSON, whatever else there is; and what is written of a value that
depicts JSON is that JSON, if it can be written at all.
-/

namespace TraitFactory

/-! ## 1. The same JSON -/

namespace Json

mutual

/-- Whether two are the same JSON. -/
def same : Json → Json → Bool
  | .null, .null => true
  | .bool b, .bool b' => b = b'
  | .int n, .int n' => n = n'
  | .float x, .float x' => x = x'
  | .text s, .text s' => s = s'
  | .list items, .list items' => sameItems items items'
  | .object entries, .object entries' => sameEntries entries entries'
  | _, _ => false

def sameItems : List Json → List Json → Bool
  | [], [] => true
  | j :: js, j' :: js' => same j j' && sameItems js js'
  | _, _ => false

def sameEntries : List (String × Json) → List (String × Json) → Bool
  | [], [] => true
  | (key, j) :: js, (key', j') :: js' => key = key' && same j j' && sameEntries js js'
  | _, _ => false

end

mutual

/-- **Whether JSON is the same can be found out.** -/
theorem same_iff : (j j' : Json) → (same j j' = true ↔ j = j')
  | .list items, j' => by
    cases j' with
    | list items' => simp [same, sameItems_iff items items']
    | _ => simp [same]
  | .object entries, j' => by
    cases j' with
    | object entries' => simp [same, sameEntries_iff entries entries']
    | _ => simp [same]
  | .null, j' | .bool _, j' | .int _, j' | .float _, j' | .text _, j' => by
    cases j' <;> simp [same]

theorem sameItems_iff : (js js' : List Json) → (sameItems js js' = true ↔ js = js')
  | [], js' => by cases js' <;> simp [sameItems]
  | j :: js, js' => by
    cases js' with
    | nil => simp [sameItems]
    | cons j' js' => simp [sameItems, same_iff j j', sameItems_iff js js']

theorem sameEntries_iff :
    (js js' : List (String × Json)) → (sameEntries js js' = true ↔ js = js')
  | [], js' => by cases js' <;> simp [sameEntries]
  | (key, j) :: js, js' => by
    cases js' with
    | nil => simp [sameEntries]
    | cons e js' =>
      simp [sameEntries, Prod.ext_iff, same_iff j e.2, sameEntries_iff js js', and_assoc]

end

/-- An entry that all agree on is what is found. -/
theorem get?_of_forall {fields : List (String × Json)} {key : String} {value : Json}
    (hmem : key ∈ fields.map (·.1)) (hall : ∀ f ∈ fields, f.1 = key → f.2 = value) :
    (Json.object fields).get? key = some value := by
  induction fields with
  | nil => cases hmem
  | cons f fields ih =>
    obtain ⟨hf, hall⟩ := List.forall_mem_cons.mp hall
    rw [get?, List.lookup_cons]
    by_cases hkey : f.1 = key
    · rw [hkey, beq_self_eq_true, hf hkey]
    · have hne : (key == f.1) = false := beq_false_of_ne (Ne.symm hkey)
      rw [hne]
      rw [List.map_cons, List.mem_cons] at hmem
      exact ih (hmem.resolve_left (Ne.symm hkey)) hall

instance : DecidableEq Json := fun j j' => decidable_of_iff _ (same_iff j j')

end Json

/-! ## 2. Depicting -/

mutual

/-- **A value depicts JSON** by objects that are looked up. -/
inductive Depicts (look : ObjectId → Option Object) : Json → Value → Prop
  | null : Depicts look .null .null
  | bool (b : Bool) : Depicts look (.bool b) (.bool b)
  | int (n : Int) : Depicts look (.int n) (.int n)
  | float (serial : Nat) (x : Double) : Depicts look (.float x) (.float serial x)
  | text (s : String) : Depicts look (.text s) (.text s)
  | list {o : ObjectId} {items : List Json} {vs : List Value} (ho : look o = some (.list vs))
      (hitems : DepictsItems look items vs) : Depicts look (.list items) (.object o)
  | object {o : ObjectId} {entries : List (String × Json)} {es : List (Value × Value)}
      (ho : look o = some (.dict es)) (hentries : DepictsEntries look entries es) :
      Depicts look (.object entries) (.object o)

inductive DepictsItems (look : ObjectId → Option Object) : List Json → List Value → Prop
  | nil : DepictsItems look [] []
  | cons {j : Json} {v : Value} {js : List Json} {vs : List Value} (h : Depicts look j v)
      (hrest : DepictsItems look js vs) : DepictsItems look (j :: js) (v :: vs)

inductive DepictsEntries (look : ObjectId → Option Object) :
    List (String × Json) → List (Value × Value) → Prop
  | nil : DepictsEntries look [] []
  | cons (key : String) {j : Json} {v : Value} {js : List (String × Json)}
      {es : List (Value × Value)} (h : Depicts look j v) (hrest : DepictsEntries look js es) :
      DepictsEntries look ((key, j) :: js) ((.text key, v) :: es)

end

section Looking

variable {look look' : ObjectId → Option Object}

mutual

/-- **What objects depict they go on depicting** as long as they are what they were. -/
theorem Depicts.mono (hlook : ∀ o x, look o = some x → look' o = some x) {j : Json} {v : Value} :
    Depicts look j v → Depicts look' j v
  | .null => .null
  | .bool b => .bool b
  | .int n => .int n
  | .float serial x => .float serial x
  | .text s => .text s
  | .list ho hitems => .list (hlook _ _ ho) (hitems.mono hlook)
  | .object ho hentries => .object (hlook _ _ ho) (hentries.mono hlook)

theorem DepictsItems.mono (hlook : ∀ o x, look o = some x → look' o = some x) {js : List Json}
    {vs : List Value} : DepictsItems look js vs → DepictsItems look' js vs
  | .nil => .nil
  | .cons h hrest => .cons (h.mono hlook) (hrest.mono hlook)

theorem DepictsEntries.mono (hlook : ∀ o x, look o = some x → look' o = some x)
    {js : List (String × Json)} {es : List (Value × Value)} :
    DepictsEntries look js es → DepictsEntries look' js es
  | .nil => .nil
  | .cons key h hrest => .cons key (h.mono hlook) (hrest.mono hlook)

end

end Looking

namespace Depicts

variable {w : World} {j : Json} {v : Value}

/-- What depicts JSON is there. -/
theorem holds (h : Depicts w.heap.get? j v) : w.Holds v := by
  cases h with
  | list ho _ | object ho _ => exact Option.isSome_iff_exists.mpr ⟨_, ho⟩
  | _ => trivial

/-- What depicts JSON is no attribute value. -/
theorem attribute? (h : Depicts w.heap.get? j v) : w.heap.attribute? v = none := by
  cases h with
  | list ho _ | object ho _ => simp only [Heap.attribute?, Heap.object?, ho]
  | _ => rfl

end Depicts

/-! ## 3. Writing -/

/-- An outcome that was mapped. -/
theorem Except.ok_of_map {α β ε : Type} {f : α → β} {a : Except ε α} {b : β}
    (h : f <$> a = .ok b) : ∃ x, a = .ok x ∧ b = f x := by
  cases a with
  | error e => cases h
  | ok x => exact ⟨x, rfl, (Except.ok.inj h).symm⟩

/-- An outcome that was gone on from. -/
theorem Except.ok_of_bind {α β ε : Type} {f : α → Except ε β} {a : Except ε α} {b : β}
    (h : a >>= f = .ok b) : ∃ x, a = .ok x ∧ f x = .ok b := by
  cases a with
  | error e => cases h
  | ok x => exact ⟨x, rfl, h⟩

namespace World

/-- **A path of containers that are open**, none of them twice; more may be opened than there are
left. -/
structure Opened (w : World) (depth : Nat) (path : List ObjectId) : Prop where
  nodup : path.Nodup
  held : ∀ o ∈ path, o.index < w.heap.size
  deep : w.heap.size < depth + path.length

variable {w : World} {depth : Nat} {path : List ObjectId} {o : ObjectId}

theorem opened_nil (w : World) : w.Opened (w.heap.size + 1) [] where
  nodup := .nil
  held _ h := absurd h List.not_mem_nil
  deep := Nat.lt_succ_self _

/-- There is always room for one more. -/
theorem Opened.exists_succ (h : w.Opened depth path) : ∃ d, depth = d + 1 := by
  have hnodup : (path.map (·.index)).Nodup := h.nodup.map fun o o' heq => by
    cases o
    cases o'
    exact congrArg ObjectId.mk heq
  have hsubset : path.map (·.index) ⊆ List.range w.heap.size := fun n hn => by
    obtain ⟨o, ho, rfl⟩ := List.mem_map.mp hn
    exact List.mem_range.mpr (h.held o ho)
  have hlength := (hnodup.subperm hsubset).length_le
  rw [List.length_map, List.length_range] at hlength
  exact Nat.exists_eq_succ_of_ne_zero fun hzero => by
    have hdeep := h.deep
    omega

theorem Opened.cons (h : w.Opened (depth + 1) path) (ho : o.index < w.heap.size) (hnew : o ∉ path) :
    w.Opened depth (o :: path) where
  nodup := h.nodup.cons hnew
  held o' ho' := (List.mem_cons.mp ho').elim (· ▸ ho) (h.held o')
  deep := by
    have hdeep := h.deep
    rw [List.length_cons]
    omega

/-- What is written of a list. -/
theorem written_list {vs : List Value} {j : Json} (hpath : w.Opened depth path)
    (ho : w.heap.get? o = some (.list vs)) (h : w.writeJson depth path (.object o) = .ok j) :
    ∃ d js, w.Opened d (o :: path) ∧ vs.mapM (w.writeJson d (o :: path)) = .ok js ∧
      j = .list js := by
  obtain ⟨d, rfl⟩ := hpath.exists_succ
  rw [writeJson.eq_def] at h
  simp only [Value.asText?, ho] at h
  split at h
  · cases h
  · rename_i hnew
    obtain ⟨js, hjs, rfl⟩ := Except.ok_of_map h
    have hlt : o.index < w.heap.size := (Array.getElem?_eq_some_iff.mp ho).1
    exact ⟨d, js, hpath.cons hlt (by simpa using hnew), hjs, rfl⟩

/-- What is written of a dictionary. -/
theorem written_dict {es : List (Value × Value)} {j : Json} (hpath : w.Opened depth path)
    (ho : w.heap.get? o = some (.dict es)) (h : w.writeJson depth path (.object o) = .ok j) :
    ∃ d js, w.Opened d (o :: path) ∧ (es.mapM fun e => do
        return (← keyText e.1, ← w.writeJson d (o :: path) e.2)) = .ok js ∧ j = .object js := by
  obtain ⟨d, rfl⟩ := hpath.exists_succ
  rw [writeJson.eq_def] at h
  simp only [Value.asText?, ho] at h
  split at h
  · cases h
  · rename_i hnew
    obtain ⟨js, hjs, rfl⟩ := Except.ok_of_map h
    have hlt : o.index < w.heap.size := (Array.getElem?_eq_some_iff.mp ho).1
    exact ⟨d, js, hpath.cons hlt (by simpa using hnew), hjs, rfl⟩

/-- An entry under a text is written under it. -/
theorem written_entry {d : Nat} {key : String} {v : Value} {e : String × Json}
    (h : (do return (← keyText (.text key), ← w.writeJson d path v) : Except Cause (String × Json))
      = .ok e) : e.1 = key ∧ w.writeJson d path v = .ok e.2 := by
  obtain ⟨_, hkey, hrest⟩ := Except.ok_of_bind h
  cases hkey
  obtain ⟨j, hj, hpure⟩ := Except.ok_of_bind hrest
  cases hpure
  exact ⟨rfl, hj⟩

mutual

/-- **What is written of a value that depicts JSON is that JSON.** -/
theorem eq_of_written {w : World} {depth : Nat} {path : List ObjectId}
    (hpath : w.Opened depth path) {j j' : Json} {v : Value}
    (h : w.writeJson depth path v = .ok j') : Depicts w.heap.get? j v → j' = j
  | .null | .bool b | .float serial x | .text s => by
    rw [writeJson.eq_def] at h
    exact (Except.ok.inj h).symm
  | .int n => by
    rw [writeJson.eq_def] at h
    simp only [Value.asText?] at h
    split at h
    · exact (Except.ok.inj h).symm
    · cases h
  | .list ho hitems => by
    obtain ⟨d, js, hpath', hjs, rfl⟩ := written_list hpath ho h
    rw [eq_of_writtenItems hpath' hjs hitems]
  | .object ho hentries => by
    obtain ⟨d, js, hpath', hjs, rfl⟩ := written_dict hpath ho h
    rw [eq_of_writtenEntries hpath' hjs hentries]

theorem eq_of_writtenItems {w : World} {depth : Nat} {path : List ObjectId}
    (hpath : w.Opened depth path) {js js' : List Json} {vs : List Value}
    (h : vs.mapM (w.writeJson depth path) = .ok js') : DepictsItems w.heap.get? js vs → js' = js
  | .nil => (Except.ok.inj h).symm
  | .cons hfirst hrest => by
    rw [List.mapM_cons] at h
    obtain ⟨j, hj, h⟩ := Except.ok_of_bind h
    obtain ⟨others, hothers, hpure⟩ := Except.ok_of_bind h
    cases hpure
    rw [eq_of_written hpath hj hfirst, eq_of_writtenItems hpath hothers hrest]

theorem eq_of_writtenEntries {w : World} {depth : Nat} {path : List ObjectId}
    (hpath : w.Opened depth path) {js js' : List (String × Json)} {es : List (Value × Value)}
    (h : (es.mapM fun e => do
      return (← keyText e.1, ← w.writeJson depth path e.2)) = .ok js') :
    DepictsEntries w.heap.get? js es → js' = js
  | .nil => (Except.ok.inj h).symm
  | .cons key hfirst hrest => by
    rw [List.mapM_cons] at h
    obtain ⟨e, he, h⟩ := Except.ok_of_bind h
    obtain ⟨others, hothers, hpure⟩ := Except.ok_of_bind h
    cases hpure
    obtain ⟨hkey, hj⟩ := written_entry he
    rw [eq_of_writtenEntries hpath hothers hrest, ← hkey, ← eq_of_written hpath hj hfirst]

end

/-- What is written of a table of attributes: an entry for each of them, in order, and under each that
depicts JSON that JSON. -/
theorem fields_of_toJson {o : ObjectId} {values : List (String × Value)} {j : Json}
    (ho : w.heap.get? o = some (.dict (values.map fun a => (.text a.1, a.2))))
    (h : w.toJson (.object o) = .ok j) :
    ∃ fields, j = .object fields ∧ fields.map (·.1) = values.map (·.1) ∧
      ∀ f ∈ fields, ∃ a ∈ values, f.1 = a.1 ∧
        ∀ value, Depicts w.heap.get? value a.2 → f.2 = value := by
  obtain ⟨d, fields, hpath, hfields, rfl⟩ := written_dict (opened_nil w) ho h
  refine ⟨fields, rfl, ?_⟩
  clear ho h
  induction values generalizing fields with
  | nil =>
    cases hfields
    exact ⟨rfl, List.forall_mem_nil _⟩
  | cons a values ih =>
    rw [List.map_cons, List.mapM_cons] at hfields
    obtain ⟨f, hf, hfields⟩ := Except.ok_of_bind hfields
    obtain ⟨others, hothers, hpure⟩ := Except.ok_of_bind hfields
    cases hpure
    obtain ⟨hkey, hj⟩ := written_entry hf
    obtain ⟨hkeys, hall⟩ := ih others hothers
    refine ⟨by rw [List.map_cons, List.map_cons, hkey, hkeys], List.forall_mem_cons.mpr
      ⟨⟨a, List.mem_cons_self, hkey, fun value hvalue => eq_of_written hpath hj hvalue⟩,
        fun f' hf' => ?_⟩⟩
    obtain ⟨a', ha', hwritten⟩ := hall f' hf'
    exact ⟨a', List.mem_cons_of_mem _ ha', hwritten⟩

end World

/-! ## 4. Making -/

/-- The objects that there are in a world and were not in another. -/
def World.madeSince (w w₀ : World) (o : ObjectId) : Option Object :=
  if (w₀.heap.get? o).isSome then none else w.heap.get? o

namespace World

variable {w₀ w w' : World} {o : ObjectId} {x : Object}

theorem get?_of_madeSince (h : w.madeSince w₀ o = some x) : w.heap.get? o = some x := by
  rw [madeSince] at h
  split at h
  · cases h
  · exact h

theorem Furnished.madeSince (h : w.Furnished w') (hx : w.madeSince w₀ o = some x) :
    w'.madeSince w₀ o = some x := by
  rw [World.madeSince] at hx ⊢
  split at hx
  · cases hx
  · rename_i hnew
    rw [if_neg hnew]
    exact h.objects o x hx

end World

namespace Action

variable {w₀ w : World}

/-- An object is made. -/
theorem execute_alloc_new (h : w₀.Furnished w) (x : Object) :
    ∃ o w', (alloc x).execute w = (.ok (.object o), w') ∧ w.Furnished w' ∧
      w'.madeSince w₀ o = some x := by
  obtain ⟨_, _, hplace, hf⟩ := execute_place x w
  cases hplace
  refine ⟨⟨w.heap.size⟩, _, rfl, hf, ?_⟩
  have hnone : w₀.heap.get? ⟨w.heap.size⟩ = none := by
    rcases hold : w₀.heap.get? ⟨w.heap.size⟩ with _ | y
    · rfl
    · exact absurd (Array.getElem?_eq_some_iff.mp (h.objects _ y hold)).1 (Nat.lt_irrefl _)
  rw [World.madeSince, hnone]
  exact Array.getElem?_push_size

theorem furnished_newSerial (w : World) :
    w.Furnished { w with heap := { w.heap with serials := w.heap.serials + 1 } } :=
  ⟨fun _ _ h => h, ⟨rfl, rfl, rfl, rfl, rfl⟩⟩

mutual

/-- **JSON becomes a value that depicts it**, of which all lists and objects are new. -/
theorem execute_ofJson {w₀ w : World} (h : w₀.Furnished w) : (j : Json) →
    ∃ v w', (ofJson j).execute w = (.ok v, w') ∧ w.Furnished w' ∧ Depicts (w'.madeSince w₀) j v
  | .null => ⟨_, w, rfl, .refl w, .null⟩
  | .bool b => ⟨_, w, rfl, .refl w, .bool b⟩
  | .int n => ⟨_, w, rfl, .refl w, .int n⟩
  | .text s => ⟨_, w, rfl, .refl w, .text s⟩
  | .float x => by
    rw [ofJson]
    split
    · exact ⟨_, w, rfl, .refl w, .float 0 x⟩
    · exact ⟨_, _, rfl, furnished_newSerial w, .float _ x⟩
  | .list items => by
    obtain ⟨vs, w₁, hitems, hf, hdepicts⟩ := execute_ofJsonItems h items
    obtain ⟨o, w', halloc, hf', hnew⟩ := execute_alloc_new (h.trans hf) (.list vs)
    rw [ofJson, execute_bind_ok hitems]
    exact ⟨_, w', halloc, hf.trans hf', .list hnew (hdepicts.mono fun _ _ => hf'.madeSince)⟩
  | .object entries => by
    obtain ⟨es, w₁, hentries, hf, hdepicts⟩ := execute_ofJsonEntries h entries
    obtain ⟨o, w', halloc, hf', hnew⟩ := execute_alloc_new (h.trans hf) (.dict es)
    rw [ofJson, execute_bind_ok hentries]
    exact ⟨_, w', halloc, hf.trans hf', .object hnew (hdepicts.mono fun _ _ => hf'.madeSince)⟩

theorem execute_ofJsonItems {w₀ w : World} (h : w₀.Furnished w) : (js : List Json) →
    ∃ vs w', (ofJsonItems js).execute w = (.ok vs, w') ∧ w.Furnished w' ∧
      DepictsItems (w'.madeSince w₀) js vs
  | [] => ⟨[], w, rfl, .refl w, .nil⟩
  | j :: js => by
    obtain ⟨v, w₁, hv, hf, hdepicts⟩ := execute_ofJson h j
    obtain ⟨vs, w', hvs, hf', hothers⟩ := execute_ofJsonItems (h.trans hf) js
    refine ⟨v :: vs, w', ?_, hf.trans hf', .cons (hdepicts.mono fun _ _ => hf'.madeSince) hothers⟩
    rw [ofJsonItems, execute_bind_ok hv, execute_bind_ok hvs]
    rfl

theorem execute_ofJsonEntries {w₀ w : World} (h : w₀.Furnished w) : (js : List (String × Json)) →
    ∃ es w', (ofJsonEntries js).execute w = (.ok es, w') ∧ w.Furnished w' ∧
      DepictsEntries (w'.madeSince w₀) js es
  | [] => ⟨[], w, rfl, .refl w, .nil⟩
  | (key, j) :: js => by
    obtain ⟨v, w₁, hv, hf, hdepicts⟩ := execute_ofJson h j
    obtain ⟨es, w', hes, hf', hothers⟩ := execute_ofJsonEntries (h.trans hf) js
    refine ⟨(.text key, v) :: es, w', ?_, hf.trans hf',
      .cons key (hdepicts.mono fun _ _ => hf'.madeSince) hothers⟩
    rw [ofJsonEntries, execute_bind_ok hv, execute_bind_ok hes]
    rfl

end

end Action

end TraitFactory
