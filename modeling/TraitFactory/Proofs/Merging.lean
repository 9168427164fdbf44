import Mathlib.Data.List.Induction
import TraitFactory.Proofs.Flattening

/-!
# What a plan keeps of its stack

Two ways of settling which of several counts go into one pass over the layers of a stack. Of the
declarations of one name the last counts, but at the place of the first; of the occurrences of one
callback the first counts. So nothing that a layer declares is lost, no name moves when something
is put on top of it, and nothing is called twice.
-/

namespace TraitFactory

/-! ## 1. First occurrences -/

section FirstOccurrences

variable {α : Type} [BEq α] [LawfulBEq α]

omit [LawfulBEq α] in
/-- Induction over a list of which the later occurrences of the first element are dropped. -/
theorem eraseDups_induction {P : List α → Prop} (hnil : P [])
    (hcons : ∀ x xs, P (xs.filter fun y => !y == x) → P (x :: xs)) (xs : List α) : P xs := by
  induction hn : xs.length using Nat.strongRecOn generalizing xs with
  | ind n ih =>
    cases xs with
    | nil => exact hnil
    | cons x xs =>
      have hle := List.length_filter_le (fun y => !y == x) xs
      simp only [List.length_cons] at hn
      exact hcons x xs (ih _ (by omega) _ rfl)

theorem nodup_eraseDups (xs : List α) : xs.eraseDups.Nodup := by
  induction xs using eraseDups_induction with
  | hnil => simp
  | hcons x xs ih =>
    rw [List.eraseDups_cons, List.nodup_cons]
    exact ⟨by simp, ih⟩

theorem eraseDups_of_nodup {xs : List α} (h : xs.Nodup) : xs.eraseDups = xs := by
  induction xs with
  | nil => simp
  | cons x xs ih =>
    obtain ⟨hx, hxs⟩ := List.nodup_cons.mp h
    have hfilter : xs.filter (fun y => !y == x) = xs :=
      List.filter_eq_self.mpr fun y hy => by
        have hne : y ≠ x := fun heq => hx (heq ▸ hy)
        simp [hne]
    rw [List.eraseDups_cons, hfilter, ih hxs]

/-- It does not matter whether repetitions are dropped before or after others are. -/
theorem filter_eraseDups (p : α → Bool) (xs : List α) :
    xs.eraseDups.filter p = (xs.filter p).eraseDups := by
  induction xs using eraseDups_induction with
  | hnil => simp
  | hcons x xs ih =>
    rw [List.eraseDups_cons]
    by_cases hx : p x
    · rw [List.filter_cons_of_pos hx, List.filter_cons_of_pos hx, List.eraseDups_cons, ih,
        List.filter_filter, List.filter_filter]
      simp only [Bool.and_comm]
    · -- What is left of the list is none of the repetitions of its first element.
      have hleft : (xs.filter fun y => !y == x).filter p = xs.filter p := by
        rw [List.filter_filter]
        refine List.filter_congr fun y _ => ?_
        by_cases hy : p y
        · have hne : y ≠ x := fun heq => hx (heq ▸ hy)
          simp [hy, hne]
        · simp [hy]
      rw [List.filter_cons_of_neg hx, List.filter_cons_of_neg hx, ih, hleft]

theorem eraseDups_append_eraseDups (xs ys : List α) :
    (xs ++ ys.eraseDups).eraseDups = (xs ++ ys).eraseDups := by
  rw [List.eraseDups_append, List.eraseDups_append]
  unfold List.removeAll
  rw [filter_eraseDups, eraseDups_of_nodup (nodup_eraseDups _)]

theorem eraseDups_eraseDups_append (xs ys : List α) :
    (xs.eraseDups ++ ys).eraseDups = (xs ++ ys).eraseDups := by
  rw [List.eraseDups_append, List.eraseDups_append, eraseDups_of_nodup (nodup_eraseDups _)]
  congr 2
  exact List.filter_congr fun y _ => by simp [List.elem_eq_contains]

end FirstOccurrences

/-! ## 2. Names keep their places -/

namespace AttributeSet

/-- **What is declared in a set stands behind what stands there already**, each name at the place
of its first declaration. -/
theorem names_foldl_declare {s : AttributeSet} (h : s.Keyed) (ds : List Declaration) :
    (ds.foldl declare s).names = (s.names ++ ds.map (·.name)).eraseDups := by
  induction ds generalizing s with
  | nil => simpa using (eraseDups_of_nodup h.2).symm
  | cons d ds ih =>
    rw [List.foldl_cons, ih (h.declare d), names_declare, List.map_cons]
    split
    · -- A name that stands there already is not put there again.
      rename_i hmem
      rw [List.eraseDups_append, List.eraseDups_append, List.removeAll, List.removeAll,
        List.filter_cons_of_neg (by simpa using hmem)]
    · rw [List.append_assoc, List.singleton_append]

theorem names_ofList (ds : List Declaration) : (ofList ds).names = (ds.map (·.name)).eraseDups := by
  rw [ofList, names_foldl_declare keyed_empty]
  rfl

/-- What is found under its own name is all that a set declares. -/
theorem Keyed.mem_declarations {s : AttributeSet} (h : s.Keyed) {d : Declaration} :
    d ∈ s.declarations ↔ s.get? d.name = some d := by
  constructor
  · intro hd
    obtain ⟨entry, hentry, rfl⟩ := List.mem_map.mp hd
    have hkey : entry.1 = entry.2.name := h.1 entry hentry
    -- No other entry has its name, so it is the one that is found.
    have hfind : s.table.entries.find? (·.1 = entry.2.name) = some entry := by
      rcases hfound : s.table.entries.find? (·.1 = entry.2.name) with _ | other
      · exact absurd hkey (by simpa using List.find?_eq_none.mp hfound entry hentry)
      · have hother : other.1 = entry.2.name := by simpa using List.find?_some hfound
        have hsame := List.inj_on_of_nodup_map h.2 (List.mem_of_find?_eq_some hfound) hentry
          (hother.trans hkey.symm)
        rw [hfound, hsame]
    rw [get?, Table.get?, hfind]
    rfl
  · intro hd
    rw [← h.find?_declarations] at hd
    exact List.mem_of_find?_eq_some hd

theorem Keyed.map_name {s : AttributeSet} (h : s.Keyed) :
    s.declarations.map (·.name) = s.names := by
  simp only [declarations, Table.values, names, Table.keys, List.map_map]
  exact List.map_congr_left fun e he => (h.1 e he).symm

end AttributeSet

namespace Plan

/-- One more layer adds the names that are new, at the end. -/
theorem names_flatten_append (layers above : List Layer) :
    (flatten (layers ++ above)).names =
      ((flatten layers).names ++ (above.flatMap (·.attributes)).map (·.name)).eraseDups := by
  induction above using List.reverseRecOn with
  | nil => simpa using (eraseDups_of_nodup (keyed_flatten layers).2).symm
  | append_singleton above l ih =>
    have hkeyed := keyed_flatten (layers ++ above)
    have hbelow := AttributeSet.names_ofList (flatten (layers ++ above)).declarations
    rw [hkeyed.map_name, eraseDups_of_nodup hkeyed.2] at hbelow
    -- The layer is a set of its own before it is put over those below.
    rw [← List.append_assoc, flatten, List.foldl_append, ← flatten, List.foldl_cons, List.foldl_nil,
      AttributeSet.mergeOver, AttributeSet.names_foldl_declare (AttributeSet.keyed_ofList _), hbelow,
      (AttributeSet.keyed_ofList l.attributes).map_name, AttributeSet.names_ofList,
      eraseDups_append_eraseDups, ih, eraseDups_eraseDups_append]
    simp

theorem names_flatten (layers : List Layer) :
    (flatten layers).names = ((layers.flatMap (·.attributes)).map (·.name)).eraseDups :=
  names_flatten_append [] layers

/-- **No name moves** when layers are put on top. -/
theorem names_flatten_prefix (below above : List Layer) :
    (flatten below).names <+: (flatten (below ++ above)).names := by
  rw [names_flatten_append, List.eraseDups_append, eraseDups_of_nodup (keyed_flatten below).2]
  exact List.prefix_append _ _

end Plan

/-! ## 3. Callbacks are kept once -/

/-- Whether two callbacks are one object. -/
def Callback.isSame (c c' : Callback) : Bool := c.object = c'.object

/-- Callbacks are kept when they occur first, unless they have occurred before. -/
theorem keepFirst_eq (seen : List ObjectId) (cs : List Callback) :
    keepFirst seen cs = (cs.filter (·.object ∉ seen)).eraseDupsBy Callback.isSame := by
  induction cs generalizing seen with
  | nil => simp [keepFirst]
  | cons c cs ih =>
    rw [keepFirst]
    split
    · rename_i hseen
      rw [ih, List.filter_cons_of_neg (by simpa using hseen)]
    · rename_i hseen
      rw [ih, List.filter_cons_of_pos (by simpa using hseen), List.eraseDupsBy_cons,
        List.filter_filter]
      congr 2
      refine List.filter_congr fun c' _ => ?_
      simp [Callback.isSame]

theorem sublist_keepFirst (seen : List ObjectId) (cs : List Callback) :
    (keepFirst seen cs).Sublist cs := by
  induction cs generalizing seen with
  | nil => exact .slnil
  | cons c cs ih =>
    rw [keepFirst]
    split
    · exact (ih seen).cons c
    · exact (ih _).cons_cons c

theorem countP_keepFirst (seen : List ObjectId) (cs : List Callback) (o : ObjectId) :
    (keepFirst seen cs).countP (·.object = o) =
      if o ∉ seen ∧ o ∈ cs.map (·.object) then 1 else 0 := by
  induction cs generalizing seen with
  | nil => simp [keepFirst]
  | cons c cs ih =>
    rw [keepFirst]
    split
    · rename_i hseen
      have hne : o ∉ seen → c.object ≠ o := fun ho heq => ho (heq ▸ hseen)
      rw [ih]
      grind
    · rw [List.countP_cons, ih]
      grind

/-! ## 4. Plans -/

/-- **What a plan keeps of its stack**: each name that a layer lists, once, where it is listed
first, with what the last layer that lists it declares; and each callback that a layer has, once,
where it stands first. Taken apart by their events the callbacks are still all there, in order. -/
structure Plan.Flattens (p : Plan) : Prop where
  names : p.names = ((p.layers.flatMap (·.attributes)).map (·.name)).eraseDups
  distinct : p.names.Nodup
  places : ∀ below above, p.layers = below ++ above → (Plan.flatten below).names <+: p.names
  attributes : ∀ d, d ∈ p.attributes ↔ ∃ below l above, p.layers = below ++ l :: above ∧
    l.declared? d.name = some d ∧ ∀ l' ∈ above, ∀ d' ∈ l'.attributes, d'.name ≠ d.name
  callbacks : p.callbacks = (p.layers.flatMap (·.callbacks)).eraseDupsBy Callback.isSame
  once : ∀ l ∈ p.layers, ∀ c ∈ l.callbacks, p.callbacks.countP (·.object = c.object) = 1
  events : (Event.all.flatMap p.callbacksFor).Perm p.callbacks
  ordered : ∀ e, (p.callbacksFor e).Sublist p.callbacks

/-- A layer declares no name that none of its declarations has. -/
theorem Layer.declared?_eq_none {l : Layer} {name : String} :
    l.declared? name = none ↔ ∀ d ∈ l.attributes, d.name ≠ name := by
  simp [declared?]

namespace Plan

/-- What is found from the top of a stack is what the last layer has that has anything. -/
theorem findSome?_reverse_iff {layers : List Layer} {name : String} {d : Declaration} :
    layers.reverse.findSome? (·.declared? name) = some d ↔
      ∃ below l above, layers = below ++ l :: above ∧ l.declared? name = some d ∧
        ∀ l' ∈ above, ∀ d' ∈ l'.attributes, d'.name ≠ name := by
  rw [List.findSome?_eq_some_iff]
  constructor
  · rintro ⟨above, l, below, hlayers, hl, habove⟩
    refine ⟨below.reverse, l, above.reverse, ?_, hl, fun l' hl' => ?_⟩
    · rw [← List.reverse_reverse layers, hlayers]
      simp
    · exact Layer.declared?_eq_none.mp (habove l' (List.mem_reverse.mp hl'))
  · rintro ⟨below, l, above, rfl, hl, habove⟩
    refine ⟨above.reverse, l, below.reverse, by simp, hl, fun l' hl' => ?_⟩
    exact Layer.declared?_eq_none.mpr (habove l' (List.mem_reverse.mp hl'))

/-- Every callback belongs to just one of the events. -/
theorem perm_callbacksFor (p : Plan) : (Event.all.flatMap p.callbacksFor).Perm p.callbacks := by
  rw [List.perm_iff_count]
  intro c
  have hone : ∀ e, (p.callbacksFor e).count c = if c.event = e then p.callbacks.count c else 0 := by
    intro e
    rw [callbacksFor]
    split
    · rw [List.count_filter (by simpa using ‹_›)]
    · exact List.count_eq_zero.mpr fun h => by
        simp at h
        exact ‹¬_› h.2
  rw [List.count_flatMap]
  cases hc : c.event <;> simp [Event.all, hone, hc]

/-- **Flattening keeps order, loses nothing and keeps nothing twice**, whatever the stack is. -/
theorem flattens_assemble (factory : String) (model : Value) (traits : List String)
    (layers : List Layer) : (assemble factory model traits layers).Flattens := by
  have hkeyed := keyed_flatten layers
  have hnames : (assemble factory model traits layers).names = (flatten layers).names :=
    hkeyed.map_name
  refine ⟨?_, ?_, fun below above h => ?_, fun d => ?_, ?_, fun l hl c hc => ?_, perm_callbacksFor _,
    fun e => List.filter_sublist⟩
  · rw [hnames, names_flatten]
    rfl
  · rw [hnames]
    exact hkeyed.2
  · rw [hnames, show layers = below ++ above from h]
    exact names_flatten_prefix below above
  · rw [← findSome?_reverse_iff, show (assemble factory model traits layers).attributes =
      (flatten layers).declarations from rfl, hkeyed.mem_declarations, get?_flatten]
    rfl
  · rw [show (assemble factory model traits layers).callbacks =
      keepFirst [] (layers.flatMap (·.callbacks)) from rfl, keepFirst_eq]
    simp
    rfl
  · rw [show (assemble factory model traits layers).callbacks =
      keepFirst [] (layers.flatMap (·.callbacks)) from rfl, countP_keepFirst, if_pos]
    refine ⟨List.not_mem_nil, List.mem_map.mpr ⟨c, ?_, rfl⟩⟩
    exact List.mem_flatMap.mpr ⟨l, hl, hc⟩

end Plan

end TraitFactory
