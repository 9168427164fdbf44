import Mathlib.Data.List.Nodup
import TraitFactory.Operations
import TraitFactory.Proofs.Handing

/-!
# What a constructor leaves to be assigned

A constructor is lent the attributes. Among all else that it does it uses the snapshot of them as it
likes, and it makes an instance. What has been given to it is its own affair, and the others are
assigned once it has returned; those apart that it has only asked after, for to ask whether there is
a key notes the key as if it had been read.
-/

namespace TraitFactory

open Action

/-! ## 1. What is lent -/

/-- **What a constructor is lent**: a snapshot of the attributes in a table, and the set in which is
noted what is read through it. -/
structure Loan where
  snapshot : ObjectId
  table : ObjectId
  read : ObjectId
  model : Value
  attributes : List (String × Value)

namespace Loan

variable (l : Loan)

def names : List String := l.attributes.map (·.1)

def entries : List (Value × Value) := l.attributes.map fun a => (.text a.1, a.2)

/-- The snapshot as it is handed to a constructor. -/
def shown : Snapshot := { table := .object l.table, model := l.model, read := .object l.read }

/-- The attribute that a key is the name of, if it is one. -/
def named? (key : Value) : Option String := key.asText?.filter l.names.contains

variable {l}

theorem named?_eq_some {key : Value} {name : String} :
    l.named? key = some name ↔ key.asText? = some name ∧ name ∈ l.names := by
  rw [named?, Option.filter_eq_some_iff, List.contains_iff_mem]

end Loan

/-- **A world in which a loan is out**, some names having been noted. -/
structure World.Lent (w : World) (l : Loan) (noted : List String) : Prop where
  snapshot : w.heap.get? l.snapshot = some (.snapshot l.shown)
  table : w.heap.get? l.table = some (.dict l.entries)
  read : ∃ members, w.heap.get? l.read = some (.set members) ∧
    ∀ name, (members.any fun m => m.asText? = some name) = noted.contains name

/-- The frame of what leaves alone what is lent. -/
def Frame.sparing (l : Loan) : Frame where
  rel w w' := ∀ o ∈ [l.snapshot, l.table, l.read], ∀ x,
    w.heap.get? o = some x → w'.heap.get? o = some x
  refl _ _ _ _ h := h
  trans h h' o ho x hx := h' o ho x (h o ho x hx)

namespace World

variable {w w' : World} {l : Loan} {noted : List String} {o o' : ObjectId} {x y : Object}

theorem Lent.spared (h : w.Lent l noted) (hspared : (Frame.sparing l).rel w w') :
    w'.Lent l noted := by
  obtain ⟨members, hmembers, hnoted⟩ := h.read
  exact ⟨hspared _ (by simp) _ h.snapshot, hspared _ (by simp) _ h.table,
    members, hspared _ (by simp) _ hmembers, hnoted⟩

theorem get?_setObject_self (h : w.heap.get? o = some x) :
    (w.setObject o y).heap.get? o = some y :=
  Array.getElem?_setIfInBounds_self_of_lt (Array.getElem?_eq_some_iff.mp h).1

theorem get?_setObject_ne (hne : o' ≠ o) :
    (w.setObject o x).heap.get? o' = w.heap.get? o' :=
  Array.getElem?_setIfInBounds_ne fun h => hne (by cases o; cases o'; cases h; rfl)

/-- An attribute is found under every key that is its name. -/
theorem entryValue?_entries (w : World) (l : Loan) (key : Value) :
    w.entryValue? l.entries key =
      key.asText?.bind fun name => (l.attributes.find? fun a => a.1 = name).map (·.2) := by
  have hsame : ∀ a : String × Value,
      w.sameKey (.text a.1) key = decide (key.asText? = some a.1) := fun a => by
    rw [w.sameKey_asText (.inl rfl)]
    exact decide_eq_decide.mpr eq_comm
  rw [entryValue?, Loan.entries, List.find?_map, Option.map_map]
  simp only [Function.comp_def, hsame]
  cases key.asText? with
  | none => simp
  | some name => simp [eq_comm]

end World

namespace Action

variable {w : World} {l : Loan} {noted : List String} {host : Host}

/-! ## 2. Reading through a snapshot -/

theorem execute_snapshot?_lent (h : w.Lent l noted) :
    (snapshot? (.object l.snapshot)).execute w = (.ok (some l.shown), w) := by
  rw [snapshot?, execute_bind_ok (execute_get w)]
  simp only [Heap.object?, h.snapshot]
  rfl

theorem entries?_table (h : w.Lent l noted) : w.entries? l.shown.table = some l.entries := by
  simp only [Loan.shown, World.entries?, h.table]

theorem entries?_snapshot (h : w.Lent l noted) : w.entries? (.object l.snapshot) = none := by
  simp only [World.entries?, h.snapshot]

theorem execute_snapshotTable (h : w.Lent l noted) :
    (snapshotTable l.shown).execute w = (.ok l.entries, w) := by
  rw [snapshotTable, execute_bind_ok (execute_get w), entries?_table h]
  rfl

/-- **What is noted** of a loan is known from then on. -/
theorem lent_noteRead (h : w.Lent l noted) {key : Value} {name : String}
    (hkey : key.asText? = some name) : ∃ w', (noteRead l.shown [key]).execute w = (.ok ⟨⟩, w') ∧
      w'.Lent l (noted ++ [name]) := by
  obtain ⟨members, hmembers, hnoted⟩ := h.read
  have hrun : (noteRead l.shown [key]).execute w = (.ok ⟨⟩, w.setObject l.read
      (.set (members ++ [key].filter fun k => !members.any (w.sameKey · k)))) := by
    rw [noteRead, execute_bind_ok (execute_get w)]
    simp only [Loan.shown, Heap.object?, hmembers]
    exact execute_modify _ _
  have hother : ∀ o x, w.heap.get? o = some x → (∀ members, x ≠ .set members) → o ≠ l.read := by
    rintro o x ho hx rfl
    exact hx members (Option.some.inj (ho.symm.trans hmembers))
  have hsame : (members.any fun m => w.sameKey m key) = noted.contains name := by
    rw [← hnoted name]
    congr 1
    funext m
    rw [w.sameKey_asText (.inr (by rw [hkey]; rfl)), hkey]
  refine ⟨_, hrun, ?_, ?_, _, World.get?_setObject_self hmembers, fun name' => ?_⟩
  · rw [World.get?_setObject_ne (hother _ _ h.snapshot fun _ hset => by cases hset)]
    exact h.snapshot
  · rw [World.get?_setObject_ne (hother _ _ h.table fun _ hset => by cases hset)]
    exact h.table
  · rw [List.any_append, hnoted, List.contains_append, List.filter_cons, hsame]
    -- A name that has been noted before is not noted twice.
    cases hmem : noted.contains name with
    | true =>
      by_cases heq : name' = name
      · rw [heq, hmem]
        rfl
      · simp [heq]
    | false => simp [hkey, eq_comm]

/-- A key that is the name of no attribute is not found, and notes nothing. -/
theorem execute_snapshotItem?_none (h : w.Lent l noted) {key : Value} (hkey : l.named? key = none) :
    ∃ r, (snapshotItem? l.shown key).execute w = (r, w) := by
  rw [snapshotItem?]
  cases hiskey : w.isKey key with
  | false =>
    have hrequire : (requireKey key).execute w = (.error (Failure.raise (.wrongType none)), w) := by
      rw [requireKey, execute_bind_ok (execute_get w), hiskey]
      rfl
    exact ⟨_, execute_bind_error hrequire⟩
  | true =>
    have hrequire : (requireKey key).execute w = (.ok ⟨⟩, w) := by
      rw [requireKey, execute_bind_ok (execute_get w), hiskey]
      rfl
    have hvalue : w.entryValue? l.entries key = none := by
      rw [w.entryValue?_entries]
      cases htext : key.asText? with
      | none => rfl
      | some name =>
        rw [Option.bind_some, Option.map_eq_none_iff, List.find?_eq_none]
        rintro a ha hname
        rw [Loan.named?, htext, Option.filter_eq_none_iff] at hkey
        refine hkey name rfl ?_
        rw [List.contains_iff_mem, ← of_decide_eq_true hname]
        exact List.mem_map_of_mem ha
    refine ⟨.ok none, ?_⟩
    rw [execute_bind_ok hrequire, execute_bind_ok (execute_get w),
      execute_bind_ok (execute_snapshotTable h), hvalue]
    rfl

/-- **A key that is the name of an attribute** is found, and the name is noted. -/
theorem execute_snapshotItem?_some (h : w.Lent l noted) {key : Value} {a : String × Value}
    (hkey : key.asText? = some a.1) (ha : a ∈ l.attributes) (hnodup : l.names.Nodup) :
    ∃ w', (snapshotItem? l.shown key).execute w = (.ok (some a.2), w') ∧
      w'.Lent l (noted ++ [a.1]) := by
  have hrequire : (requireKey key).execute w = (.ok ⟨⟩, w) := by
    rw [requireKey, execute_bind_ok (execute_get w), w.isKey_of_asText (by rw [hkey]; rfl)]
    rfl
  have hfind : (l.attributes.find? fun b => b.1 = a.1) = some a := by
    cases hb : l.attributes.find? fun b => b.1 = a.1 with
    | none => exact absurd (decide_eq_true rfl) (List.find?_eq_none.mp hb a ha)
    | some b =>
      have hname : b.1 = a.1 := by simpa using List.find?_some hb
      rw [List.inj_on_of_nodup_map hnodup (List.mem_of_find?_eq_some hb) ha hname]
  have hvalue : w.entryValue? l.entries key = some a.2 := by
    rw [w.entryValue?_entries, hkey, Option.bind_some, hfind]
    rfl
  obtain ⟨w', hnote, hlent⟩ := lent_noteRead h hkey
  refine ⟨w', ?_, hlent⟩
  rw [snapshotItem?, execute_bind_ok hrequire, execute_bind_ok (execute_get w),
    execute_bind_ok (execute_snapshotTable h), hvalue]
  exact (execute_bind_ok hnote).trans rfl

end Action

/-! ## 3. Uses of a snapshot -/

/-- **A use that a constructor makes of the snapshot** it is handed: it asks for the item under a
key, or for what is found there or else a default, or whether there is a key, in the snapshot or
among its keys, or how many there are; or it takes one element while it goes through the snapshot
or through what that shows. -/
inductive Use where
  | item (key : Value)
  | find (key default : Value)
  | holds (key : Value)
  | shows (key : Value)
  | length
  | each (i : Nat)
  | element (aspect : TableAspect) (i : Nat)

/-- The method by which a table is asked for what it shows. -/
def TableAspect.method : TableAspect → String
  | .keys => "keys"
  | .values => "values"
  | .items => "items"

namespace Use

/-- One of the elements of a walk. -/
def drawn (all : Walk) (i : Nat) : Action Value := all[i]?.getD wrongType

/-- **What a use does** and what comes of it. -/
def action (host : Host) (v : Value) : Use → Action Value
  | .item key => getItem host v key
  | .find key default => callOwn host v "get" [key, default] []
  | .holds key => do return .bool (← contains v key)
  | .shows key => do return .bool (← contains (← callOwn host v "keys" [] []) key)
  | .length => do return .int (← Action.length v)
  | .each i => do drawn (← walk v) i
  | .element aspect i => do drawn (← walk (← callOwn host v aspect.method [] [])) i

/-- The attribute whose value a use hands over. -/
def hands? (l : Loan) : Use → Option String
  | .item key | .find key _ => l.named? key
  | .element .values i | .element .items i => l.names[i]?
  | _ => none

/-- The attribute that a use only asks after. -/
def asks? (l : Loan) : Use → Option String
  | .holds key | .shows key => l.named? key
  | _ => none

/-- The attribute that is noted in a use. -/
def notes? (l : Loan) (u : Use) : Option String := (u.hands? l).or (u.asks? l)

end Use

/-- **A use that has been made**, what has come of it, and the world after it. -/
structure Exchange where
  use : Use
  outcome : Except Failure Value
  after : World

/-- **The value of an attribute is handed over**, by itself or as a pair with its name. -/
structure Exchange.Hands (l : Loan) (x : Exchange) (a : String × Value) : Prop where
  named : x.use.hands? l = some a.1
  given : x.outcome = .ok a.2 ∨ ∃ pair, x.outcome = .ok (.object pair) ∧
    x.after.heap.get? pair = some (.tuple [.text a.1, a.2])

/-- **What an exchange settles**: what has been noted now, and that whatever was to be handed over
has been. -/
structure Exchange.Settles (l : Loan) (noted : List String) (x : Exchange) : Prop where
  lent : x.after.Lent l (noted ++ (x.use.notes? l).toList)
  hands : ∀ a ∈ l.attributes, x.use.hands? l = some a.1 → x.Hands l a

/-- A use in which nothing is noted hands nothing over. -/
theorem Exchange.settles_of_unnoted {w : World} {l : Loan} {noted : List String}
    (h : w.Lent l noted) {u : Use} (hu : u.notes? l = none) (r : Except Failure Value) :
    Settles l noted ⟨u, r, w⟩ where
  lent := by
    rw [hu, Option.toList_none, List.append_nil]
    exact h
  hands a _ hhands := by
    rw [Use.notes?, hhands] at hu
    cases hu

/-- A use in which a value is handed over notes its name. -/
theorem Exchange.settles_of_handed {l : Loan} {noted : List String} {x : Exchange}
    (hnodup : l.names.Nodup) {a : String × Value} (ha : a ∈ l.attributes)
    (hlent : x.after.Lent l (noted ++ [a.1])) (hx : x.Hands l a) : x.Settles l noted where
  lent := by
    rw [Use.notes?, hx.named]
    exact hlent
  hands b hb hhands := by
    cases List.inj_on_of_nodup_map hnodup ha hb (Option.some.inj (hx.named.symm.trans hhands))
    exact hx

namespace Action

variable {w w' : World} {l : Loan} {noted : List String} {host : Host} {key : Value}

/-- A use of a method of a snapshot is a call of it. -/
theorem execute_callOwn_lent (h : w.Lent l noted) (name : String) (arguments : List Value)
    (keywords : List (String × Value)) :
    (callOwn host (.object l.snapshot) name arguments keywords).execute w =
      (callSnapshot host (.object l.snapshot) l.shown name arguments keywords).execute w := by
  show ((get : Action World) >>= _).execute w = _
  rw [execute_bind_ok (execute_get w)]
  simp only [Value.asText?, h.snapshot]
  rfl

theorem execute_getItem_lent (h : w.Lent l noted) (key : Value) :
    (getItem host (.object l.snapshot) key).execute w =
      (snapshotItem? l.shown key >>= found key).execute w := by
  show ((get : Action World) >>= _).execute w = _
  rw [execute_bind_ok (execute_get w)]
  simp only [Value.behind, entries?_snapshot h, Heap.object?, h.snapshot]
  rfl

theorem execute_find_lent (h : w.Lent l noted) (key default : Value) :
    (callOwn host (.object l.snapshot) "get" [key, default] []).execute w =
      (snapshotItem? l.shown key >>= fun x => pure (x.getD default)).execute w := by
  rw [execute_callOwn_lent h]
  show (tableFind (.object l.snapshot) key default).execute w = _
  rw [tableFind, execute_bind_ok (execute_get w), entries?_snapshot h,
    execute_bind_ok (execute_snapshot?_lent h)]

theorem execute_contains_lent (h : w.Lent l noted) (key : Value) :
    (contains (.object l.snapshot) key).execute w =
      (snapshotItem? l.shown key >>= fun x => pure x.isSome).execute w := by
  show ((get : Action World) >>= _).execute w = _
  rw [execute_bind_ok (execute_get w)]
  simp only [Value.behind, entries?_snapshot h, Heap.object?, h.snapshot]

theorem execute_length_lent (h : w.Lent l noted) :
    (Action.length (.object l.snapshot)).execute w = (.ok l.entries.length, w) := by
  show ((get : Action World) >>= _).execute w = _
  rw [execute_bind_ok (execute_get w)]
  simp only [Value.behind, entries?_snapshot h, Heap.object?, h.snapshot]
  exact execute_bind_ok (execute_snapshotTable h)

/-- A view of what is lent is made without reading it. -/
theorem execute_view_lent (host : Host) (h : w.Lent l noted) (aspect : TableAspect) : ∃ serial w',
    (callOwn host (.object l.snapshot) aspect.method [] []).execute w =
      (.ok (.tableView serial aspect (.object l.snapshot)), w') ∧ w'.Lent l noted := by
  refine ⟨w.heap.serials, (newSerial.execute w).2, ?_, h.spared fun _ _ _ hx => hx⟩
  rw [execute_callOwn_lent h]
  cases aspect <;> rfl

/-- An element of what is lent that is shown in some way. -/
def shownElement (l : Loan) (aspect : TableAspect) (a : String × Value) : Action Value :=
  match aspect with
  | .keys => return .text a.1
  | .values => do
    noteRead l.shown [.text a.1]
    return a.2
  | .items => do
    noteRead l.shown [.text a.1]
    alloc (.tuple [.text a.1, a.2])

theorem execute_walk_snapshot (h : w.Lent l noted) :
    (walk (.object l.snapshot)).execute w =
      (.ok (l.attributes.map (shownElement l .keys)), w) := by
  have hplain : (walkPlain (.object l.snapshot)).execute w =
      (.ok (l.attributes.map (shownElement l .keys)), w) := by
    show ((get : Action World) >>= _).execute w = _
    rw [execute_bind_ok (execute_get w)]
    simp only [h.snapshot]
    show (snapshotTable l.shown >>= _).execute w = _
    rw [execute_bind_ok (execute_snapshotTable h), Loan.entries, List.map_map, walkOf,
      List.map_map]
    rfl
  show ((get : Action World) >>= _).execute w = _
  rw [execute_bind_ok (execute_get w)]
  simp only [Value.behind, Heap.object?, h.snapshot]
  exact hplain

theorem execute_walk_view (h : w.Lent l noted) (serial : Nat) (aspect : TableAspect) :
    (walk (.tableView serial aspect (.object l.snapshot))).execute w =
      (.ok (l.attributes.map (shownElement l aspect)), w) := by
  show (walkTable aspect (.object l.snapshot)).execute w = _
  rw [walkTable, execute_bind_ok (execute_snapshot?_lent h), execute_bind_ok (execute_get w)]
  cases aspect with
  | keys => 
    show (snapshotTable l.shown >>= _).execute w = _
    rw [execute_bind_ok (execute_snapshotTable h), Loan.entries, List.map_map]
    rfl
  | values =>
    show (snapshotTable l.shown >>= _).execute w = _
    rw [execute_bind_ok (execute_snapshotTable h), Loan.entries, List.map_map]
    rfl
  | items =>
    show (snapshotTable l.shown >>= _).execute w = _
    rw [execute_bind_ok (execute_snapshotTable h), Loan.entries, List.map_map]
    rfl

/-- **What taking an element does**: of values and pairs the name is noted, and they are given. -/
theorem settles_drawn (h : w.Lent l noted) (hnodup : l.names.Nodup) {u : Use} {aspect : TableAspect} {i : Nat}
    (hu : u = .element aspect i ∨ aspect = .keys ∧ u = .each i) {r : Except Failure Value}
    (hdrawn : (Use.drawn (l.attributes.map (shownElement l aspect)) i).execute w = (r, w')) :
    Exchange.Settles l noted ⟨u, r, w'⟩ := by
  rw [Use.drawn, List.getElem?_map] at hdrawn
  cases ha : l.attributes[i]? with
  | none =>
    rw [ha] at hdrawn
    cases hdrawn
    refine Exchange.settles_of_unnoted h ?_ _
    have hname : l.names[i]? = none := by rw [Loan.names, List.getElem?_map, ha, Option.map_none]
    obtain rfl | ⟨-, rfl⟩ := hu
    · cases aspect <;> first | rfl | exact congrArg (Option.or · none) hname
    · rfl
  | some a =>
    rw [ha, Option.map_some, Option.getD_some] at hdrawn
    have hname : l.names[i]? = some a.1 := by rw [Loan.names, List.getElem?_map, ha, Option.map_some]
    obtain ⟨w₁, hnote, hlent⟩ := lent_noteRead h (rfl : (Value.text a.1).asText? = some a.1)
    cases aspect with
    | keys =>
      cases hdrawn
      refine Exchange.settles_of_unnoted h ?_ _
      obtain rfl | ⟨-, rfl⟩ := hu <;> rfl
    | values =>
      obtain rfl : u = .element .values i := hu.resolve_right fun h => nomatch h.1
      rw [shownElement, execute_bind_ok hnote] at hdrawn
      cases hdrawn
      exact Exchange.settles_of_handed hnodup (List.mem_of_getElem? ha) hlent ⟨hname, .inl rfl⟩
    | items =>
      obtain rfl : u = .element .items i := hu.resolve_right fun h => nomatch h.1
      rw [shownElement, execute_bind_ok hnote] at hdrawn
      cases hdrawn
      exact Exchange.settles_of_handed hnodup (List.mem_of_getElem? ha)
        (hlent.spared fun _ _ _ => get?_alloc _ _)
        ⟨hname, .inr ⟨_, rfl, Array.getElem?_push_size⟩⟩

/-- **What a lookup of a key settles**, whatever is made of what is found. -/
theorem settles_lookup (h : w.Lent l noted) (hnodup : l.names.Nodup) {u : Use}
    (hu : u.notes? l = l.named? key) {make : Option Value → Action Value}
    (hmake : ∀ x, Keeps .same (make x)) (hgives : u.hands? l ≠ none → ∀ x, make (some x) = pure x) :
    Exchange.Settles l noted ⟨u, ((snapshotItem? l.shown key >>= make).execute w).1,
      ((snapshotItem? l.shown key >>= make).execute w).2⟩ := by
  cases hkey : l.named? key with
  | none =>
    obtain ⟨r, hitem⟩ := execute_snapshotItem?_none h hkey
    have hworld : ((snapshotItem? l.shown key >>= make).execute w).2 = w := by
      rw [execute_bind, hitem]
      cases r with
      | ok x => exact hmake x w
      | error e => rfl
    rw [hworld]
    exact Exchange.settles_of_unnoted h (hu.trans hkey) _
  | some name =>
    obtain ⟨htext, hmem⟩ := Loan.named?_eq_some.mp hkey
    obtain ⟨a, ha, rfl⟩ := List.mem_map.mp hmem
    obtain ⟨w₁, hitem, hlent⟩ := execute_snapshotItem?_some h htext ha hnodup
    rw [execute_bind_ok hitem, hmake _ w₁]
    have hnotes := hu.trans hkey
    cases hhands : u.hands? l with
    | some name =>
      rw [Use.notes?, hhands] at hnotes
      cases hnotes
      rw [hgives (by rw [hhands]; nofun)]
      exact Exchange.settles_of_handed hnodup ha hlent ⟨hhands, .inl rfl⟩
    | none =>
      refine ⟨?_, fun _ _ hnamed => nomatch hhands.symm.trans hnamed⟩
      rw [hnotes]
      exact hlent

theorem keeps_found (F : Frame) (key : Value) (x : Option Value) : Keeps F (found key x) := by
  cases x with
  | some x => exact keeps_pure x
  | none => exact keeps_missing key

theorem execute_hasMember_lent (h : w.Lent l noted) (serial : Nat) (key : Value) :
    (contains (.tableView serial .keys (.object l.snapshot)) key).execute w =
      (snapshotItem? l.shown key >>= fun x => pure x.isSome).execute w := by
  show (hasMember equal (.tableView serial .keys (.object l.snapshot)) key).execute w = _
  rw [hasMember, execute_bind_ok (execute_get w)]
  dsimp only
  rw [execute_bind_ok (execute_snapshot?_lent h), entries?_snapshot h]

/-- **Every use of what is lent** notes what it hands over or asks after, and nothing else. -/
theorem settles_use (host : Host) (h : w.Lent l noted) (hnodup : l.names.Nodup) (u : Use) :
    Exchange.Settles l noted ⟨u, ((u.action host (.object l.snapshot)).execute w).1,
      ((u.action host (.object l.snapshot)).execute w).2⟩ := by
  cases u with
  | item key =>
    rw [Use.action, execute_getItem_lent h]
    exact settles_lookup (u := .item key) h hnodup Option.or_none (keeps_found _ _) fun _ _ => rfl
  | find key default =>
    rw [Use.action, execute_find_lent h]
    exact settles_lookup (u := .find key default) h hnodup Option.or_none (fun _ => keeps_pure _)
      fun _ _ => rfl
  | holds key =>
    have hrun : ((Use.holds key).action host (.object l.snapshot)).execute w =
        (snapshotItem? l.shown key >>= fun x => pure (.bool x.isSome)).execute w := by
      rw [Use.action, execute_bind, execute_contains_lent h, execute_bind, execute_bind]
      rcases (snapshotItem? l.shown key).execute w with ⟨_ | x, w'⟩ <;> rfl
    rw [hrun]
    exact settles_lookup (u := .holds key) h hnodup rfl (fun _ => keeps_pure _)
      fun hhands => absurd rfl hhands
  | shows key =>
    obtain ⟨serial, w₁, hview, hlent⟩ := execute_view_lent host h .keys
    have hrun : ((Use.shows key).action host (.object l.snapshot)).execute w =
        (snapshotItem? l.shown key >>= fun x => pure (.bool x.isSome)).execute w₁ := by
      refine (execute_bind_ok hview).trans ?_
      rw [execute_bind, execute_hasMember_lent hlent, execute_bind, execute_bind]
      rcases (snapshotItem? l.shown key).execute w₁ with ⟨_ | x, w'⟩ <;> rfl
    rw [hrun]
    exact settles_lookup (u := .shows key) hlent hnodup rfl (fun _ => keeps_pure _)
      fun hhands => absurd rfl hhands
  | length =>
    rw [Use.action, execute_bind_ok (execute_length_lent h)]
    exact Exchange.settles_of_unnoted h rfl _
  | each i =>
    rw [Use.action, execute_bind_ok (execute_walk_snapshot h)]
    exact settles_drawn h hnodup (.inr ⟨rfl, rfl⟩) rfl
  | element aspect i =>
    obtain ⟨serial, w₁, hview, hlent⟩ := execute_view_lent host h aspect
    rw [Use.action, execute_bind_ok hview, execute_bind_ok (execute_walk_view hlent serial aspect)]
    exact settles_drawn hlent hnodup (.inl rfl) rfl

end Action

/-! ## 4. What a constructor does -/

/-- **What a constructor does once it is called**: it ends, or it changes the world and goes on with
what it has found there, or it makes a use of the snapshot, or it asks the snapshot for an
instance. -/
inductive Making where
  | ends (outcome : Except Failure Value)
  | acts (change : World → World) (next : World → Making)
  | uses (use : Use) (next : Except Failure Value → Making)
  | creates (arguments : List Value) (keywords : List (String × Value))
      (next : Except Failure Value → Making)

namespace Making

variable {host : Host} {l : Loan} {w : World} {noted : List String}

/-- What a constructor does with a snapshot. -/
def run (host : Host) (v : Value) : Making → Action Value
  | .ends outcome => Action.liftExcept outcome
  | .acts change next => do
    let w ← get
    set (change w)
    (next w).run host v
  | .uses use next => do
    let outcome ← attempt (use.action host v)
    (next outcome).run host v
  | .creates arguments keywords next => do
    let outcome ← attempt (callOwn host v "new" arguments keywords)
    (next outcome).run host v

/-- **What it does, with the exchanges** that there are on the way. -/
def perform (host : Host) (v : Value) :
    Making → World → (Except Failure Value × World) × List Exchange
  | .ends outcome, w => ((outcome, w), [])
  | .acts change next, w => (next w).perform host v (change w)
  | .uses use next, w =>
    let made := (use.action host v).execute w
    let rest := (next made.1).perform host v made.2
    (rest.1, ⟨use, made.1, made.2⟩ :: rest.2)
  | .creates arguments keywords next, w =>
    let made := (callOwn host v "new" arguments keywords).execute w
    (next made.1).perform host v made.2

theorem execute_run (host : Host) (v : Value) (making : Making) (w : World) :
    (making.run host v).execute w = (making.perform host v w).1 := by
  induction making generalizing w with
  | ends outcome => cases outcome <;> rfl
  | acts change next ih => exact ih w (change w)
  | uses use next ih =>
    rw [run, execute_bind_ok (execute_attempt _ w)]
    exact ih _ _
  | creates arguments keywords next ih =>
    rw [run, execute_bind_ok (execute_attempt _ w)]
    exact ih _ _

/-- **A constructor that leaves alone what it is lent**, but for using it. -/
def Spares (host : Host) (l : Loan) : Making → Prop
  | .ends _ => True
  | .acts change next => ∀ w, (Frame.sparing l).rel w (change w) ∧ (next w).Spares host l
  | .uses _ next => ∀ outcome, (next outcome).Spares host l
  | .creates arguments keywords next =>
    Keeps (.sparing l) (instantiate host l.shown arguments keywords) ∧
      ∀ outcome, (next outcome).Spares host l

/-- Without a model, or with one that has a class, the snapshot makes an instance of its own. -/
theorem keeps_instantiate (h : l.model = .null ∨ ∃ m, l.model = .model m)
    (arguments : List Value) (keywords : List (String × Value)) :
    Keeps (.sparing l) (instantiate host l.shown arguments keywords) := by
  have hconstruct : ∀ m, Keeps (.sparing l) (construct m arguments keywords) :=
    fun m _ _ _ _ hx => get?_construct m arguments keywords hx
  unfold instantiate
  obtain hnull | ⟨m, hm⟩ := h
  · rw [show l.shown.model = .null from hnull]
    exact hconstruct _
  · rw [show l.shown.model = .model m from hm]
    exact hconstruct _

/-- The names noted in some exchanges. -/
def notedIn (l : Loan) (exchanges : List Exchange) : List String :=
  exchanges.flatMap fun x => (x.use.notes? l).toList

/-- **While a constructor does what it does**, just that is noted which it is given or asks after,
and it is given all that it should be. -/
theorem settles_perform (hnodup : l.names.Nodup) {making : Making} (hspares : making.Spares host l)
    (h : w.Lent l noted) :
    (making.perform host (.object l.snapshot) w).1.2.Lent l
        (noted ++ notedIn l (making.perform host (.object l.snapshot) w).2) ∧
      ∀ x ∈ (making.perform host (.object l.snapshot) w).2, ∀ a ∈ l.attributes,
        x.use.hands? l = some a.1 → x.Hands l a := by
  induction making generalizing w noted with
  | ends outcome =>
    refine ⟨?_, List.forall_mem_nil _⟩
    show w.Lent l (noted ++ [])
    rw [List.append_nil]
    exact h
  | acts change next ih =>
    rw [perform]
    exact ih w (hspares w).2 (h.spared (hspares w).1)
  | uses use next ih =>
    have huse := settles_use host h hnodup use
    obtain ⟨hlent, hhands⟩ := ih ((use.action host (.object l.snapshot)).execute w).1
      (hspares _) huse.lent
    refine ⟨?_, List.forall_mem_cons.mpr ⟨huse.hands, hhands⟩⟩
    rw [List.append_assoc] at hlent
    exact hlent
  | creates arguments keywords next ih =>
    rw [perform]
    refine ih _ (hspares.2 _) ?_
    rw [execute_callOwn_lent h]
    exact h.spared (hspares.1 w)

end Making

/-! ## 5. What is left to be assigned -/

/-- **What the constructor of a plan is lent** where attributes have been resolved in a world. -/
def World.loan (w : World) (plan : Plan) (table : ObjectId) (attributes : List (String × Value)) :
    Loan where
  snapshot := ⟨w.heap.size + 1⟩
  table := table
  read := ⟨w.heap.size⟩
  model := plan.model
  attributes := attributes

/-- The world in which something has been lent. -/
def World.lend (w : World) (l : Loan) : World :=
  ((alloc (.snapshot l.shown)).execute ((alloc (.set [])).execute w).2).2

namespace Action

variable {host inner : Host} {plan : Plan} {w w' : World} {l : Loan} {t p : ObjectId}
  {attributes : List (String × Value)} {members : List Value} {noted : List String} {v : Value}

theorem execute_lend (hl : l = w.loan plan t attributes) :
    (alloc (.set [])).execute w = (.ok (.object l.read), ((alloc (.set [])).execute w).2) ∧
    (alloc (.snapshot l.shown)).execute ((alloc (.set [])).execute w).2 =
      (.ok (.object l.snapshot), w.lend l) := by
  subst hl
  refine ⟨rfl, Prod.ext ?_ rfl⟩
  show Except.ok (Value.object ⟨(w.heap.objects.push _).size⟩) = _
  rw [Array.size_push]
  rfl

theorem lent_lend (hl : l = w.loan plan t attributes)
    (ht : w.heap.get? t = some (.dict l.entries)) : (w.lend l).Lent l [] := by
  obtain ⟨hset, hsnapshot⟩ := execute_lend hl
  obtain ⟨p, hp, hmembers⟩ := object_of_alloc hset
  cases hp
  obtain ⟨o, ho, hshown⟩ := object_of_alloc hsnapshot
  cases ho
  refine ⟨hshown, ?_, [], ?_, fun _ => rfl⟩
  · subst hl
    exact get?_alloc _ _ (get?_alloc _ _ ht)
  · have hkept := get?_alloc (.snapshot l.shown) _ hmembers
    rw [hsnapshot] at hkept
    exact hkept

theorem execute_lacks_noted (h : w.heap.get? p = some (.set members)) (name : String) :
    (lacks (.object p) (.text name)).execute w =
      (.ok !(members.any fun m => m.asText? = some name), w) := by
  have hhas : (setHas members (.text name)).execute w =
      (.ok (members.any fun m => m.asText? = some name), w) := by
    have hset : (isSet (.text name)).execute w = (.ok false, w) := rfl
    have hkey : (requireKey (.text name)).execute w = (.ok ⟨⟩, w) := by
      rw [requireKey, execute_bind_ok (execute_get w), w.isKey_of_asText rfl]
      rfl
    have hsame : ∀ m, w.sameKey m (.text name) = decide (m.asText? = some name) := fun m =>
      w.sameKey_asText (.inr rfl)
    rw [setHas, execute_bind_ok hset]
    show (membersContain members (.text name)).execute w = _
    rw [membersContain, execute_bind_ok hkey, execute_bind_ok (execute_get w)]
    simp only [hsame]
    rfl
  rw [lacks, execute_bind_ok ((execute_contains_set h _).trans hhas)]
  rfl

/-- **Assigning what has not been noted** is assigning just these attributes, in their order. -/
theorem execute_assign_others (hnoted : ∀ name,
      (members.any fun m => m.asText? = some name) = noted.contains name)
    (h : w.heap.get? p = some (.set members)) :
    ((attributes.map fun a => (Value.text a.1, a.2)).forM (assign v (.object p))).execute w =
      ((attributes.filter fun a => !noted.contains a.1).forM fun a => setAttr v a.1 a.2).execute
        w := by
  induction attributes generalizing w with
  | nil => rfl
  | cons a attributes ih =>
    show (assign v (.object p) (.text a.1, a.2) >>= fun _ => _).execute w = _
    rw [assign_eq, bind_assoc, execute_bind_ok (execute_lacks_noted h a.1), hnoted]
    cases hmem : noted.contains a.1 with
    | true =>
      rw [List.filter_cons_of_neg (by rw [hmem]; nofun)]
      exact ih h
    | false =>
      rw [List.filter_cons_of_pos (by rw [hmem]; rfl)]
      show (setAttr v a.1 a.2 >>= fun _ => _).execute w =
        (setAttr v a.1 a.2 >>= fun _ => _).execute w
      have hkept := get?_setAttr (v := v) h rfl a.1 a.2
      rw [execute_bind, execute_bind]
      rcases hset : (setAttr v a.1 a.2).execute w with ⟨_ | x, w₁⟩
      · rfl
      · rw [hset] at hkept
        exact ih hkept

/-- **No attribute is lost in construction** that the constructor has not asked after. Those that it
was given are its own affair; of the others, each that it has not asked after is assigned once, in
the order of the plan, when the constructor has returned. -/
theorem assigned_unless_noted {fn : Value} (hconstructor : plan.constructor = some fn)
    (ht : w.heap.get? t = some (.dict (attributes.map fun a => (.text a.1, a.2))))
    (hnodup : (attributes.map (·.1)).Nodup) (hl : l = w.loan plan t attributes) {making : Making}
    (hcall : (host.call fn [.object l.snapshot]).execute (w.lend l) =
      (making.run inner (.object l.snapshot)).execute (w.lend l))
    (hspares : making.Spares inner l) {outcome : Except Failure Value} {exchanges : List Exchange}
    (hmade : making.perform inner (.object l.snapshot) (w.lend l) = ((outcome, w'), exchanges)) :
    (∀ e, outcome = .error e → (constructWith host plan (.object t)).execute w =
      (.error (e.addNote s!"while running the constructor of factory '{plan.factory}'"), w')) ∧
    (∀ v, outcome = .ok v → (constructWith host plan (.object t)).execute w =
      ((attributes.filter fun a => !(Making.notedIn l exchanges).contains a.1).forM
        (fun a => setAttr v a.1 a.2) >>= fun _ => pure v).execute w') ∧
    ∀ a ∈ attributes, a.1 ∈ Making.notedIn l exchanges →
      (∃ x ∈ exchanges, x.Hands l a) ∨ ∃ x ∈ exchanges, x.use.asks? l = some a.1 := by
  have hentries : attributes.map (fun a => (Value.text a.1, a.2)) = l.entries := by
    rw [hl]
    rfl
  have hattributes : l.attributes = attributes := by rw [hl]; rfl
  have hnames : l.names.Nodup := by rwa [Loan.names, hattributes]
  obtain ⟨hset, hsnapshot⟩ := execute_lend hl
  have hlent := Making.settles_perform hnames hspares (lent_lend hl (hentries ▸ ht))
  rw [hmade, List.nil_append] at hlent
  obtain ⟨hlent, hhands⟩ := hlent
  have hrun : (host.call fn [.object l.snapshot]).execute (w.lend l) = (outcome, w') := by
    rw [hcall, Making.execute_run, hmade]
  -- What comes before the attributes are assigned: the loan, and the call of the constructor.
  have hmaking : (constructInstance host plan (.object t)).execute w =
      ((noting s!"while running the constructor of factory '{plan.factory}'"
        (host.call fn [.object l.snapshot])) >>= fun made =>
          readOf (.object l.snapshot) >>= fun read => pure (made, read)).execute (w.lend l) := by
    rw [constructInstance, execute_bind_ok hset, hconstructor]
    dsimp only
    have hshown : l.shown =
        { table := .object t, model := plan.model, read := .object l.read } := by
      rw [hl]
      rfl
    rw [← hshown, execute_bind_ok hsnapshot]
  refine ⟨?_, ?_, fun a ha hnoted => ?_⟩
  · rintro e rfl
    rw [constructWith, execute_bind_error]
    rw [hmaking]
    refine execute_bind_error ?_
    rw [noting, execute_tryCatch, hrun]
    rfl
  · rintro v rfl
    obtain ⟨members, hmembers, hany⟩ := hlent.read
    have hcalled : (noting s!"while running the constructor of factory '{plan.factory}'"
        (host.call fn [.object l.snapshot])).execute (w.lend l) = (.ok v, w') := by
      rw [noting, execute_tryCatch, hrun]
    have hread : (readOf (.object l.snapshot)).execute w' = (.ok (.object l.read), w') := by
      rw [readOf, execute_bind_ok (execute_snapshot?_lent hlent)]
      rfl
    have hmade : (constructInstance host plan (.object t)).execute w =
        (.ok (v, .object l.read), w') := by
      rw [hmaking, execute_bind_ok hcalled, execute_bind_ok hread]
      rfl
    have htable : (entriesOf (some (.object t))).execute w' =
        (.ok (attributes.map fun a => (.text a.1, a.2)), w') := by
      have htable : l.shown.table = .object t := by rw [hl]; rfl
      rw [entriesOf, execute_bind_ok (execute_get w'), ← htable, entries?_table hlent, hentries]
      rfl
    rw [constructWith, execute_bind_ok hmade]
    dsimp only
    rw [assignUnread, bind_assoc, execute_bind_ok htable, execute_bind, execute_bind,
      execute_assign_others hany hmembers]
  · obtain ⟨x, hx, hnotes⟩ := List.mem_flatMap.mp hnoted
    rw [Option.mem_toList, Use.notes?, Option.or_eq_some_iff] at hnotes
    obtain hnamed | ⟨-, hasks⟩ := hnotes
    · exact .inl ⟨x, hx, hhands x hx a (hattributes ▸ ha) hnamed⟩
    · exact .inr ⟨x, hx, hasks⟩

end Action

/-! ## 6. Constructors of books -/

namespace Making

/-- A host under which whatever is called does one and the same thing. -/
def host (making : Making) : Host :=
  ⟨fun _ arguments => making.run .exhausted (arguments.headD .null)⟩

/-- A constructor that asks whether there is a shelf, looks through the names, reads the title, and
makes an instance with that. -/
def hasty : Making :=
  .uses (.holds (.text "shelf")) fun _ => .uses (.each 1) fun _ =>
    .uses (.item (.text "title")) fun title =>
      .creates [] [("title", title.toOption.getD .null)] .ends

/-- A constructor that asks whether there is a title, and makes an instance without anything. -/
def glancing : Making := .uses (.holds (.text "title")) fun _ => .creates [] [] .ends

end Making

namespace Action

/-- The attributes of a book. -/
def bookAttributes : List (String × Value) :=
  [("title", .text "Emma"), ("pages", .int 300), ("shelf", .int 7)]

/-- The plan of a book that is made by a constructor. -/
def bookPlan : Plan where
  factory := "book"
  model := .null
  traits := []
  layers := []
  attributes := []
  constructor := some (.function ⟨0⟩)
  persistor := none
  callbacks := []

/-- A world in which the attributes of a book have been resolved. -/
def bookWorld : World :=
  (execute (alloc (.dict (bookAttributes.map fun a => (.text a.1, a.2)))) {}).2

/-- **The book of a hasty constructor** has the title that it read and the pages that are assigned;
the shelf that it only asked after is lost. -/
theorem assigned_unless_noted_book :
    ((constructWith Making.hasty.host bookPlan (.object ⟨0⟩)).execute bookWorld).1 =
      .ok (.object ⟨3⟩) ∧
    ((constructWith Making.hasty.host bookPlan (.object ⟨0⟩)).execute bookWorld).2.heap.get? ⟨3⟩ =
      some (.record .namespaceModel ⟨[("title", .text "Emma"), ("pages", .int 300)]⟩) := by
  have hspares : Making.hasty.Spares .exhausted (bookWorld.loan bookPlan ⟨0⟩ bookAttributes) :=
    fun _ _ _ => ⟨Making.keeps_instantiate (.inl rfl) _ _, fun _ => trivial⟩
  have htable : bookWorld.heap.get? ⟨0⟩ =
      some (.dict (bookAttributes.map fun a => (.text a.1, a.2))) := by decide +kernel
  have hcall : ∀ l : Loan, (Making.hasty.host.call (.function ⟨0⟩) [.object l.snapshot]).execute
      (bookWorld.lend l) = (Making.hasty.run .exhausted (.object l.snapshot)).execute
        (bookWorld.lend l) := fun _ => rfl
  obtain ⟨-, hok, -⟩ := assigned_unless_noted (rfl : bookPlan.constructor = _) htable
    (by decide +kernel) rfl (hcall _) hspares rfl
  rw [hok (.object ⟨3⟩) (by decide +kernel)]
  exact ⟨by decide +kernel, by decide +kernel⟩

/-- **An attribute that a constructor only asks after is lost**: its value is not handed over in any
exchange, and the instance is left without it. -/
theorem glance_loses :
    ((Making.glancing.perform .exhausted (.object ⟨2⟩)
        (bookWorld.lend (bookWorld.loan bookPlan ⟨0⟩ bookAttributes))).2.all fun x =>
          x.use.hands? (bookWorld.loan bookPlan ⟨0⟩ bookAttributes) = none) = true ∧
    ((constructWith Making.glancing.host bookPlan (.object ⟨0⟩)).execute bookWorld).1 =
      .ok (.object ⟨3⟩) ∧
    ((constructWith Making.glancing.host bookPlan (.object ⟨0⟩)).execute bookWorld).2.heap.get? ⟨3⟩ =
      some (.record .namespaceModel ⟨[("pages", .int 300), ("shelf", .int 7)]⟩) :=
  ⟨by decide +kernel, by decide +kernel, by decide +kernel⟩

end Action

end TraitFactory
