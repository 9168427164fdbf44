import TraitFactory.CommandLine.Assignment
import TraitFactory.Proofs.Configuring
import TraitFactory.Proofs.Depicting
import TraitFactory.Proofs.Merging

/-!
# What assignments bind

An assignment has a key before its first equals sign, and says what the JSON after it says, or the
very text where that is no JSON. Of several assignments of one key the last counts, and the key
stands where it is assigned first.
-/

namespace TraitFactory

/-! ## 1. Texts -/

namespace OptionArgument

/-- A text is split at its first equals sign, if it has one. -/
theorem splitValue_cases (s : String) : (splitValue s = (s, none) ∧ '=' ∉ s.toList) ∨
    ∃ key raw, splitValue s = (key, some raw) ∧ s = key ++ "=" ++ raw ∧ '=' ∉ key.toList := by
  have hsplit := List.takeWhile_append_dropWhile (p := fun c => decide (c ≠ '=')) (l := s.toList)
  have hhead := List.head?_dropWhile_not (fun c => decide (c ≠ '=')) s.toList
  have hkey : '=' ∉ s.toList.takeWhile fun c => decide (c ≠ '=') := fun hmem => by
    simpa using List.all_eq_true.mp List.all_takeWhile '=' hmem
  rw [splitValue]
  rcases hrest : s.toList.dropWhile fun c => decide (c ≠ '=') with _ | ⟨c, raw⟩
  · rw [hrest, List.append_nil] at hsplit
    exact .inl ⟨rfl, hsplit ▸ hkey⟩
  · rw [hrest] at hsplit hhead
    obtain rfl : c = '=' := by simpa using hhead
    refine .inr ⟨_, _, rfl, ?_, by rwa [String.toList_ofList]⟩
    rw [← String.toList_inj]
    simp only [String.toList_append, String.toList_ofList, List.append_assoc]
    exact hsplit.symm

end OptionArgument

deriving instance DecidableEq for Assignment

/-- Text that is JSON or is not, but has no integer that is too long to be read. -/
def Json.Legible (s : String) : Prop := ∀ digits, Json.read s ≠ .error (.longInteger digits)

instance (s : String) : Decidable (Json.Legible s) :=
  match h : Json.read s with
  | .ok _ => .isTrue fun _ hlong => nomatch h.symm.trans hlong
  | .error .malformed => .isTrue fun _ hlong => nomatch h.symm.trans hlong
  | .error (.longInteger digits) => .isFalse fun hlegible => hlegible digits h

namespace Assignment

/-- **A text that is no assignment**: it has no equals sign, or nothing before the first. -/
def Lacks (s : String) : Prop := '=' ∉ s.toList ∨ s.toList.head? = some '='

instance (s : String) : Decidable (Lacks s) := inferInstanceAs (Decidable (_ ∨ _))

/-- **What a text assigns**: to what stands before its first equals sign the value of the rest as
JSON, or the rest itself, with any further equals sign, where it is no JSON. -/
def Says (s : String) (a : Assignment) : Prop :=
  ∃ raw, s = a.key ++ "=" ++ raw ∧ '=' ∉ a.key.toList ∧ a.key ≠ "" ∧
    (Json.read raw = .ok a.value ∨ Json.read raw = .error .malformed ∧ a.value = .text raw)

/-- What stands after the first equals sign has no integer that is too long to be read. -/
def Legible (s : String) : Prop := ∀ raw ∈ (OptionArgument.splitValue s).2, Json.Legible raw

instance (s : String) : Decidable (Legible s) := inferInstanceAs (Decidable (∀ _ ∈ _, _))

/-- **A text is an assignment or lacks something**; nothing else keeps it from being read. -/
theorem ofText_cases {s : String} (h : Legible s) :
    (Lacks s ∧ ofText s = .error (.usage (.notAnAssignment s))) ∨
      (¬ Lacks s ∧ ∃ a, ofText s = .ok a ∧ Says s a) := by
  obtain ⟨hsplit, hnone⟩ | ⟨key, raw, hsplit, hs, hkey⟩ := OptionArgument.splitValue_cases s
  · exact .inl ⟨.inl hnone, by rw [ofText, hsplit]⟩
  have hmem : '=' ∈ s.toList := by simp [hs]
  by_cases hempty : key = ""
  · subst hempty
    have hhead : s.toList.head? = some '=' := by simp [hs]
    exact .inl ⟨.inr hhead, by simp [ofText, hsplit]⟩
  · have hhead : s.toList.head? ≠ some '=' := fun hhead => hkey <| by
      have hne : key.toList ≠ [] := fun hnil => hempty (String.toList_eq_nil_iff.mp hnil)
      rw [hs, String.toList_append, String.toList_append, List.append_assoc,
        List.head?_append_of_ne_nil _ hne] at hhead
      exact List.mem_of_mem_head? hhead
    refine .inr ⟨fun hlacks => hlacks.elim (· hmem) hhead, ?_⟩
    have hisEmpty : ¬ key.isEmpty = true := by simpa using hempty
    rw [ofText, hsplit]
    dsimp only
    rw [if_neg hisEmpty]
    rcases hread : Json.read raw with (_ | digits) | j
    · exact ⟨_, rfl, raw, hs, hkey, hempty, .inr ⟨hread, rfl⟩⟩
    · exact absurd hread (h raw (by rw [hsplit]; rfl) digits)
    · exact ⟨_, rfl, raw, hs, hkey, hempty, .inl hread⟩

/-- **The value that counts for a key**: that of its last assignment. -/
def lastValue? (as : List Assignment) (key : String) : Option Json :=
  (as.reverse.find? (·.key = key)).map (·.value)

/-- Only a key that is assigned has a value. -/
theorem mem_of_lastValue? {as : List Assignment} {key : String} {value : Json}
    (h : lastValue? as key = some value) : key ∈ as.map (·.key) := by
  obtain ⟨a, hfound, _⟩ := Option.map_eq_some_iff.mp h
  have hkey : a.key = key := by simpa using List.find?_some hfound
  exact hkey ▸ List.mem_map_of_mem (List.mem_reverse.mp (List.mem_of_find?_eq_some hfound))

end Assignment

/-! ## 2. The table of what is assigned -/

namespace Table

variable {α : Type}

theorem ofList_append_singleton (entries : List (String × α)) (e : String × α) :
    ofList (entries ++ [e]) = (ofList entries).insert e.1 e.2 := by
  rw [ofList, List.foldl_append]
  rfl

/-- The keys of a table, in the order in which they come first. -/
theorem keys_ofList (entries : List (String × α)) :
    (ofList entries).keys = (entries.map (·.1)).eraseDups := by
  induction entries using List.reverseRecOn with
  | nil => rfl
  | append_singleton entries e ih =>
    rw [ofList_append_singleton, List.map_append, List.eraseDups_append, List.map_singleton]
    by_cases hmem : e.1 ∈ entries.map (·.1)
    · rw [keys_insert_of_mem _ (ih ▸ List.mem_eraseDups.mpr hmem), ih]
      simp [List.removeAll, hmem]
    · rw [keys_insert_of_not_mem _ (ih ▸ mt List.mem_eraseDups.mp hmem), ih]
      simp [List.removeAll, hmem, List.eraseDups_cons]

/-- Of several entries of one key the last counts. -/
theorem get?_ofList (entries : List (String × α)) (key : String) :
    (ofList entries).get? key = (entries.reverse.find? (·.1 = key)).map (·.2) := by
  induction entries using List.reverseRecOn with
  | nil => rfl
  | append_singleton entries e ih =>
    rw [ofList_append_singleton, List.reverse_concat, List.find?_cons]
    by_cases hkey : e.1 = key
    · rw [← hkey, get?_insert_self, decide_eq_true rfl]
      rfl
    · rw [get?_insert_of_ne _ _ (Ne.symm hkey), ih, decide_eq_false hkey]

theorem get?_of_mem {t : Table α} (hnodup : t.keys.Nodup) {e : String × α} (he : e ∈ t.entries) :
    t.get? e.1 = some e.2 := by
  obtain ⟨found, hfound⟩ := Option.isSome_iff_exists.mp
    (List.find?_isSome.mpr ⟨e, he, decide_eq_true (rfl : e.1 = e.1)⟩ :
      (t.entries.find? (·.1 = e.1)).isSome)
  have hkey : found.1 = e.1 := by simpa using List.find?_some hfound
  rw [get?, hfound, List.inj_on_of_nodup_map hnodup (List.mem_of_find?_eq_some hfound) he hkey]
  rfl

end Table

/-- **Entries that bind the keys of assignments**, each once and where it is assigned first, to what
its last assignment says. -/
structure Binds (look : ObjectId → Option Object) (as : List Assignment)
    (entries : List (Value × Value)) : Prop where
  keys : entries.map (·.1) = (as.map (·.key)).eraseDups.map .text
  depicts : ∀ e ∈ entries, ∃ key value, e.1 = .text key ∧ Assignment.lastValue? as key = some value ∧
    Depicts look value e.2

/-- What is found first in one of two sequences that go together has its part in the other. -/
theorem exists_find?_of_forall₂ {look : ObjectId → Option Object} {as : List Assignment}
    {named : List (String × Value)} {key : String} {e : String × Value}
    (h : List.Forall₂ (fun a e => e.1 = a.key ∧ Depicts look a.value e.2) as named)
    (hfound : named.find? (·.1 = key) = some e) :
    ∃ a, as.find? (·.key = key) = some a ∧ Depicts look a.value e.2 := by
  induction h with
  | nil => cases hfound
  | @cons a first as named hfirst _ ih =>
    by_cases hkey : a.key = key
    · rw [List.find?_cons_of_pos (by simpa [hfirst.1] using hkey)] at hfound
      cases hfound
      exact ⟨a, List.find?_cons_of_pos (by simpa using hkey), hfirst.2⟩
    · rw [List.find?_cons_of_neg (by simpa [hfirst.1] using hkey)] at hfound
      rw [List.find?_cons_of_neg (by simpa using hkey)]
      exact ih hfound

/-- **The table of what is assigned binds the keys.** -/
theorem binds_ofList {look : ObjectId → Option Object} {as : List Assignment}
    {named : List (String × Value)}
    (h : List.Forall₂ (fun a e => e.1 = a.key ∧ Depicts look a.value e.2) as named) :
    Binds look as ((Table.ofList named).entries.map fun e => (.text e.1, e.2)) where
  keys := by
    have hkeys : named.map (·.1) = as.map (·.key) := by
      induction h with
      | nil => rfl
      | cons hfirst _ ih => rw [List.map_cons, List.map_cons, hfirst.1, ih]
    rw [← hkeys, ← Table.keys_ofList, Table.keys, List.map_map, List.map_map]
    exact List.map_congr_left fun _ _ => rfl
  depicts e he := by
    obtain ⟨⟨key, v⟩, hmem, rfl⟩ := List.mem_map.mp he
    have hget := Table.get?_of_mem (Table.nodup_keys_ofList named) hmem
    rw [Table.get?_ofList] at hget
    obtain ⟨found, hfound, rfl⟩ := Option.map_eq_some_iff.mp hget
    obtain ⟨a, ha, hdepicts⟩ := exists_find?_of_forall₂ (List.rel_reverse h) hfound
    exact ⟨key, a.value, rfl, congrArg (Option.map _) ha, hdepicts⟩

end TraitFactory
