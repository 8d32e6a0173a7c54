import Mathlib
import Rowcast.Record

/-!
# Pairs set one after the other

`Record.ofList` sets pairs in their order.  The names of the record come in the order in which they
are first set (`keys_ofList`), and the value under a name is the one set last (`get?_ofList`,
`get?_ofList_eq_some_iff`).  Where no name comes twice the pairs are the fields (`fields_ofList`).

All of it is by induction on the last pair: `ofList_concat` says that it is set after the others.
-/

namespace Rowcast

theorem setField_of_not_mem {α : Type} {key : String} (value : α) {fields : List (String × α)}
    (h : key ∉ fields.map Prod.fst) : setField key value fields = fields ++ [(key, value)] := by
  induction fields with
  | nil => rfl
  | cons field rest ih =>
    obtain ⟨k, v⟩ := field
    simp only [List.map_cons, List.mem_cons, not_or] at h
    have hk : ¬ k = key := fun e => h.1 e.symm
    rw [setField, if_neg hk, ih h.2, List.cons_append]

namespace Record

variable {α : Type}

/-! ### Look-ups -/

/-- A field is what a look-up finds, since no name comes twice. -/
theorem get?_eq_some_iff {record : Record α} {key : String} {value : α} :
    record.get? key = some value ↔ (key, value) ∈ record.fields := by
  unfold get?
  rw [List.lookup_eq_some_iff]
  constructor
  · rintro ⟨before, after, hfields, -⟩
    rw [hfields]
    exact List.mem_append_right _ List.mem_cons_self
  · intro hmem
    obtain ⟨before, after, hfields⟩ := List.append_of_mem hmem
    refine ⟨before, after, hfields, fun field hfield => ?_⟩
    have hnodup := record.nodup
    rw [hfields, List.map_append, List.nodup_append] at hnodup
    have hne := hnodup.2.2 field.1 (List.mem_map_of_mem hfield) key (by simp)
    simpa using Ne.symm hne

/-- A look-up does not depend on the order of the fields. -/
theorem get?_eq_of_perm {record other : Record α} (h : record.fields.Perm other.fields)
    (key : String) : record.get? key = other.get? key := by
  refine Option.ext fun value => ?_
  rw [get?_eq_some_iff, get?_eq_some_iff, h.mem_iff]

/-! ### Pairs in their order -/

theorem ofList_concat (pairs : List (String × α)) (pair : String × α) :
    ofList (pairs ++ [pair]) = (ofList pairs).set pair.1 pair.2 := by
  rw [ofList, List.foldl_append]
  rfl

/-- **The value set last counts.** -/
theorem get?_ofList (pairs : List (String × α)) (key : String) :
    (ofList pairs).get? key = pairs.reverse.lookup key := by
  induction pairs using List.reverseRecOn with
  | nil => rfl
  | append_singleton pairs pair ih =>
    rw [ofList_concat, List.reverse_concat, lookup_cons, ← ih]
    split
    · next h => rw [h, get?_set]
    · next h => rw [get?_set_ne _ _ h]

/-- Pairs set later are seen first. -/
theorem get?_ofList_append (pairs more : List (String × α)) (key : String) :
    (ofList (pairs ++ more)).get? key = ((ofList more).get? key).or ((ofList pairs).get? key) := by
  rw [get?_ofList, get?_ofList, get?_ofList, List.reverse_append, List.lookup_append]

theorem get?_ofList_eq_some_iff {pairs : List (String × α)} {key : String} {value : α} :
    (ofList pairs).get? key = some value ↔
      ∃ before after, pairs = before ++ (key, value) :: after ∧ key ∉ after.map Prod.fst := by
  rw [get?_ofList, List.lookup_eq_some_iff]
  constructor
  · rintro ⟨after, before, hpairs, hafter⟩
    refine ⟨before.reverse, after.reverse, ?_, ?_⟩
    · rw [List.reverse_eq_iff] at hpairs
      simpa using hpairs
    · rw [List.map_reverse, List.mem_reverse]
      intro hmem
      obtain ⟨pair, hpair, hkey⟩ := List.mem_map.mp hmem
      have hne := hafter pair hpair
      rw [hkey] at hne
      simp at hne
  · rintro ⟨before, after, rfl, hafter⟩
    refine ⟨after.reverse, before.reverse, by simp, fun pair hpair => ?_⟩
    have hne : key ≠ pair.1 := by
      rintro rfl
      exact hafter (List.mem_map_of_mem (List.mem_reverse.mp hpair))
    simpa using hne

/-- Where a value depends on its name alone it does not matter how often the name is set. -/
theorem get?_ofList_map (f : String → α) {names : List String} {key : String} (h : key ∈ names) :
    (ofList (names.map fun name => (name, f name))).get? key = some (f key) := by
  induction names using List.reverseRecOn with
  | nil => simp at h
  | append_singleton names name ih =>
    rw [List.map_append, List.map_singleton, ofList_concat]
    by_cases hname : key = name
    · rw [← hname, get?_set]
    · rw [get?_set_ne _ _ hname]
      exact ih (by simpa [hname] using h)

/-- **Each name once, in the order in which they are first set.** -/
theorem keys_ofList (pairs : List (String × α)) :
    (ofList pairs).keys = (pairs.map Prod.fst).eraseDups := by
  induction pairs using List.reverseRecOn with
  | nil => rfl
  | append_singleton pairs pair ih =>
    rw [ofList_concat, keys_set, ih, List.map_append, List.eraseDups_append]
    by_cases h : pair.1 ∈ pairs.map Prod.fst
    · have hold : [pair.1].removeAll (pairs.map Prod.fst) = [] := by simpa [List.removeAll] using h
      rw [if_pos (List.mem_eraseDups.mpr h), List.map_singleton, hold, List.eraseDups_nil,
        List.append_nil]
    · have hnew : [pair.1].removeAll (pairs.map Prod.fst) = [pair.1] := by
        simpa [List.removeAll] using h
      have hone : [pair.1].eraseDups = [pair.1] := rfl
      rw [if_neg (fun hmem => h (List.mem_eraseDups.mp hmem)), List.map_singleton, hnew, hone]

theorem fields_ofList {pairs : List (String × α)} (h : (pairs.map Prod.fst).Nodup) :
    (ofList pairs).fields = pairs := by
  induction pairs using List.reverseRecOn with
  | nil => rfl
  | append_singleton pairs pair ih =>
    rw [List.map_append, List.nodup_append] at h
    obtain ⟨hpairs, -, hne⟩ := h
    have hfields := ih hpairs
    have hnew : pair.1 ∉ (ofList pairs).fields.map Prod.fst := by
      rw [hfields]
      exact fun hmem => hne pair.1 hmem pair.1 List.mem_cons_self rfl
    rw [ofList_concat]
    show setField pair.1 pair.2 (ofList pairs).fields = _
    rw [setField_of_not_mem _ hnew, hfields]

end Record

end Rowcast
