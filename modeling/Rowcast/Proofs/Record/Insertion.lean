import Rowcast.Proofs.Record

/-!
# Records list their insertions

A record is what is left of the pairs that were set in it.  `Lists` says which: each name once, in
the order in which the names came first, and under it the value that came last.  Place and value of
a name may be due to two different pairs.

`lists_ofList` is this for pairs set in an empty record.  Setting more pairs is setting all of them
(`setAll_ofList`), so it holds of every sequence of insertions, wherever it starts.  A function of
the fields that leaves the names alone can be applied before or after: one insertion commutes with
it (`mapFields_set`), and so do all of them (`mapFields_setAll`).
-/

namespace Rowcast

namespace Record

variable {α β : Type}

/-- Sets pairs one after the other, in a record that may have fields. -/
def setAll (record : Record α) (pairs : List (String × α)) : Record α :=
  pairs.foldl (fun record pair => record.set pair.1 pair.2) record

theorem setAll_ofList (start pairs : List (String × α)) :
    setAll (ofList start) pairs = ofList (start ++ pairs) := by
  rw [setAll, ofList, ofList, List.foldl_append]

/-! ### Names and values -/

/-- The record has each name of the pairs once, in the order in which they came first, with the
value that came last. -/
structure Lists (record : Record α) (pairs : List (String × α)) : Prop where
  once : record.keys.Nodup
  names : ∀ key, key ∈ record.keys ↔ key ∈ pairs.map Prod.fst
  order : record.keys.Pairwise fun first second =>
    (pairs.map Prod.fst).idxOf first < (pairs.map Prod.fst).idxOf second
  values : ∀ key value, (key, value) ∈ record.fields ↔
    ∃ before after, pairs = before ++ (key, value) :: after ∧ key ∉ after.map Prod.fst

theorem mem_keys_ofList {pairs : List (String × α)} {key : String} :
    key ∈ (ofList pairs).keys ↔ key ∈ pairs.map Prod.fst := by
  rw [keys_ofList, List.mem_eraseDups]

/-- A name keeps its place when its value is set again; a new one comes behind all others. -/
theorem pairwise_keys_ofList (pairs : List (String × α)) :
    (ofList pairs).keys.Pairwise fun first second =>
      (pairs.map Prod.fst).idxOf first < (pairs.map Prod.fst).idxOf second := by
  induction pairs using List.reverseRecOn with
  | nil => exact List.Pairwise.nil
  | append_singleton pairs pair ih =>
    have hold {key : String} (h : key ∈ (ofList pairs).keys) :
        ((pairs ++ [pair]).map Prod.fst).idxOf key = (pairs.map Prod.fst).idxOf key := by
      rw [List.map_append, List.idxOf_append_of_mem (mem_keys_ofList.mp h)]
    have hkept : (ofList pairs).keys.Pairwise fun first second =>
        ((pairs ++ [pair]).map Prod.fst).idxOf first <
          ((pairs ++ [pair]).map Prod.fst).idxOf second := by
      refine ih.imp_of_mem fun hfirst hsecond hless => ?_
      rwa [hold hfirst, hold hsecond]
    rw [ofList_concat, keys_set]
    split
    · exact hkept
    · next hnew =>
      rw [List.pairwise_append]
      refine ⟨hkept, List.pairwise_singleton _ _, fun first hfirst second hsecond => ?_⟩
      rw [List.mem_singleton] at hsecond
      subst hsecond
      rw [mem_keys_ofList] at hnew
      rw [hold hfirst, List.map_append, List.idxOf_append_of_notMem hnew]
      have hless := List.idxOf_lt_length_of_mem (mem_keys_ofList.mp hfirst)
      omega

theorem lists_ofList (pairs : List (String × α)) : Lists (ofList pairs) pairs where
  once := (ofList pairs).nodup
  names _ := mem_keys_ofList
  order := pairwise_keys_ofList pairs
  values _ _ := get?_eq_some_iff.symm.trans get?_ofList_eq_some_iff

theorem get?_eq_none_iff {record : Record α} {key : String} :
    record.get? key = none ↔ key ∉ record.keys := by
  rw [Option.eq_none_iff_forall_ne_some, keys, List.mem_map]
  constructor
  · rintro hnone ⟨⟨_, value⟩, hmem, rfl⟩
    exact hnone value (get?_eq_some_iff.mpr hmem)
  · intro hnot value hsome
    exact hnot ⟨(key, value), get?_eq_some_iff.mp hsome, rfl⟩

theorem size_eq_length_keys (record : Record α) : record.size = record.keys.length :=
  (List.length_map _).symm

theorem Lists.size_eq {record : Record α} {pairs : List (String × α)} (h : Lists record pairs) :
    record.size = (pairs.map Prod.fst).toFinset.card := by
  have hnames : (pairs.map Prod.fst).toFinset = record.keys.toFinset := by
    ext key
    rw [List.mem_toFinset, List.mem_toFinset, h.names]
  rw [hnames, List.toFinset_card_of_nodup h.once, size_eq_length_keys]

/-! ### Functions of the fields -/

/-- Changes the value of every field, with a look at its name. -/
def mapFields (f : String → α → β) (record : Record α) : Record β where
  fields := record.fields.map fun field => (field.1, f field.1 field.2)
  nodup := by
    rw [List.map_map]
    exact record.nodup

theorem map_eq_mapFields (f : α → β) (record : Record α) :
    record.map f = record.mapFields fun _ => f := rfl

theorem setField_map (f : String → α → β) (key : String) (value : α)
    (fields : List (String × α)) :
    (setField key value fields).map (fun field => (field.1, f field.1 field.2)) =
      setField key (f key value) (fields.map fun field => (field.1, f field.1 field.2)) := by
  induction fields with
  | nil => rfl
  | cons field rest ih =>
    obtain ⟨k, v⟩ := field
    rw [setField, List.map_cons, setField]
    split
    · next hk => rw [List.map_cons, hk]
    · rw [List.map_cons, ih]

theorem mapFields_set (f : String → α → β) (record : Record α) (key : String) (value : α) :
    (record.set key value).mapFields f = (record.mapFields f).set key (f key value) :=
  ext (setField_map f key value record.fields)

theorem mapFields_setAll (f : String → α → β) (record : Record α) (pairs : List (String × α)) :
    (record.setAll pairs).mapFields f =
      (record.mapFields f).setAll (pairs.map fun pair => (pair.1, f pair.1 pair.2)) := by
  induction pairs generalizing record with
  | nil => rfl
  | cons pair pairs ih =>
    show ((record.set pair.1 pair.2).setAll pairs).mapFields f = _
    rw [ih, mapFields_set]
    rfl

/-! ### Insertions -/

/-- **A record is its insertions.**  Whatever pairs a record is collected from, and whatever is set
in it afterwards: it lists the pairs, a look-up finds what it lists and nothing else, it has as
many fields as there are names, and a function of the fields can as well be applied to the pairs. -/
theorem insertions_listed (start pairs : List (String × α)) :
    let record := (ofList start).setAll pairs
    let all := start ++ pairs
    Lists record all ∧
      (∀ key value, record.get? key = some value ↔ (key, value) ∈ record.fields) ∧
      (∀ key, record.get? key = none ↔ key ∉ all.map Prod.fst) ∧
      record.size = (all.map Prod.fst).toFinset.card ∧
      (record.isEmpty = true ↔ record.size = 0) ∧
      (∀ (β : Type) (f : String → α → β), record.mapFields f =
        (ofList (start.map fun pair => (pair.1, f pair.1 pair.2))).setAll
          (pairs.map fun pair => (pair.1, f pair.1 pair.2))) ∧
      ∀ (β : Type) (f : α → β), record.map f =
        (ofList (start.map fun pair => (pair.1, f pair.2))).setAll
          (pairs.map fun pair => (pair.1, f pair.2)) := by
  intro record all
  have hlists : Lists record all := by
    have h := lists_ofList all
    rwa [← setAll_ofList] at h
  have hfields (β : Type) (f : String → α → β) : record.mapFields f =
      (ofList (start.map fun pair => (pair.1, f pair.1 pair.2))).setAll
        (pairs.map fun pair => (pair.1, f pair.1 pair.2)) := by
    have hstart : (ofList start).mapFields f =
        ofList (start.map fun pair => (pair.1, f pair.1 pair.2)) := mapFields_setAll f empty start
    rw [mapFields_setAll, hstart]
  refine ⟨hlists, fun _ _ => get?_eq_some_iff, fun key => ?_, hlists.size_eq, ?_, hfields,
    fun β f => ?_⟩
  · rw [get?_eq_none_iff, hlists.names]
  · rw [isEmpty, List.isEmpty_iff, size, List.length_eq_zero_iff]
  · rw [map_eq_mapFields]
    exact hfields β fun _ => f

example : ((ofList [("a", 1), ("b", 2)]).setAll [("c", 3), ("a", 4), ("c", 5)]).fields =
    [("a", 4), ("b", 2), ("c", 5)] := rfl

end Record

end Rowcast
