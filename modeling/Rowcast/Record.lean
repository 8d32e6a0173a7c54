/-!
# Records

A record is a finite map from names to values that remembers in which order its names first came.
Setting a name that is already there keeps its place and replaces its value, so the list of a
record's fields says everything about it: `get?_set` and `get?_set_ne` say what a look-up sees
after a `set`, and `keys_set` that `set` only ever appends names.
-/

namespace Rowcast

universe u v

/-- Replaces the value of `key` where it stands, or appends the field. -/
def setField {α : Type u} (key : String) (value : α) : List (String × α) → List (String × α)
  | [] => [(key, value)]
  | (k, v) :: rest => if k = key then (k, value) :: rest else (k, v) :: setField key value rest

theorem keys_setField {α : Type u} (key : String) (value : α) (fields : List (String × α)) :
    (setField key value fields).map Prod.fst =
      if key ∈ fields.map Prod.fst then fields.map Prod.fst
      else fields.map Prod.fst ++ [key] := by
  induction fields with
  | nil => rfl
  | cons field rest ih =>
    obtain ⟨k, v⟩ := field
    by_cases h : k = key
    · subst h; simp [setField]
    · have h' : ¬ key = k := fun e => h e.symm
      simp only [setField, if_neg h, List.map_cons, ih, List.mem_cons, h', false_or]
      split <;> simp

/-- Fields in the order in which their names were first set, no name twice. -/
structure Record (α : Type u) where
  fields : List (String × α)
  nodup : (fields.map Prod.fst).Nodup

namespace Record

variable {α : Type u} {β : Type v}

def empty : Record α := ⟨[], List.nodup_nil⟩

/-- Gives `key` the value `value`, in its old place or as the last field. -/
def set (record : Record α) (key : String) (value : α) : Record α where
  fields := setField key value record.fields
  nodup := by
    rw [keys_setField]
    split
    · exact record.nodup
    · next h =>
      rw [List.nodup_append]
      refine ⟨record.nodup, by simp, ?_⟩
      intro a ha b hb
      rw [List.mem_singleton] at hb
      rintro rfl
      exact h (hb ▸ ha)

def get? (record : Record α) (key : String) : Option α :=
  record.fields.lookup key

/-- The names, first set first. -/
def keys (record : Record α) : List String := record.fields.map Prod.fst

def size (record : Record α) : Nat := record.fields.length

def isEmpty (record : Record α) : Bool := record.fields.isEmpty

/-- Sets the pairs one after the other. -/
def ofList (pairs : List (String × α)) : Record α :=
  pairs.foldl (fun record pair => record.set pair.1 pair.2) empty

def map (f : α → β) (record : Record α) : Record β where
  fields := record.fields.map fun field => (field.1, f field.2)
  nodup := by
    have h : (record.fields.map fun field => (field.1, f field.2)).map Prod.fst =
        record.fields.map Prod.fst := by simp
    rw [h]; exact record.nodup

theorem ext {a b : Record α} (h : a.fields = b.fields) : a = b := by
  cases a; cases b; simp_all

instance [DecidableEq α] : DecidableEq (Record α) := fun a b =>
  decidable_of_iff (a.fields = b.fields) ⟨ext, fun h => h ▸ rfl⟩

theorem keys_set (record : Record α) (key : String) (value : α) :
    (record.set key value).keys =
      if key ∈ record.keys then record.keys else record.keys ++ [key] :=
  keys_setField key value record.fields

theorem lookup_cons (k key : String) (value : α) (fields : List (String × α)) :
    ((key, value) :: fields).lookup k = if k = key then some value else fields.lookup k := by
  by_cases h : k = key
  · subst h; simp
  · have hb : (k == key) = false := beq_false_of_ne h
    simp [List.lookup_cons, hb, h]

theorem lookup_setField (key : String) (value : α) (fields : List (String × α)) (k : String) :
    (setField key value fields).lookup k = if k = key then some value else fields.lookup k := by
  induction fields with
  | nil => simp [setField, lookup_cons]
  | cons field rest ih =>
    obtain ⟨k₁, v₁⟩ := field
    by_cases h : k₁ = key
    · subst h
      by_cases hk : k = k₁ <;> simp [setField, lookup_cons, hk]
    · by_cases hk : k = k₁
      · subst hk; simp [setField, h]
      · simp [setField, h, lookup_cons, hk, ih]

@[simp] theorem get?_set (record : Record α) (key : String) (value : α) :
    (record.set key value).get? key = some value := by
  simp [get?, set, lookup_setField]

theorem get?_set_ne (record : Record α) {key k : String} (value : α) (h : k ≠ key) :
    (record.set key value).get? k = record.get? k := by
  simp [get?, set, lookup_setField, h]

end Record

end Rowcast
