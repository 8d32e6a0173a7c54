import Mathlib
import Rowcast.Toml.Document

/-!
# Documents only grow

A line of a document adds to the tables that are there and takes nothing away: a text that stands
under a path of tables stands there after every further line (`Keeps`).  So what one line says is
what the whole document says, whatever the lines after it are (`keeps_of_lines?`).

Each way of adding goes down a path and changes one member on it, so it is enough to look at a new
member at the end (`Keeps.append`) and at a table that has grown (`Keeps.table`).  A list of tables is
on no such path, so any change to it will do (`Keeps.tables`).
-/

namespace Rowcast.Toml

/-- A text stands under a path of tables. -/
inductive Holds (text : String) : List String → Members → Prop
  | here {key : String} {members : Members} (h : members.lookup key = some (.text text)) :
      Holds text [key] members
  | inside {key : String} {path : List String} {origin : Origin} {inner members : Members}
      (h : members.lookup key = some (.table origin inner)) (hinner : Holds text path inner) :
      Holds text (key :: path) members

def Keeps (members after : Members) : Prop :=
  ∀ text path, Holds text path members → Holds text path after

variable {members after between inner grown : Members} {key : String}

namespace Keeps

theorem refl (members : Members) : Keeps members members := fun _ _ h => h

theorem trans (h : Keeps members between) (hafter : Keeps between after) : Keeps members after :=
  fun text path hholds => hafter text path (h text path hholds)

/-- A change keeps texts if at every key texts stay and tables keep theirs. -/
theorem of_lookup
    (htext : ∀ key text, members.lookup key = some (.text text) →
      after.lookup key = some (.text text))
    (htable : ∀ key origin inner, members.lookup key = some (.table origin inner) →
      ∃ origin' grown, after.lookup key = some (.table origin' grown) ∧ Keeps inner grown) :
    Keeps members after := by
  intro text path h
  cases h with
  | here h => exact .here (htext _ _ h)
  | inside h hinner =>
    obtain ⟨origin', grown, hafter, hgrown⟩ := htable _ _ _ h
    exact .inside hafter (hgrown _ _ hinner)

theorem append (added : Members) : Keeps members (members ++ added) := by
  have hlookup (key : String) (value : Value) (h : members.lookup key = some value) :
      (members ++ added).lookup key = some value := by
    rw [List.lookup_append, h, Option.some_or]
  exact of_lookup (fun key text => hlookup key _)
    fun key origin inner h => ⟨origin, inner, hlookup key _ h, refl inner⟩

theorem table {origin origin' : Origin} (h : members.lookup key = some (.table origin inner))
    (hinner : Keeps inner grown) : Keeps members (setField key (.table origin' grown) members) := by
  refine of_lookup (fun other text hother => ?_) fun other found kept hother => ?_
  · rw [Record.lookup_setField, if_neg, hother]
    rintro rfl
    cases hother.symm.trans h
  · rw [Record.lookup_setField]
    by_cases hkey : other = key
    · rw [hkey, h] at hother
      cases hother
      exact ⟨origin', grown, if_pos hkey, hinner⟩
    · exact ⟨found, kept, by rwa [if_neg hkey], refl kept⟩

theorem tables {rows rows' : List Members} (h : members.lookup key = some (.tables rows)) :
    Keeps members (setField key (.tables rows') members) := by
  have hlookup (other : String) (value : Value) (hne : value ≠ .tables rows)
      (hother : members.lookup other = some value) :
      (setField key (.tables rows') members).lookup other = some value := by
    rw [Record.lookup_setField, if_neg, hother]
    rintro rfl
    exact hne (Option.some.inj (hother.symm.trans h))
  exact of_lookup (fun other text => hlookup other _ nofun)
    fun other origin inner hother => ⟨origin, inner, hlookup other _ nofun hother, refl inner⟩

end Keeps

/-! ### The ways of adding -/

theorem keeps_of_assign {value : Value} {path : List String}
    (h : assign value path members = some after) : Keeps members after := by
  fun_induction assign value path members generalizing after with
  | case1 => cases h
  | case2 key members hnone =>
    cases h
    exact .append _
  | case3 => cases h
  | case4 key next path members hnone ih =>
    obtain ⟨inner, -, rfl⟩ := Option.map_eq_some_iff.mp h
    exact .append _
  | case5 key next path members inner hinner ih =>
    obtain ⟨grown, hgrown, rfl⟩ := Option.map_eq_some_iff.mp h
    exact .table hinner (ih hgrown)
  | case6 => cases h

theorem keeps_of_declareLast {header : Header}
    (h : header.declareLast key members = some after) : Keeps members after := by
  unfold Header.declareLast at h
  split at h
  · cases h
    exact .append _
  · next hinner =>
    cases h
    exact .table hinner (.refl _)
  · cases h
    exact .append _
  · next hrows =>
    cases h
    exact .tables hrows
  · cases h

theorem keeps_of_declare {header : Header} {path : List String}
    (h : header.declare path members = some after) : Keeps members after := by
  fun_induction Header.declare header path members generalizing after with
  | case1 => cases h
  | case2 key members => exact keeps_of_declareLast h
  | case3 key next path members hnone ih =>
    obtain ⟨inner, -, rfl⟩ := Option.map_eq_some_iff.mp h
    exact .append _
  | case4 => cases h
  | case5 key next path members origin inner horigin hinner ih =>
    obtain ⟨grown, hgrown, rfl⟩ := Option.map_eq_some_iff.mp h
    exact .table hinner (ih hgrown)
  | case6 => cases h
  | case7 key next path members rows hrows row hrow ih =>
    obtain ⟨grown, -, rfl⟩ := Option.map_eq_some_iff.mp h
    exact .tables hrows
  | case8 => cases h

theorem keeps_of_within {change : Members → Option Members} {path : List String}
    (hchange : ∀ members after, change members = some after → Keeps members after)
    (h : within change path members = some after) : Keeps members after := by
  fun_induction within change path members generalizing after with
  | case1 members => exact hchange _ _ h
  | case2 key path members origin inner hinner ih =>
    obtain ⟨grown, hgrown, rfl⟩ := Option.map_eq_some_iff.mp h
    exact .table hinner (ih hgrown)
  | case3 => cases h
  | case4 key path members rows hrows row hrow ih =>
    obtain ⟨grown, -, rfl⟩ := Option.map_eq_some_iff.mp h
    exact .tables hrows
  | case5 => cases h

/-! ### Lines -/

theorem keeps_of_add {draft added : Draft} {statement : Statement}
    (h : draft.add statement = some added) : Keeps draft.root added.root := by
  cases statement with
  | header header path =>
    obtain ⟨root, hroot, rfl⟩ := Option.map_eq_some_iff.mp h
    exact keeps_of_declare hroot
  | member path value =>
    obtain ⟨root, hroot, rfl⟩ := Option.map_eq_some_iff.mp h
    exact keeps_of_within (fun _ _ => keeps_of_assign) hroot

/-- **What stands in a document stays**, whatever lines follow. -/
theorem keeps_of_lines? {bound : Nat} {draft : Draft} {s : List Char} {root : Members}
    (h : lines? bound draft s = some root) : Keeps draft.root root := by
  fun_induction lines? bound draft s with
  | case1 => cases h
  | case2 => cases h
  | case3 bound draft s hspace =>
    cases h
    exact .refl _
  | case4 => cases h
  | case5 bound draft s rest hne hspace statement after hstatement added behind hend hadd ih =>
    exact (keeps_of_add hadd).trans (ih h)
  | case6 => cases h

end Rowcast.Toml
