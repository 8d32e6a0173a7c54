import Mathlib
import Rowcast.Proofs.Column.Grammar
import Rowcast.Proofs.Column.Projection

/-!
# Canonical definitions

However malformed a definition is, what is read from it can be written down: every key and every
target is a name (`IsName`), because the scans of a part cut its words out at the separators and the
blank space around them is dropped (`isName_of_ofPart?`).  So a set of specifications has a
canonical text, one entry `source:target@kind,` after the other in any order, and reading that text
gives the set again (`ofDefinition?_canonicalText`).

It follows that no definition ever selects or produces a column without a name:
`canonical_of_ofDefinition?` says what holds of every definition.
-/

namespace Rowcast.Column

open Text

/-- A word that can name a column. -/
structure IsName (s : String) : Prop extends IsWord s where
  ne_empty : s ≠ ""

instance (s : String) : Decidable (IsName s) :=
  decidable_of_iff (IsWord s ∧ s ≠ "") ⟨fun h => ⟨h.1, h.2⟩, fun h => ⟨h.toIsWord, h.ne_empty⟩⟩

/-! ### What is read is a name -/

theorem not_mem_of_mem_splitOn {α : Type} [BEq α] [LawfulBEq α] {x : α} {s part : List α}
    (h : part ∈ s.splitOn x) : x ∉ part := by
  induction s generalizing part with
  | nil =>
    rw [List.splitOn_nil, List.mem_singleton] at h
    simp [h]
  | cons a s ih =>
    have hcons : (a :: s).splitOn x =
        if (a == x) = true then [] :: s.splitOn x else (s.splitOn x).modifyHead (a :: ·) :=
      List.splitOnP_cons_eq_if_modifyHead a s
    obtain ⟨first, rest, hsplit⟩ := List.exists_cons_of_ne_nil (List.splitOn_ne_nil x s)
    rw [hcons, hsplit] at h
    rw [hsplit] at ih
    split at h
    · rcases List.mem_cons.mp h with rfl | h
      · simp
      · exact ih h
    · next ha =>
      rw [List.modifyHead_cons] at h
      rcases List.mem_cons.mp h with rfl | h
      · have hne : x ≠ a := fun heq => ha (by simp [heq])
        simp [hne, ih List.mem_cons_self]
      · exact ih (List.mem_cons_of_mem _ h)

theorem isWord_of_aliasOf? {part name : List Char} (hcomma : ',' ∉ part)
    (h : aliasOf? part = some name) : IsWord (piece name) := by
  unfold aliasOf? at h
  split at h
  · simp at h
  · next rest hrest =>
    injection h with h
    have hmem : ',' ∉ rest := by
      intro hmem
      refine hcomma ((List.dropWhile_suffix (· != ':')).subset ?_)
      rw [hrest]
      exact List.mem_cons_of_mem _ hmem
    rw [← h]
    exact isWord_piece_uptoSeparator hmem

theorem isName_of_ofPart? {part : List Char} {spec : Spec} (hcomma : ',' ∉ part)
    (h : Spec.ofPart? part = some spec) : IsName spec.source ∧ IsName spec.target := by
  unfold Spec.ofPart? at h
  simp only at h
  split at h
  · simp at h
  · next hkey =>
    injection h with h
    have hsource : IsName (piece (uptoSeparator part)) := ⟨isWord_piece_uptoSeparator hcomma, hkey⟩
    rw [← h]
    cases halias : aliasOf? part with
    | none => exact ⟨hsource, hsource⟩
    | some name =>
      refine ⟨hsource, ?_⟩
      simp only [Option.map_some, Spec.ofAlias]
      split
      · exact hsource
      · next hname => exact ⟨isWord_of_aliasOf? hcomma halias, hname⟩

/-- Every entry comes from a part, and it stands under its source. -/
theorem exists_part_of_get? {definition : String} {specs : SpecSet}
    (h : SpecSet.ofDefinition? definition = some specs) {key : String} {spec : Spec}
    (hget : specs.get? key = some spec) :
    key = spec.source ∧ ∃ part ∈ definition.toList.splitOn ',', Spec.ofPart? part = some spec := by
  unfold SpecSet.ofDefinition? at h
  split at h
  · simp at h
  · injection h with h
    rw [← h, SpecSet.ofParts] at hget
    obtain ⟨before, after, hpairs, -⟩ := Record.get?_ofList_eq_some_iff.mp hget
    have hmem : (key, spec) ∈ ((definition.toList.splitOn ',').filterMap Spec.ofPart?).map
        fun spec => (spec.source, spec) := by
      rw [hpairs]
      exact List.mem_append_right _ List.mem_cons_self
    obtain ⟨_, hspec, heq⟩ := List.mem_map.mp hmem
    obtain ⟨rfl, rfl⟩ := Prod.mk.inj heq
    exact ⟨rfl, List.mem_filterMap.mp hspec⟩

/-- Every entry stands under its source, and its source and target are names. -/
structure IsCanonical (specs : SpecSet) : Prop where
  key_eq : ∀ {key spec}, specs.get? key = some spec → key = spec.source
  source : ∀ {key spec}, specs.get? key = some spec → IsName spec.source
  target : ∀ {key spec}, specs.get? key = some spec → IsName spec.target

/-- **What is read from a definition is canonical.** -/
theorem isCanonical_of_ofDefinition? {definition : String} {specs : SpecSet}
    (h : SpecSet.ofDefinition? definition = some specs) : IsCanonical specs where
  key_eq hget := (exists_part_of_get? h hget).1
  source hget := by
    obtain ⟨-, part, hpart, hread⟩ := exists_part_of_get? h hget
    exact (isName_of_ofPart? (not_mem_of_mem_splitOn hpart) hread).1
  target hget := by
    obtain ⟨-, part, hpart, hread⟩ := exists_part_of_get? h hget
    exact (isName_of_ofPart? (not_mem_of_mem_splitOn hpart) hread).2

/-! ### The canonical text -/

def Kind.word : Kind → String
  | .text => "string"
  | .number => "number"
  | .boolean => "boolean"

def Spec.written (spec : Spec) : List Char :=
  spec.source.toList ++ ':' :: spec.target.toList ++ '@' :: spec.kind.word.toList

/-- Specifications as one definition, each with a comma after it; a comma alone for none. -/
def canonicalText (specs : List Spec) : String :=
  String.ofList (if specs = [] then [','] else specs.flatMap fun spec => spec.written ++ [','])

theorem Kind.isWord_word (kind : Kind) : IsWord kind.word := by
  cases kind <;> decide

def Part.ofSpec (spec : Spec) (hsource : IsWord spec.source) (htarget : IsWord spec.target) :
    Part :=
  ⟨.ofWord spec.source hsource, some (.ofWord spec.target htarget),
    some (.ofWord spec.kind.word spec.kind.isWord_word)⟩

section OfSpec

variable {spec : Spec} (hsource : IsName spec.source) (htarget : IsName spec.target)

theorem Part.text_ofSpec :
    (Part.ofSpec spec hsource.toIsWord htarget.toIsWord).text = spec.written := by
  simp [ofSpec, text, aliasText, kindText, Spelling.text_ofWord, Spec.written]

theorem Part.spec?_ofSpec :
    (Part.ofSpec spec hsource.toIsWord htarget.toIsWord).spec? = some spec := by
  have hkind : (Part.ofSpec spec hsource.toIsWord htarget.toIsWord).kind = spec.kind := by
    obtain ⟨source, target, kind⟩ := spec
    cases kind <;> rfl
  have htarget' : (Part.ofSpec spec hsource.toIsWord htarget.toIsWord).target = spec.target :=
    if_neg htarget.ne_empty
  have hkey : (Part.ofSpec spec hsource.toIsWord htarget.toIsWord).HasKey := hsource.ne_empty
  rw [Part.spec?, if_pos hkey, Part.spec, hkind, htarget']
  rfl

end OfSpec

theorem exists_parts {specs : List Spec}
    (h : ∀ spec ∈ specs, IsName spec.source ∧ IsName spec.target) :
    ∃ parts : List Part, parts.map Part.text = specs.map Spec.written ∧
      parts.filterMap Part.spec? = specs := by
  induction specs with
  | nil => exact ⟨[], rfl, rfl⟩
  | cons spec rest ih =>
    obtain ⟨hsource, htarget⟩ := h spec List.mem_cons_self
    obtain ⟨parts, htexts, hspecs⟩ := ih fun other hother => h other (List.mem_cons_of_mem _ hother)
    refine ⟨.ofSpec spec hsource.toIsWord htarget.toIsWord :: parts, ?_, ?_⟩
    · rw [List.map_cons, List.map_cons, Part.text_ofSpec hsource htarget, htexts]
    · rw [List.filterMap_cons_some (Part.spec?_ofSpec hsource htarget), hspecs]

/-- A separator after each piece is one between the pieces and an empty piece after them. -/
theorem intercalate_concat_nil {α : Type} (x : α) (ls : List (List α)) :
    [x].intercalate (ls ++ [[]]) = ls.flatMap (· ++ [x]) := by
  induction ls with
  | nil => rfl
  | cons l ls ih =>
    rw [List.cons_append, List.intercalate_cons_of_ne_nil (by simp), ih, List.flatMap_cons]

/-- **The canonical text is read as it was meant.** -/
theorem ofDefinition?_canonicalText {specs : List Spec}
    (hnames : ∀ spec ∈ specs, IsName spec.source ∧ IsName spec.target)
    (hnodup : (specs.map Spec.source).Nodup) :
    ∃ again, SpecSet.ofDefinition? (canonicalText specs) = some again ∧
      again.fields = specs.map fun spec => (spec.source, spec) := by
  obtain ⟨parts, htexts, hspecs⟩ := exists_parts hnames
  by_cases hempty : specs = []
  · subst hempty
    exact ⟨_, rfl, rfl⟩
  -- The comma after the last entry makes one more part, which has no key.
  have htext : canonicalText specs = definitionText (parts ++ [.blank]) := by
    rw [canonicalText, if_neg hempty, definitionText, List.map_append, List.map_singleton, htexts,
      Part.text_blank, intercalate_concat_nil, List.flatMap_map]
  have hblank : isAllBlank (canonicalText specs) = false := by
    obtain ⟨spec, rest, rfl⟩ := List.exists_cons_of_ne_nil hempty
    refine isAllBlank_eq_false_iff.mpr ⟨',', ?_, by decide⟩
    rw [canonicalText, if_neg hempty, String.toList_ofList]
    simp
  have hread : (parts ++ [Part.blank]).filterMap Part.spec? = specs := by
    rw [List.filterMap_append, hspecs]
    exact List.append_nil specs
  rw [htext] at hblank ⊢
  refine ⟨_, ofDefinition?_of_parts (by simp) hblank, ?_⟩
  rw [hread]
  refine Record.fields_ofList ?_
  rw [List.map_map]
  exact hnodup

namespace IsCanonical

variable {specs : SpecSet}

/-- **A canonical set survives being written and read**, in any order of its entries. -/
theorem read_written (h : IsCanonical specs) {entries : List (String × Spec)}
    (hperm : entries.Perm specs.fields) :
    ∃ again, SpecSet.ofDefinition? (canonicalText (entries.map Prod.snd)) = some again ∧
      ∀ key, again.get? key = specs.get? key := by
  have hget : ∀ entry ∈ entries, specs.get? entry.1 = some entry.2 := fun entry hentry =>
    Record.get?_eq_some_iff.mpr (hperm.mem_iff.mp hentry)
  have hpairs : (entries.map Prod.snd).map (fun spec => (spec.source, spec)) = entries := by
    rw [List.map_map]
    refine (List.map_congr_left fun entry hentry => ?_).trans (List.map_id entries)
    exact Prod.ext (h.key_eq (hget entry hentry)).symm rfl
  have hnames : ∀ spec ∈ entries.map Prod.snd, IsName spec.source ∧ IsName spec.target := by
    intro spec hspec
    obtain ⟨entry, hentry, rfl⟩ := List.mem_map.mp hspec
    exact ⟨h.source (hget entry hentry), h.target (hget entry hentry)⟩
  have hnodup : ((entries.map Prod.snd).map Spec.source).Nodup := by
    have hkeys := congrArg (List.map Prod.fst) hpairs
    rw [List.map_map] at hkeys
    have hsources : (entries.map Prod.snd).map Spec.source = entries.map Prod.fst := hkeys
    rw [hsources, (hperm.map Prod.fst).nodup_iff]
    exact specs.nodup
  obtain ⟨again, hread, hfields⟩ := ofDefinition?_canonicalText hnames hnodup
  refine ⟨again, hread, Record.get?_eq_of_perm ?_⟩
  rw [hfields, hpairs]
  exact hperm

theorem get?_eq_none (h : IsCanonical specs) {name : String} (hname : ¬ IsName name) :
    specs.get? name = none := by
  rw [Option.eq_none_iff_forall_ne_some]
  intro spec hget
  rw [h.key_eq hget] at hname
  exact hname (h.source hget)

/-- A projection produces columns with names only. -/
theorem isName_of_mem_keys (h : IsCanonical specs) {record : RawRecord} {name : String}
    (hmem : name ∈ (project specs record).keys) : IsName name := by
  rw [keys_project, List.mem_eraseDups] at hmem
  obtain ⟨field, -, htarget⟩ := List.mem_filterMap.mp hmem
  obtain ⟨spec, hget, rfl⟩ := Option.map_eq_some_iff.mp htarget
  exact h.target hget

end IsCanonical

/-- **What a definition can select and produce.**  Whatever the definition, entries stand under
their sources, all sources and targets are names, and the canonical text of the entries in any order
is read as the same set.  So a column without a name is neither selected nor produced. -/
theorem canonical_of_ofDefinition? {definition : String} {specs : SpecSet}
    (h : SpecSet.ofDefinition? definition = some specs) :
    (∀ key spec, specs.get? key = some spec →
      key = spec.source ∧ IsName spec.source ∧ IsName spec.target) ∧
    (∀ entries : List (String × Spec), entries.Perm specs.fields →
      ∃ again, SpecSet.ofDefinition? (canonicalText (entries.map Prod.snd)) = some again ∧
        ∀ key, again.get? key = specs.get? key) ∧
    (∀ name, ¬ IsName name → specs.get? name = none ∧
      ∀ (record : RawRecord) (raw : Option String),
        project specs (record.set name raw) = project specs record ∧
          name ∉ (project specs record).keys) := by
  have hcanonical := isCanonical_of_ofDefinition? h
  refine ⟨?entries, fun entries => hcanonical.read_written, ?unnamed⟩
  case entries =>
    intro key spec hget
    exact ⟨hcanonical.key_eq hget, hcanonical.source hget, hcanonical.target hget⟩
  case unnamed =>
    intro name hname
    have hnone := hcanonical.get?_eq_none hname
    refine ⟨hnone, fun record raw => ⟨project_set_of_get?_eq_none hnone record raw, ?_⟩⟩
    exact fun hmem => hname (hcanonical.isName_of_mem_keys hmem)

def sampleSpecs : SpecSet :=
  .ofList [("a b", ⟨"a b", "c", .number⟩), ("d", ⟨"d", "d", .text⟩)]

theorem canonical_of_malformed_definition :
    SpecSet.ofDefinition? " a b\t: c :x@y@ number ,:e@boolean,d:@" = some sampleSpecs ∧
    (∃ again, SpecSet.ofDefinition? "d:d@string,a b:c@number," = some again ∧
      ∀ key, again.get? key = sampleSpecs.get? key) ∧
    ¬ IsName " d" ∧
    ∀ (record : RawRecord) (raw : Option String),
      project sampleSpecs (record.set " d" raw) = project sampleSpecs record ∧
        " d" ∉ (project sampleSpecs record).keys := by
  have hread : SpecSet.ofDefinition? " a b\t: c :x@y@ number ,:e@boolean,d:@" =
      some sampleSpecs := by decide +kernel
  have hname : ¬ IsName " d" := fun h => absurd h.toIsWord (by decide)
  obtain ⟨-, hagain, hunnamed⟩ := canonical_of_ofDefinition? hread
  refine ⟨hread, ?_, hname, (hunnamed " d" hname).2⟩
  exact hagain [("d", ⟨"d", "d", .text⟩), ("a b", ⟨"a b", "c", .number⟩)] (by decide)

end Rowcast.Column
