import Mathlib
import Rowcast.Proofs.Settings.Substitution
import Rowcast.Proofs.Toml.Growth
import Rowcast.Proofs.Toml.Line
import Rowcast.Proofs.Toml.Quoted
import Rowcast.Settings.File

/-!
# Values between quotes

The values of variables are filled in before the document is read, so between quotes a value is read
as any other text there.  A value without quotes, backslashes and control characters (the tabulation
apart) arrives as it is, and no other value does: the document is malformed, or its column definition
is another one (`read_quotedReference`).  A value with a quote in it can even give a value to other
settings (`read_quotedReference_of_quote`).

The definition is the string that starts behind the first quote, since no later line can take it back
(`Toml.keeps_of_lines?`), and that string is the value only if nothing in it was read in another way
(`Toml.verbatim_of_string?`).
-/

namespace Rowcast

open Environment (IsName LeavesOpen written)

namespace FileSettings

/-- A settings file that takes the column definition from a variable. -/
def quotedReference (name : String) : String :=
  "[columns]\ndefinition = \"" ++ written name ++ "\"\n"

def ofDefinition (definition : String) : FileSettings :=
  { empty with definition := some definition }

def filledIn (value : List Char) : List Char :=
  '[' :: ("columns".toList ++ ']' :: '\n' ::
    ("definition".toList ++ ' ' :: '=' :: ' ' :: '"' :: (value ++ ['"', '\n'])))

theorem substitute_plain (environment : Environment) {text : String} (h : '\x7d' ∉ text.toList) :
    environment.substitute text = text := by
  refine Environment.substitute_of_unset fun name hmem => ?_
  rw [Environment.pieces_of_not_mem h] at hmem
  simp at hmem

theorem substitute_quotedReference {environment : Environment} {name value : String}
    (hname : IsName name.toList) (hset : environment name = some value) :
    (environment.substitute (quotedReference name)).toList = filledIn value.toList := by
  have hclosed : ¬ LeavesOpen "[columns]\ndefinition = \"".toList := by
    rintro ⟨front, tail, heq, -⟩
    have hmem : '$' ∉ "[columns]\ndefinition = \"".toList := by simp
    rw [heq] at hmem
    simp at hmem
  have hfront :
      environment.substitute "[columns]\ndefinition = \"" = "[columns]\ndefinition = \"" :=
    substitute_plain environment (by simp)
  have hrest : environment.substitute "\"\n" = "\"\n" := substitute_plain environment (by simp)
  have hvalue : environment.valueOrReference name = value := by
    rw [Environment.valueOrReference, hset]
    rfl
  unfold quotedReference filledIn
  rw [Environment.substitute_append_written environment hclosed hname, hfront, hrest, hvalue]
  simp

/-! ### Reading the file -/

/-- What has been read behind the two lines. -/
def definedAs (definition : String) : Toml.Draft :=
  ⟨[("columns", .table .header [("definition", .text definition)])], ["columns"]⟩

theorem isBare_columns : Toml.IsBare "columns".toList :=
  ⟨by simp, by simp [Toml.isBareKey]⟩

theorem isBare_definition : Toml.IsBare "definition".toList :=
  ⟨by simp, by simp [Toml.isBareKey]⟩

theorem document?_of_filledIn {text : String} {value : List Char}
    (h : text.toList = filledIn value) :
    ∃ bound, Toml.document? text =
      (Toml.string? ('"' :: (value ++ ['"', '\n']))).bind fun (definition, rest) =>
        (Toml.endLine? rest).bind (Toml.lines? (bound + 1) (definedAs definition)) := by
  obtain ⟨bound, hbound⟩ : ∃ bound, (filledIn value).length = bound + 2 :=
    ⟨(filledIn value).length - 2, by simp [filledIn]⟩
  refine ⟨bound, ?_⟩
  have hmark : (filledIn value).head? ≠ some Toml.byteOrderMark := by
    show some '[' ≠ some Toml.byteOrderMark
    decide
  have hsolid : Toml.IsSolid (filledIn value) := ⟨'[', _, rfl, by decide⟩
  have hheader : Toml.Draft.add ⟨[], []⟩ (.header .single ["columns"]) =
      some ⟨[("columns", .table .header [])], ["columns"]⟩ := by
    simp [Toml.Draft.add, Toml.Header.declare, Toml.Header.declareLast]
  have hmember (definition : String) : Toml.Draft.add
      ⟨[("columns", .table .header [])], ["columns"]⟩ (.member ["definition"] (.text definition)) =
        some (definedAs definition) := by
    simp [Toml.Draft.add, Toml.within, Toml.assign, setField, definedAs]
  rw [Toml.document?, h]
  dsimp only
  rw [if_neg hmark, hbound, Toml.lines?_step _ _ hsolid]
  unfold filledIn
  rw [Toml.statement?_header isBare_columns, Option.bind_some]
  dsimp only
  rw [String.ofList_toList, hheader, Option.bind_some]
  rw [show ∀ s, Toml.endLine? ('\n' :: s) = some s from fun _ => rfl, Option.bind_some]
  rw [Toml.lines?_step _ _ (isBare_definition.isSolid _), Toml.statement?_text isBare_definition]
  rw [Option.bind_map, String.ofList_toList]
  simp only [Function.comp_def, hmember, Option.bind_some]

theorem holds_definedAs (definition : String) :
    Toml.Holds definition ["columns", "definition"] (definedAs definition).root :=
  have hcolumns : (definedAs definition).root.lookup "columns" =
      some (.table .header [("definition", .text definition)]) := by
    simp [definedAs]
  .inside hcolumns (.here (by simp))

theorem section?_table {keys : List String} {origin : Toml.Origin} {members : Toml.Members}
    {values : String → Option Toml.Value}
    (h : section? keys (some (.table origin members)) = some values) (key : String) :
    values key = members.lookup key := by
  unfold section? at h
  dsimp only at h
  split_ifs at h
  rw [← Option.some.inj h]

/-- A document with a text as the column definition defines the columns by it. -/
theorem definition_of_holds {root : Toml.Members} {file : FileSettings} {text : String}
    (hroot : Toml.Holds text ["columns", "definition"] root) (h : ofMembers? root = some file) :
    file.definition = some text := by
  cases hroot with
  | inside hcolumns hinner =>
    cases hinner with
    | here hdefinition =>
      unfold ofMembers? at h
      simp only [Option.bind_eq_bind, Option.bind_eq_some_iff] at h
      obtain ⟨-, -, csv, -, output, -, columns, hsection, _, -, _, -, _, -, _, -, _, -, _, -, _, -,
        definition, hread, hfile⟩ := h
      rw [hcolumns] at hsection
      rw [section?_table hsection, hdefinition] at hread
      rw [← Option.some.inj hfile, ← Option.some.inj hread]
    | inside _ hinner => cases hinner

theorem exists_document_of_read {environment : Environment} {text : String} {file : FileSettings}
    (h : read environment text = .ok file) :
    ∃ root, Toml.document? (environment.substitute text) = some root ∧
      ofMembers? root = some file := by
  unfold read at h
  split at h
  · cases h
  · next found hfound =>
    cases hcheck : found.check with
    | error failure =>
      rw [hcheck] at h
      cases h
    | ok _ =>
      rw [hcheck] at h
      rw [← Except.ok.inj h]
      exact Option.bind_eq_some_iff.mp hfound

/-- **A value between quotes arrives as it is exactly if it needs no escapes.**  Then it also gives
no other setting a value. -/
theorem read_quotedReference {environment : Environment} {name value : String}
    (hname : IsName name.toList) (hset : environment name = some value) :
    ((∀ c ∈ value.toList, Toml.isVerbatim c = true) →
      read environment (quotedReference name) = .ok (ofDefinition value)) ∧
    ∀ file, read environment (quotedReference name) = .ok file →
      file.definition = some value → ∀ c ∈ value.toList, Toml.isVerbatim c = true := by
  obtain ⟨bound, hdocument⟩ := document?_of_filledIn (substitute_quotedReference hname hset)
  constructor
  · intro hverbatim
    rw [Toml.string?_of_verbatim hverbatim, Option.bind_some, String.ofList_toList] at hdocument
    have hroot : Toml.document? (environment.substitute (quotedReference name)) =
        some (definedAs value).root := hdocument
    rw [read, hroot]
    rfl
  · intro file hread hdefinition
    obtain ⟨root, hroot, hmembers⟩ := exists_document_of_read hread
    rw [hdocument] at hroot
    obtain ⟨⟨definition, rest⟩, hstring, hlines⟩ := Option.bind_eq_some_iff.mp hroot
    obtain ⟨behind, -, hlines⟩ := Option.bind_eq_some_iff.mp hlines
    have hholds := Toml.keeps_of_lines? hlines _ _ (holds_definedAs definition)
    have hsame : definition = value :=
      Option.some.inj ((definition_of_holds hholds hmembers).symm.trans hdefinition)
    have hread : Toml.string? ('"' :: (value.toList ++ ['"', '\n'])) =
        some (String.ofList value.toList, rest) := by
      rw [hstring, hsame, String.ofList_toList]
    exact Toml.verbatim_of_string? hread

/-- A column definition with blanks, a tabulation, apostrophes, braces and letters beyond ASCII. -/
def richDefinition : String := "Stück\tzahl:n@number, d'$\x7bX\x7d:\x7d"

theorem read_quotedReference_of_rich :
    IsName "X".toList ∧ (∀ c ∈ richDefinition.toList, Toml.isVerbatim c = true) ∧
    read (.ofVariables [("X", richDefinition)]) (quotedReference "X") =
      .ok (ofDefinition richDefinition) := by
  have hname : IsName "X".toList := by decide
  have hset : Environment.ofVariables [("X", richDefinition)] "X" = some richDefinition := by
    cbv
  have hverbatim : ∀ c ∈ richDefinition.toList, Toml.isVerbatim c = true := by
    simp [richDefinition, Toml.isVerbatim, Toml.isPlain]
  exact ⟨hname, hverbatim, (read_quotedReference hname hset).1 hverbatim⟩

/-- A value that ends the string and goes on with another section. -/
def quotedValue : String := "a\"\n[csv]\ntrim = true #"

theorem read_quotedReference_of_quote :
    Environment.ofVariables [("X", quotedValue)] "X" = some quotedValue ∧
    read (.ofVariables [("X", quotedValue)]) "[columns]\ndefinition = \"$\x7bX\x7d\"\n" =
      .ok { empty with trim := some true, definition := some "a" } ∧
    read (.ofVariables [("X", quotedValue)]) "[columns]\ndefinition = \"$\x7bX\x7d\"\n" ≠
      .ok (ofDefinition quotedValue) := by
  have htext : (Environment.ofVariables [("X", quotedValue)]).substitute
      "[columns]\ndefinition = \"$\x7bX\x7d\"\n" =
        "[columns]\ndefinition = \"a\"\n[csv]\ntrim = true #\"\n" := by
    cbv
  have hdocument : Toml.document? "[columns]\ndefinition = \"a\"\n[csv]\ntrim = true #\"\n" =
      some [("columns", .table .header [("definition", .text "a")]),
        ("csv", .table .header [("trim", .boolean true)])] := by
    rw [Toml.document?, if_neg]
    · cbv
    · simp [Toml.byteOrderMark]
  have hread : read (.ofVariables [("X", quotedValue)])
      "[columns]\ndefinition = \"$\x7bX\x7d\"\n" =
        .ok { empty with trim := some true, definition := some "a" } := by
    rw [read, htext, hdocument]
    rfl
  refine ⟨by cbv, hread, ?_⟩
  rw [hread]
  intro heq
  cases heq

end FileSettings

end Rowcast
