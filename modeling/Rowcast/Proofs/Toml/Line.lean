import Mathlib
import Rowcast.Proofs.Text.Span
import Rowcast.Toml.Document

/-!
# Lines as they are usually written

A header of one bare key in brackets, and a bare key with a string, an equals sign between blanks in
front of it, are read as they look (`statement?_header`, `statement?_text`).  For a line that starts
in the first column nothing has to be passed over, so reading it is one step of `lines?`
(`lines?_step`).
-/

namespace Rowcast.Toml

structure IsBare (word : List Char) : Prop where
  ne_nil : word ≠ []
  isBareKey : ∀ c ∈ word, isBareKey c = true

theorem ne_of_isBareKey {c d : Char} (hc : isBareKey c = true) (hd : isBareKey d = false) :
    c ≠ d := by
  rintro rfl
  rw [hc] at hd
  cases hd

theorem skipGap_of_not {c : Char} (h : isGap c = false) (s : List Char) :
    skipGap (c :: s) = c :: s := by
  simp [skipGap, h]

theorem isGap_of_isBareKey {c : Char} (h : isBareKey c = true) : isGap c = false := by
  have hspace := ne_of_isBareKey h (show isBareKey ' ' = false from by decide)
  have htab := ne_of_isBareKey h (show isBareKey '\t' = false from by decide)
  simp [isGap, hspace, htab]

variable {word : List Char}

theorem IsBare.exists_cons (h : IsBare word) :
    ∃ c t, word = c :: t ∧ Toml.isBareKey c = true := by
  obtain ⟨c, t, rfl⟩ := List.exists_cons_of_ne_nil h.ne_nil
  exact ⟨c, t, rfl, h.isBareKey c List.mem_cons_self⟩

/-! ### Keys -/

theorem keyPart?_bare (h : IsBare word) {rest : List Char} (hrest : Text.Stops isBareKey rest) :
    keyPart? (word ++ rest) = some (String.ofList word, rest) := by
  obtain ⟨htake, hdrop⟩ := Text.span_append h.isBareKey hrest
  obtain ⟨c, t, rfl, hc⟩ := h.exists_cons
  have hquote := ne_of_isBareKey hc (show isBareKey '"' = false from by decide)
  have hapostrophe := ne_of_isBareKey hc (show isBareKey apostrophe = false from by decide)
  rw [List.cons_append] at htake hdrop ⊢
  rw [keyPart?, if_neg hquote, if_neg hapostrophe, if_pos hc, htake, hdrop]

theorem path?_bare (h : IsBare word) {rest : List Char} (hrest : Text.Stops isBareKey rest)
    (hpoint : (skipGap rest).head? ≠ some '.') :
    path? (word ++ rest) = some ([String.ofList word], skipGap rest) := by
  obtain ⟨n, hn⟩ : ∃ n, (word ++ rest).length = n + 1 := by
    obtain ⟨c, t, rfl, -⟩ := h.exists_cons
    exact ⟨_, rfl⟩
  rw [path?, hn, key?, keyPart?_bare h hrest]
  dsimp only
  split
  · next heq => simp [heq] at hpoint
  · rfl

/-! ### Statements -/

theorem statement?_header (h : IsBare word) (rest : List Char) :
    statement? ('[' :: (word ++ ']' :: rest)) =
      some (.header .single [String.ofList word], rest) := by
  have hbracket : isBareKey ']' = false := by decide
  have hpath : path? (word ++ ']' :: rest) = some ([String.ofList word], ']' :: rest) :=
    path?_bare h (Text.stops_cons hbracket rest) (by simp [skipGap_of_not (c := ']') rfl])
  obtain ⟨c, t, rfl, hc⟩ := h.exists_cons
  have hopening := ne_of_isBareKey hc (show isBareKey '[' = false from by decide)
  rw [List.cons_append] at hpath ⊢
  rw [statement?, header?]
  · rw [skipGap_of_not (isGap_of_isBareKey hc), hpath]
    rfl
  · intro s heq
    exact hopening (List.cons.inj heq).1

theorem statement?_text (h : IsBare word) (s : List Char) :
    statement? (word ++ ' ' :: '=' :: ' ' :: '"' :: s) =
      (string? ('"' :: s)).map fun (text, rest) =>
        (.member [String.ofList word] (.text text), rest) := by
  have hspace : isBareKey ' ' = false := by decide
  have hpath : path? (word ++ ' ' :: '=' :: ' ' :: '"' :: s) =
      some ([String.ofList word], '=' :: ' ' :: '"' :: s) :=
    path?_bare h (Text.stops_cons hspace _) (by simp [skipGap, isGap])
  obtain ⟨c, t, rfl, hc⟩ := h.exists_cons
  have hopening := ne_of_isBareKey hc (show isBareKey '[' = false from by decide)
  rw [List.cons_append] at hpath ⊢
  have hvalue : value? (' ' :: '"' :: s).length (skipGap (' ' :: '"' :: s)) =
      (string? ('"' :: s)).map fun (text, rest) => (.text text, rest) := rfl
  rw [statement?]
  · rw [hpath]
    show (value? (' ' :: '"' :: s).length (skipGap (' ' :: '"' :: s))).map _ = _
    rw [hvalue, Option.map_map]
    rfl
  · intro s heq
    exact hopening (List.cons.inj heq).1

/-! ### Lines -/

/-- Nothing that may be passed over stands at the start. -/
def IsSolid (s : List Char) : Prop :=
  ∃ c t, s = c :: t ∧ isGap c = false ∧ c ≠ '#' ∧ c ≠ '\n' ∧ c ≠ '\r'

theorem IsBare.isSolid (h : IsBare word) (s : List Char) : IsSolid (word ++ s) := by
  obtain ⟨c, t, rfl, hc⟩ := h.exists_cons
  exact ⟨c, t ++ s, rfl, isGap_of_isBareKey hc, ne_of_isBareKey hc (by decide),
    ne_of_isBareKey hc (by decide), ne_of_isBareKey hc (by decide)⟩

theorem skipSpace?_of_isSolid {s : List Char} (h : IsSolid s) : skipSpace? s = some s := by
  obtain ⟨c, t, rfl, hgap, hmark, hfeed, hreturn⟩ := h
  have hcomment : skipComment? (c :: t) = some (c :: t) := by
    unfold skipComment?
    split
    · next heq => exact absurd (List.cons.inj heq).1 hmark
    · rfl
  have hbreak : lineBreak? (c :: t) = none := by
    unfold lineBreak?
    split
    · next heq => exact absurd (List.cons.inj heq).1 hfeed
    · next heq => exact absurd (List.cons.inj heq).1 hreturn
    · rfl
  rw [skipSpace?, List.length_cons, skipLines?, skipGap_of_not hgap, hcomment]
  dsimp only
  rw [hbreak]

/-- Where nothing has to be passed over, one statement is read and added. -/
theorem lines?_step (bound : Nat) (draft : Draft) {s : List Char} (hsolid : IsSolid s) :
    lines? (bound + 1) draft s = (statement? s).bind fun (statement, rest) =>
      (draft.add statement).bind fun added => (endLine? rest).bind (lines? bound added) := by
  obtain ⟨c, t, rfl, -⟩ := id hsolid
  rw [lines?, skipSpace?_of_isSolid hsolid]
  dsimp only
  cases statement? (c :: t) with
  | none => rfl
  | some read =>
    obtain ⟨statement, rest⟩ := read
    rw [Option.bind_some]
    dsimp only
    cases draft.add statement with
    | none => rfl
    | some added => cases endLine? rest <;> rfl

end Rowcast.Toml
