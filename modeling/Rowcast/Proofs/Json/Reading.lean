import Mathlib
import Rowcast.Proofs.Json.Reader

/-!
# A JSON text spells one document

The reader gives a document exactly for the texts of the grammar that spell it
(`read?_eq_some_iff`), so no text spells two documents (`Element.unique`).  The proofs follow the
nesting: the fuel of the reader bounds the length of what it reads, and every value inside
brackets is shorter than the value with them.
-/

namespace Rowcast.Json

open Text

/-! ## Strings -/

theorem character?_toNat (x : Char) : character? x.toNat = some x := by
  have hvalid : x.toNat.isValidChar := x.valid
  rw [character?, dif_pos hvalid]
  rfl

theorem toNat_of_character? {n : Nat} {x : Char} (h : character? n = some x) : x.toNat = n := by
  unfold character? at h
  split at h
  · next hvalid =>
    rw [← Option.some.inj h]
    rfl
  · contradiction

theorem not_isHigh_toNat (x : Char) : ¬ IsHigh x.toNat := by
  have hvalid : x.toNat.isValidChar := x.valid
  simp only [Nat.isValidChar] at hvalid
  simp only [IsHigh]
  omega

theorem readUnit?_append {a b c d : Char} {n : Nat} (h : codeUnit? a b c d = some n)
    (rest : List Char) : readUnit? (a :: b :: c :: d :: rest) = some (n, rest) := by
  simp only [readUnit?, h, Option.map_some]

theorem of_readUnit? {s rest : List Char} {n : Nat} (h : readUnit? s = some (n, rest)) :
    ∃ a b c d, s = a :: b :: c :: d :: rest ∧ codeUnit? a b c d = some n := by
  unfold readUnit? at h
  split at h
  · next a b c d s' =>
    obtain ⟨m, hunit, heq⟩ := Option.map_eq_some_iff.mp h
    simp only [Prod.mk.injEq] at heq
    obtain ⟨rfl, rfl⟩ := heq
    exact ⟨a, b, c, d, rfl, hunit⟩
  · contradiction

theorem readCharacter?_append {t : List Char} {x : Char} (h : Character t x) (rest : List Char) :
    readCharacter? (t ++ rest) = some (x, rest) := by
  cases h with
  | plain hcontrol hquote hbackslash =>
    have hstop : ¬ (x = '"' ∨ x.toNat < 0x20) := not_or.mpr ⟨hquote, Nat.not_lt.mpr hcontrol⟩
    rw [List.singleton_append, readCharacter?, if_neg hbackslash, if_neg hstop]
  | short h =>
    simp only [shortEscapes, List.mem_cons, Prod.mk.injEq, List.not_mem_nil, or_false] at h
    rcases h with h | h | h | h | h | h | h | h
    all_goals
      obtain ⟨rfl, rfl⟩ := h
      rfl
  | unit h =>
    have hhigh : ¬ (0xD800 ≤ x.toNat ∧ x.toNat < 0xDC00) := not_isHigh_toNat x
    simp only [List.cons_append, List.nil_append, readCharacter?, readEscape?, if_true,
      readUnit?_append h, if_neg hhigh, character?_toNat, Option.map_some]
  | @pair a b c d a' b' c' d' x high low h h' hhigh hlow hx =>
    have hhigh : 0xD800 ≤ high ∧ high < 0xDC00 := hhigh
    have hlow : 0xDC00 ≤ low ∧ low < 0xE000 := hlow
    simp only [List.cons_append, List.nil_append, readCharacter?, readEscape?, if_true,
      readUnit?_append h, if_pos hhigh, readLow?, expect?_cons, Option.bind_eq_bind,
      Option.bind_some, readUnit?_append h', if_pos hlow, ← hx, character?_toNat, Option.map_some]

theorem mem_of_lookup {α β : Type} [BEq α] [LawfulBEq α] {l : List (α × β)} {a : α} {b : β}
    (h : l.lookup a = some b) : (a, b) ∈ l := by
  obtain ⟨l₁, l₂, heq, -⟩ := List.lookup_eq_some_iff.mp h
  rw [heq]
  simp

theorem of_readLow? {high : Nat} {s rest : List Char} {x : Char}
    (h : readLow? high s = some (x, rest)) :
    ∃ a b c d low, s = '\\' :: 'u' :: a :: b :: c :: d :: rest ∧ codeUnit? a b c d = some low ∧
      IsLow low ∧ x.toNat = pairValue high low := by
  simp only [readLow?, Option.bind_eq_bind, Option.bind_eq_some_iff] at h
  obtain ⟨s₁, h₁, s₂, h₂, ⟨low, s₃⟩, h₃, h⟩ := h
  split at h
  · next hlow =>
    obtain ⟨y, hy, heq⟩ := Option.map_eq_some_iff.mp h
    simp only [Prod.mk.injEq] at heq
    obtain ⟨rfl, rfl⟩ := heq
    obtain ⟨a, b, c, d, rfl, hunit⟩ := of_readUnit? h₃
    rw [eq_of_expect? h₁, eq_of_expect? h₂]
    exact ⟨a, b, c, d, low, rfl, hunit, hlow, toNat_of_character? hy⟩
  · contradiction

theorem of_readEscape? {s rest : List Char} {x : Char} (h : readEscape? s = some (x, rest)) :
    ∃ t, '\\' :: s = t ++ rest ∧ Character t x := by
  cases s with
  | nil => contradiction
  | cons c s =>
    rw [readEscape?] at h
    split at h
    · next hc =>
      split at h
      · contradiction
      · next n s' hread =>
        obtain ⟨a, b, c', d, rfl, hunit⟩ := of_readUnit? hread
        rw [hc]
        split at h
        · next hhigh =>
          obtain ⟨a', b', c'', d', low, rfl, hunit', hlow, hx⟩ := of_readLow? h
          exact ⟨_, rfl, .pair hunit hunit' hhigh hlow hx⟩
        · obtain ⟨y, hy, heq⟩ := Option.map_eq_some_iff.mp h
          simp only [Prod.mk.injEq] at heq
          obtain ⟨rfl, rfl⟩ := heq
          rw [← toNat_of_character? hy] at hunit
          exact ⟨_, rfl, .unit hunit⟩
    · obtain ⟨y, hy, heq⟩ := Option.map_eq_some_iff.mp h
      simp only [Prod.mk.injEq] at heq
      obtain ⟨rfl, rfl⟩ := heq
      exact ⟨_, rfl, .short (mem_of_lookup hy)⟩

theorem of_readCharacter? {s rest : List Char} {x : Char}
    (h : readCharacter? s = some (x, rest)) : ∃ t, s = t ++ rest ∧ Character t x := by
  cases s with
  | nil => contradiction
  | cons c s =>
    rw [readCharacter?] at h
    split at h
    · next hc =>
      rw [hc]
      exact of_readEscape? h
    · next hbackslash =>
      split at h
      · contradiction
      · next hplain =>
        obtain ⟨hquote, hcontrol⟩ := not_or.mp hplain
        simp only [Option.some.injEq, Prod.mk.injEq] at h
        obtain ⟨rfl, rfl⟩ := h
        exact ⟨[c], rfl, .plain (Nat.not_lt.mp hcontrol) hquote hbackslash⟩

theorem Character.exists_cons {t : List Char} {x : Char} (h : Character t x) :
    ∃ c s, t = c :: s ∧ c ≠ '"' := by
  cases h with
  | plain _ hquote => exact ⟨_, _, rfl, hquote⟩
  | short | unit | pair => exact ⟨_, _, rfl, by decide⟩

theorem readCharacters?_append {t s : List Char} (h : Characters t s) {n : Nat}
    (hn : t.length < n) (rest : List Char) :
    readCharacters? n (t ++ '"' :: rest) = some (s, rest) := by
  induction h generalizing n with
  | nil =>
    obtain ⟨n, rfl⟩ := Nat.exists_eq_succ_of_ne_zero (Nat.ne_of_gt hn)
    simp only [List.nil_append, readCharacters?, expect?_cons]
  | @cons t u s x h hrest ih =>
    obtain ⟨c, t', rfl, hc⟩ := h.exists_cons
    obtain ⟨n, rfl⟩ := Nat.exists_eq_succ_of_ne_zero (Nat.ne_of_gt (Nat.zero_lt_of_lt hn))
    have hu : u.length < n := by
      simp only [List.length_append, List.length_cons] at hn
      omega
    have hquote : expect? '"' ((c :: t') ++ (u ++ '"' :: rest)) = none := expect?_cons_ne hc _
    simp only [List.append_assoc, readCharacters?, hquote, readCharacter?_append h, ih hu,
      Option.bind_eq_bind, Option.bind_some, Option.pure_def]

theorem of_readCharacters? {n : Nat} {s rest xs : List Char}
    (h : readCharacters? n s = some (xs, rest)) :
    ∃ t, s = t ++ '"' :: rest ∧ Characters t xs := by
  induction n generalizing s xs with
  | zero => contradiction
  | succ n ih =>
    rw [readCharacters?] at h
    split at h
    · next s' hs =>
      simp only [Option.some.injEq, Prod.mk.injEq] at h
      obtain ⟨rfl, rfl⟩ := h
      exact ⟨[], eq_of_expect? hs, .nil⟩
    · simp only [Option.bind_eq_bind, Option.bind_eq_some_iff, Option.pure_def,
        Option.some.injEq, Prod.mk.injEq] at h
      obtain ⟨⟨x, s₁⟩, h₁, ⟨xs', s₂⟩, h₂, rfl, rfl⟩ := h
      obtain ⟨t, rfl, ht⟩ := of_readCharacter? h₁
      obtain ⟨u, rfl, hu⟩ := ih h₂
      exact ⟨t ++ u, by rw [List.append_assoc], .cons ht hu⟩

theorem readQuoted?_append {t : List Char} {s : String} (h : Quoted t s) (rest : List Char) :
    readQuoted? (t ++ rest) = some (s, rest) := by
  cases h with
  | @mk t s h =>
    have hlength : t.length < (t ++ '"' :: rest).length := by
      simp only [List.length_append, List.length_cons]
      omega
    simp only [List.cons_append, List.append_assoc, List.nil_append, readQuoted?, expect?_cons,
      Option.bind_eq_bind, Option.bind_some, readCharacters?_append h hlength, Option.pure_def]

theorem of_readQuoted? {s rest : List Char} {text : String}
    (h : readQuoted? s = some (text, rest)) : ∃ t, s = t ++ rest ∧ Quoted t text := by
  simp only [readQuoted?, Option.bind_eq_bind, Option.bind_eq_some_iff, Option.pure_def,
    Option.some.injEq, Prod.mk.injEq] at h
  obtain ⟨s₁, h₁, ⟨xs, s₂⟩, h₂, rfl, rfl⟩ := h
  obtain ⟨t, rfl, ht⟩ := of_readCharacters? h₂
  refine ⟨'"' :: (t ++ ['"']), ?_, .mk ht⟩
  rw [eq_of_expect? h₁]
  simp

/-! ## Space -/

theorem space_nil : Space [] := List.forall_mem_nil _

theorem space_append {s t : List Char} (hs : Space s) (ht : Space t) : Space (s ++ t) :=
  List.forall_mem_append.mpr ⟨hs, ht⟩

theorem skipSpace_append {before rest : List Char} (h : Space before)
    (hrest : Stops isSpace rest) : skipSpace (before ++ rest) = rest :=
  (span_append h hrest).2

theorem exists_skipSpace (s : List Char) : ∃ before, s = before ++ skipSpace s ∧ Space before :=
  ⟨s.takeWhile isSpace, List.takeWhile_append_dropWhile.symm, fun _ hc => List.mem_takeWhile_imp hc⟩

theorem stops_of_space {s : List Char} (h : Space s) : Stops continuesNumber s := by
  intro c hc
  have hspace := h c (List.mem_of_mem_head? hc)
  simp only [isSpace, Bool.or_eq_true, decide_eq_true_eq] at hspace
  rcases hspace with ((rfl | rfl) | rfl) | rfl <;> decide

/-! ## Values -/

theorem Number.exists_cons {t : List Char} {d : Decimal} (h : Number t d) :
    ∃ c s, t = c :: s ∧ (c.isDigit = true ∨ c = '-') := by
  cases h with
  | positive h =>
    obtain ⟨c, s, rfl, hc⟩ := exists_cons_of_unsigned h
    exact ⟨c, s, rfl, .inl hc⟩
  | negative h => exact ⟨'-', _, rfl, .inr rfl⟩

def opensValue (c : Char) : Bool := c.isDigit || c ∈ ['n', 't', 'f', '-', '"', '[', '\x7b']

theorem Bracketed.exists_cons {α : Type} {P : List Char → α → Prop} {opening closing : Char}
    {t : List Char} {items : List α} (h : Bracketed P opening closing t items) :
    ∃ s, t = opening :: s := by
  cases h with
  | empty | parts => exact ⟨_, rfl⟩

theorem Quoted.exists_cons {t : List Char} {s : String} (h : Quoted t s) : ∃ u, t = '"' :: u := by
  cases h with
  | mk => exact ⟨_, rfl⟩

theorem Bare.exists_cons {t : List Char} {d : Document} (h : Bare t d) :
    ∃ c s, t = c :: s ∧ opensValue c = true := by
  cases h with
  | null | yes | no => exact ⟨_, _, rfl, rfl⟩
  | number h =>
    obtain ⟨c, s, rfl, hc⟩ := h.exists_cons
    refine ⟨c, s, rfl, ?_⟩
    rcases hc with hc | rfl
    · simp [opensValue, hc]
    · rfl
  | text h =>
    obtain ⟨s, rfl⟩ := h.exists_cons
    exact ⟨_, s, rfl, rfl⟩
  | array h | object h =>
    obtain ⟨s, rfl⟩ := h.exists_cons
    exact ⟨_, s, rfl, rfl⟩

theorem opensValue_eq_false {c : Char} (h : isSpace c = true ∨ c = ']') : opensValue c = false := by
  simp only [isSpace, Bool.or_eq_true, decide_eq_true_eq] at h
  rcases h with (((rfl | rfl) | rfl) | rfl) | rfl <;> decide

theorem Bare.stops {p : Char → Bool} {t : List Char} {d : Document} (h : Bare t d)
    (hp : ∀ c, p c = true → opensValue c = false) (rest : List Char) : Stops p (t ++ rest) := by
  obtain ⟨c, s, rfl, hc⟩ := h.exists_cons
  refine stops_cons ?_ (s ++ rest)
  by_contra hpc
  rw [hp c (by simpa using hpc)] at hc
  contradiction

theorem Separated.exists_first {α : Type} {P : List Char → α → Prop} {t : List Char}
    {items : List α} (h : Separated P t items) : ∃ u v a, t = u ++ v ∧ P u a := by
  cases h with
  | one h => exact ⟨t, [], _, (List.append_nil t).symm, h⟩
  | more h => exact ⟨_, _, _, rfl, h⟩

/-- A reader of parts reads parts with commas between them, if it reads each of them up to the
comma or bracket that follows. -/
theorem readSeparated?_append {α : Type} {P : List Char → α → Prop}
    {read : List Char → Option (α × List Char)} {closing : Char} (hclosing : closing ≠ ',') {m : Nat}
    (hread : ∀ {t a} (c : Char) (rest : List Char), P t a → t.length ≤ m → c = ',' ∨ c = closing →
      read (t ++ c :: rest) = some (a, c :: rest))
    {t : List Char} {items : List α} (h : Separated P t items) (hm : t.length ≤ m) {n : Nat}
    (hn : t.length < n) (rest : List Char) :
    readSeparated? read closing n (t ++ closing :: rest) = some (items, rest) := by
  induction h generalizing n with
  | one h =>
    obtain ⟨n, rfl⟩ := Nat.exists_eq_succ_of_ne_zero (Nat.ne_of_gt (Nat.zero_lt_of_lt hn))
    simp only [readSeparated?, hread closing rest h hm (.inr rfl), expect?_cons,
      Option.bind_eq_bind, Option.bind_some, Option.pure_def]
  | @more t u a items h hrest ih =>
    obtain ⟨n, rfl⟩ := Nat.exists_eq_succ_of_ne_zero (Nat.ne_of_gt (Nat.zero_lt_of_lt hn))
    simp only [List.length_append, List.length_cons] at hm hn
    have ht : t.length ≤ m := by omega
    have hu : u.length ≤ m := by omega
    have hun : u.length < n := by omega
    have hcomma : expect? closing (',' :: (u ++ closing :: rest)) = none :=
      expect?_cons_ne hclosing.symm _
    simp only [List.append_assoc, List.cons_append, readSeparated?,
      hread ',' (u ++ closing :: rest) h ht (.inl rfl), hcomma, expect?_cons, ih hu hun,
      Option.bind_eq_bind, Option.bind_some, Option.pure_def]

theorem of_readSeparated? {α : Type} {P : List Char → α → Prop}
    {read : List Char → Option (α × List Char)} {closing : Char}
    (hread : ∀ {s a rest}, read s = some (a, rest) → ∃ t, s = t ++ rest ∧ P t a) {n : Nat}
    {s rest : List Char} {items : List α} (h : readSeparated? read closing n s = some (items, rest)) :
    ∃ t, s = t ++ closing :: rest ∧ Separated P t items := by
  induction n generalizing s items with
  | zero => contradiction
  | succ n ih =>
    simp only [readSeparated?, Option.bind_eq_bind, Option.bind_eq_some_iff] at h
    obtain ⟨⟨a, s₁⟩, h₁, h⟩ := h
    obtain ⟨t, rfl, ht⟩ := hread h₁
    split at h
    · next s₂ h₂ =>
      simp only [Option.pure_def, Option.some.injEq, Prod.mk.injEq] at h
      obtain ⟨rfl, rfl⟩ := h
      exact ⟨t, congrArg (t ++ ·) (eq_of_expect? h₂), .one ht⟩
    · simp only [Option.bind_eq_some_iff, Option.pure_def, Option.some.injEq, Prod.mk.injEq] at h
      obtain ⟨s₂, h₂, ⟨others, s₃⟩, h₃, rfl, rfl⟩ := h
      obtain ⟨u, rfl, hu⟩ := ih h₃
      refine ⟨t ++ ',' :: u, ?_, .more ht hu⟩
      rw [eq_of_expect? h₂]
      simp

/-- Where parts can be read and do not begin with the closing bracket, brackets around them can be
read, once the opening one is off. -/
theorem readBracketed?_append {α : Type} {P : List Char → α → Prop}
    {read : List Char → Option (α × List Char)} {opening closing : Char} (hcomma : closing ≠ ',')
    (hspace : isSpace closing = false)
    (hfirst : ∀ {t a} rest, P t a → expect? closing (skipSpace (t ++ rest)) = none) {n : Nat}
    (hread : ∀ {t a} (c : Char) (rest : List Char), P t a → t.length ≤ n → c = ',' ∨ c = closing →
      read (t ++ c :: rest) = some (a, c :: rest))
    {t : List Char} {items : List α} (h : Bracketed P opening closing (opening :: t) items)
    (hn : t.length ≤ n) (rest : List Char) :
    readBracketed? read closing n (t ++ rest) = some (items, rest) := by
  cases h with
  | @empty space h =>
    have hclosing : skipSpace (space ++ closing :: rest) = closing :: rest :=
      skipSpace_append h (stops_cons hspace rest)
    simp only [List.append_assoc, List.cons_append, List.nil_append, readBracketed?, hclosing,
      expect?_cons]
  | @parts t items h =>
    simp only [List.length_append, List.length_cons, List.length_nil] at hn
    obtain ⟨u, v, a, rfl, hu⟩ := h.exists_first
    have hopen : expect? closing (skipSpace ((u ++ v) ++ closing :: rest)) = none := by
      rw [List.append_assoc]
      exact hfirst _ hu
    have hparts := readSeparated?_append hcomma hread h (by omega) (n := n) (by omega) rest
    rw [List.append_assoc, List.singleton_append, readBracketed?, hopen, hparts]

theorem of_readBracketed? {α : Type} {P : List Char → α → Prop}
    {read : List Char → Option (α × List Char)} {opening closing : Char}
    (hread : ∀ {s a rest}, read s = some (a, rest) → ∃ t, s = t ++ rest ∧ P t a) {n : Nat}
    {s rest : List Char} {items : List α} (h : readBracketed? read closing n s = some (items, rest)) :
    ∃ t, opening :: s = t ++ rest ∧ Bracketed P opening closing t items := by
  unfold readBracketed? at h
  split at h
  · next s' hs =>
    obtain ⟨space, heq, hspace⟩ := exists_skipSpace s
    simp only [Option.some.injEq, Prod.mk.injEq] at h
    obtain ⟨rfl, rfl⟩ := h
    refine ⟨_, ?_, .empty hspace⟩
    rw [heq, eq_of_expect? hs]
    simp
  · obtain ⟨t, rfl, ht⟩ := of_readSeparated? hread h
    exact ⟨_, by simp, .parts ht⟩

section Parts

variable {read : List Char → Option (Document × List Char)} {m : Nat}

/-- `read` reads every value of length `m` at most, whatever follows that is no part of it. -/
def ReadsValues (read : List Char → Option (Document × List Char)) (m : Nat) : Prop :=
  ∀ {t d rest}, Bare t d → t.length ≤ m → Stops continuesNumber rest →
    read (t ++ rest) = some (d, rest)

def ReadsOnlyValues (read : List Char → Option (Document × List Char)) : Prop :=
  ∀ {s d rest}, read s = some (d, rest) → ∃ t, s = t ++ rest ∧ Bare t d

theorem readElementWith?_append (hread : ReadsValues read m) {t rest : List Char} {d : Document}
    (h : Element t d) (hm : t.length ≤ m) (hspace : Stops isSpace rest)
    (hnumber : Stops continuesNumber rest) :
    readElementWith? read (t ++ rest) = some (d, rest) := by
  cases h with
  | @mk before t after d hbefore h hafter =>
    simp only [List.length_append] at hm
    have hvalue : Stops isSpace (t ++ (after ++ rest)) :=
      h.stops (fun c hc => opensValue_eq_false (.inl hc)) _
    have hrest : Stops continuesNumber (after ++ rest) :=
      stops_append (stops_of_space hafter) hnumber
    simp only [readElementWith?, List.append_assoc, skipSpace_append hbefore hvalue,
      hread h (by omega) hrest, skipSpace_append hafter hspace, Option.bind_eq_bind,
      Option.bind_some, Option.pure_def]

theorem of_readElementWith? (hread : ReadsOnlyValues read) {s rest : List Char} {d : Document}
    (h : readElementWith? read s = some (d, rest)) : ∃ t, s = t ++ rest ∧ Element t d := by
  simp only [readElementWith?, Option.bind_eq_bind, Option.bind_eq_some_iff, Option.pure_def,
    Option.some.injEq, Prod.mk.injEq] at h
  obtain ⟨⟨d', s₁⟩, h₁, rfl, rfl⟩ := h
  obtain ⟨before, hs, hbefore⟩ := exists_skipSpace s
  obtain ⟨after, hs₁, hafter⟩ := exists_skipSpace s₁
  obtain ⟨t, ht, hvalue⟩ := hread h₁
  refine ⟨before ++ (t ++ after), ?_, .mk hbefore hvalue hafter⟩
  rw [hs, ht, hs₁]
  simp only [List.append_assoc, ← hs₁]

theorem readMemberWith?_append (hread : ReadsValues read m) {t rest : List Char}
    {member : String × Document} (h : Member t member) (hm : t.length ≤ m)
    (hspace : Stops isSpace rest) (hnumber : Stops continuesNumber rest) :
    readMemberWith? read (t ++ rest) = some (member, rest) := by
  cases h with
  | @mk before t after u name d hbefore hname hafter h =>
    simp only [List.length_append, List.length_cons] at hm
    have hquoted : Stops isSpace (t ++ (after ++ ':' :: (u ++ rest))) := by
      cases hname with
      | mk => exact stops_cons (by decide) _
    have hcolon : Stops isSpace (':' :: (u ++ rest)) := stops_cons (by decide) _
    simp only [readMemberWith?, List.append_assoc, List.cons_append,
      skipSpace_append hbefore hquoted, readQuoted?_append hname, skipSpace_append hafter hcolon,
      expect?_cons, readElementWith?_append hread h (by omega) hspace hnumber,
      Option.bind_eq_bind, Option.bind_some, Option.pure_def]

theorem of_readMemberWith? (hread : ReadsOnlyValues read) {s rest : List Char}
    {member : String × Document} (h : readMemberWith? read s = some (member, rest)) :
    ∃ t, s = t ++ rest ∧ Member t member := by
  simp only [readMemberWith?, Option.bind_eq_bind, Option.bind_eq_some_iff, Option.pure_def,
    Option.some.injEq, Prod.mk.injEq] at h
  obtain ⟨⟨name, s₁⟩, h₁, s₂, h₂, ⟨d, s₃⟩, h₃, rfl, rfl⟩ := h
  obtain ⟨before, hs, hbefore⟩ := exists_skipSpace s
  obtain ⟨after, hs₁, hafter⟩ := exists_skipSpace s₁
  obtain ⟨t, ht, hname⟩ := of_readQuoted? h₁
  obtain ⟨u, hu, helement⟩ := of_readElementWith? hread h₃
  refine ⟨before ++ (t ++ (after ++ ':' :: u)), ?_, .mk hbefore hname hafter helement⟩
  rw [hs, ht, hs₁, eq_of_expect? h₂, hu]
  simp

end Parts

theorem readWord?_append (word : List Char) (d : Document) (rest : List Char) :
    readWord? word d (word ++ rest) = some (d, rest) := by
  rw [readWord?, if_pos (List.prefix_append word rest), List.drop_left]

theorem of_readWord? {word s rest : List Char} {d d' : Document}
    (h : readWord? word d s = some (d', rest)) : s = word ++ rest ∧ d' = d := by
  unfold readWord? at h
  split at h
  · next hprefix =>
    obtain ⟨u, rfl⟩ := hprefix
    rw [List.drop_left] at h
    simp only [Option.some.injEq, Prod.mk.injEq] at h
    exact ⟨by rw [h.2], h.1.symm⟩
  · contradiction

/-- What a bracket or comma that follows a part cannot do is to continue it. -/
theorem stops_of_delimiter {c : Char} (hc : c = ',' ∨ c = ']' ∨ c = '\x7d') (rest : List Char) :
    Stops isSpace (c :: rest) ∧ Stops continuesNumber (c :: rest) := by
  rcases hc with rfl | rfl | rfl <;> exact ⟨stops_cons (by decide) _, stops_cons (by decide) _⟩

theorem readValue?_of_number {t : List Char} {d : Decimal} (h : Number t d) (n : Nat)
    (rest : List Char) :
    readValue? (n + 1) (t ++ rest) = mapRead .number (readNumber? (t ++ rest)) := by
  obtain ⟨c, s, rfl, hc⟩ := h.exists_cons
  have hne : ∀ a : Char, a.isDigit = false → a ≠ '-' → c ≠ a := by
    rintro a ha hminus rfl
    rcases hc with hc | hc
    · rw [ha] at hc
      contradiction
    · exact hminus hc
  rw [List.cons_append, readValue?, if_neg (hne 'n' rfl (by decide)),
    if_neg (hne 't' rfl (by decide)), if_neg (hne 'f' rfl (by decide)),
    if_neg (hne '"' rfl (by decide)), if_neg (hne '[' rfl (by decide)),
    if_neg (hne '\x7b' rfl (by decide))]

theorem Element.expect? {t : List Char} {d : Document} (rest : List Char) (h : Element t d) :
    expect? ']' (skipSpace (t ++ rest)) = none := by
  cases h with
  | @mk before t after d hbefore h hafter =>
    have hvalue : Stops isSpace (t ++ (after ++ rest)) :=
      h.stops (fun c hc => opensValue_eq_false (.inl hc)) _
    simp only [List.append_assoc, skipSpace_append hbefore hvalue]
    exact expect?_of_stops
      (h.stops (fun c hc => opensValue_eq_false (.inr (by simpa using hc))) _)

theorem Member.expect? {t : List Char} {member : String × Document} (rest : List Char)
    (h : Member t member) : expect? '\x7d' (skipSpace (t ++ rest)) = none := by
  cases h with
  | @mk before t after u name d hbefore hname hafter h =>
    obtain ⟨t, rfl⟩ := hname.exists_cons
    simp only [List.append_assoc, List.cons_append]
    rw [skipSpace_append hbefore (stops_cons (by decide) _)]
    exact expect?_cons_ne (by decide) _

theorem readValue?_append (n : Nat) : ReadsValues (readValue? n) n := by
  induction n with
  | zero =>
    intro t d rest h hn
    obtain ⟨c, s, rfl, -⟩ := h.exists_cons
    simp at hn
  | succ n ih =>
    intro t d rest h hn hrest
    cases h with
    | null => exact readWord?_append ['u', 'l', 'l'] .null rest
    | yes => exact readWord?_append ['r', 'u', 'e'] (.boolean true) rest
    | no => exact readWord?_append ['a', 'l', 's', 'e'] (.boolean false) rest
    | number h => rw [readValue?_of_number h, readNumber?_append h hrest, mapRead_some]
    | text h =>
      have hread := readQuoted?_append h rest
      obtain ⟨t, rfl⟩ := h.exists_cons
      exact congrArg (mapRead Document.text) hread
    | @array _ items h =>
      obtain ⟨t, rfl⟩ := h.exists_cons
      have hitems : readBracketed? (readElementWith? (readValue? n)) ']' n (t ++ rest) =
          some (items, rest) := by
        refine readBracketed?_append (by decide) (by decide) Element.expect? ?_ h
          (Nat.le_of_succ_le_succ hn) rest
        intro u d c s helement hu hc
        obtain ⟨hspace, hnumber⟩ := stops_of_delimiter (hc.imp_right .inl) s
        exact readElementWith?_append ih helement hu hspace hnumber
      exact congrArg (mapRead Document.array) hitems
    | @object _ members h =>
      obtain ⟨t, rfl⟩ := h.exists_cons
      have hmembers : readBracketed? (readMemberWith? (readValue? n)) '\x7d' n (t ++ rest) =
          some (members, rest) := by
        refine readBracketed?_append (by decide) (by decide) Member.expect? ?_ h
          (Nat.le_of_succ_le_succ hn) rest
        intro u member c s hmember hu hc
        obtain ⟨hspace, hnumber⟩ := stops_of_delimiter (hc.imp_right .inr) s
        exact readMemberWith?_append ih hmember hu hspace hnumber
      exact congrArg (mapRead Document.object) hmembers

theorem of_readValue? (n : Nat) : ReadsOnlyValues (readValue? n) := by
  induction n with
  | zero =>
    intro s d rest h
    contradiction
  | succ n ih =>
    intro s d rest h
    cases s with
    | nil => contradiction
    | cons c s =>
      rw [readValue?] at h
      split_ifs at h with hn ht hf hquote harray hobject
      · obtain ⟨rfl, rfl⟩ := of_readWord? h
        exact ⟨_, by rw [hn]; rfl, .null⟩
      · obtain ⟨rfl, rfl⟩ := of_readWord? h
        exact ⟨_, by rw [ht]; rfl, .yes⟩
      · obtain ⟨rfl, rfl⟩ := of_readWord? h
        exact ⟨_, by rw [hf]; rfl, .no⟩
      · obtain ⟨text, hread, rfl⟩ := exists_of_mapRead h
        obtain ⟨t, ht, htext⟩ := of_readQuoted? hread
        exact ⟨t, ht, .text htext⟩
      · obtain ⟨items, hread, rfl⟩ := exists_of_mapRead h
        obtain ⟨t, ht, hitems⟩ := of_readBracketed? (of_readElementWith? ih) hread
        exact ⟨t, harray ▸ ht, .array hitems⟩
      · obtain ⟨members, hread, rfl⟩ := exists_of_mapRead h
        obtain ⟨t, ht, hmembers⟩ := of_readBracketed? (of_readMemberWith? ih) hread
        exact ⟨t, hobject ▸ ht, .object hmembers⟩
      · obtain ⟨d, hread, rfl⟩ := exists_of_mapRead h
        obtain ⟨t, ht, hnumber⟩ := of_readNumber? hread
        exact ⟨t, ht, .number hnumber⟩

/-- The reader gives exactly the documents that the grammar allows for a text. -/
theorem read?_eq_some_iff {s : List Char} {d : Document} : read? s = some d ↔ Element s d := by
  constructor
  · intro h
    unfold read? at h
    split at h
    · next d' hread =>
      obtain ⟨t, ht, helement⟩ := of_readElementWith? (of_readValue? s.length) hread
      rw [List.append_nil] at ht
      rw [ht, ← Option.some.inj h]
      exact helement
    · contradiction
  · intro h
    have hread := readElementWith?_append (readValue?_append s.length) h (Nat.le_refl _)
      (stops_nil _) (stops_nil _)
    rw [List.append_nil] at hread
    rw [read?, hread]

/-- A text spells one document at most. -/
theorem Element.unique {s : List Char} {d d' : Document} (h : Element s d) (h' : Element s d') :
    d = d' :=
  Option.some.inj ((read?_eq_some_iff.mpr h).symm.trans (read?_eq_some_iff.mpr h'))

end Rowcast.Json
