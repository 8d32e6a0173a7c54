import Rowcast.Text.Blank
import Rowcast.Text.Utf8

/-!
# Reading UTF-8 undoes writing it

`decode` and `encode` are inverse to each other: `decode_encode` reads back every text, and
`encode_of_decode` says that bytes are read as a text only if they are what writing that text
gives.  So the bytes that `decode` accepts are the `Valid` ones, those that spell some text.

The proof goes character by character.  `next?_encode` says that the bytes of a character are read
as that character whatever follows them, and `eq_encode_of_next?` is its converse; for each of the
four lengths the two directions are one computation with the bits of the character.

A byte of ASCII stands for itself and is no part of a longer sequence.  Hence dropping such bytes
at the ends of some bytes never changes whether they are valid (`valid_strip`), and from the text
that valid bytes spell it drops the characters they stand for (`toText_around`).
-/

namespace Rowcast.Utf8

open String (utf8EncodeChar)

/-! ## One character -/

theorem toNat_ofNat_of_lt {n : Nat} (h : n < 256) : (UInt8.ofNat n).toNat = n := by
  rw [UInt8.toNat_ofNat']
  exact Nat.mod_eq_of_lt h

theorem toNat_lt (c : Char) : c.toNat < 0x110000 := by
  have h : c.toNat.isValidChar := c.valid
  rcases h with h | h <;> omega

theorem scalar?_toNat {least : Nat} {c : Char} (h : least ≤ c.toNat) :
    scalar? least c.toNat = some c := by
  have hc : c.toNat.isValidChar := c.valid
  rw [scalar?, dif_pos ⟨h, hc⟩]
  rfl

theorem toNat_of_scalar? {least n : Nat} {c : Char} (h : scalar? least n = some c) :
    least ≤ n ∧ c.toNat = n := by
  by_cases hn : least ≤ n ∧ n.isValidChar
  · rw [scalar?, dif_pos hn] at h
    injection h with h
    exact ⟨hn.1, by rw [← h]; rfl⟩
  · rw [scalar?, dif_neg hn] at h
    exact nomatch h

theorem tailBits?_ofNat (n : Nat) : tailBits? (UInt8.ofNat (n % 64 + 0x80)) = some (n % 64) := by
  have h : (UInt8.ofNat (n % 64 + 0x80)).toNat = n % 64 + 0x80 := toNat_ofNat_of_lt (by omega)
  rw [tailBits?, h, if_pos (by omega), Nat.add_sub_cancel]

theorem toNat_of_tailBits? {b : UInt8} {n : Nat} (h : tailBits? b = some n) :
    n < 64 ∧ b.toNat = n + 0x80 := by
  unfold tailBits? at h
  split at h
  · injection h with h
    omega
  · simp at h

theorem two?_eq_none {a b : UInt8} (h : 0xE0 ≤ a.toNat) : two? a b = none := by
  rw [two?, if_neg (by omega)]

theorem three?_eq_none {a b c : UInt8} (h : 0xF0 ≤ a.toNat) : three? a b c = none := by
  rw [three?, if_neg (by omega)]

/-- The bytes of a character are read as that character, whatever follows them. -/
theorem next?_encode (c : Char) (rest : Bytes) :
    next? (utf8EncodeChar c ++ rest) = some (c, rest) := by
  have hv : c.val.toNat = c.toNat := rfl
  have hc := toNat_lt c
  unfold utf8EncodeChar
  simp only [hv]
  split
  · next h1 =>
    simp only [List.cons_append, List.nil_append, next?]
    rw [toNat_ofNat_of_lt (by omega), if_pos (by omega), Char.ofNat_toNat]
  split
  · next h1 h2 =>
    have ha : (UInt8.ofNat (c.toNat / 64 % 32 + 0xC0)).toNat = c.toNat / 64 % 32 + 0xC0 :=
      toNat_ofNat_of_lt (by omega)
    have htwo : two? (UInt8.ofNat (c.toNat / 64 % 32 + 0xC0)) (UInt8.ofNat (c.toNat % 64 + 0x80))
        = some c := by
      rw [two?, ha, if_pos (by omega), tailBits?_ofNat]
      show scalar? 0x80 ((c.toNat / 64 % 32 + 0xC0 - 0xC0) * 64 + c.toNat % 64) = some c
      rw [show (c.toNat / 64 % 32 + 0xC0 - 0xC0) * 64 + c.toNat % 64 = c.toNat by omega]
      exact scalar?_toNat (by omega)
    simp only [List.cons_append, List.nil_append, next?]
    rw [ha, if_neg (by omega), htwo]
  split
  · next h1 h2 h3 =>
    have ha : (UInt8.ofNat (c.toNat / 4096 % 16 + 0xE0)).toNat = c.toNat / 4096 % 16 + 0xE0 :=
      toNat_ofNat_of_lt (by omega)
    have hthree : three? (UInt8.ofNat (c.toNat / 4096 % 16 + 0xE0))
        (UInt8.ofNat (c.toNat / 64 % 64 + 0x80)) (UInt8.ofNat (c.toNat % 64 + 0x80)) = some c := by
      rw [three?, ha, if_pos (by omega), tailBits?_ofNat, tailBits?_ofNat]
      show scalar? 0x800 (((c.toNat / 4096 % 16 + 0xE0 - 0xE0) * 64 + c.toNat / 64 % 64) * 64
        + c.toNat % 64) = some c
      rw [show ((c.toNat / 4096 % 16 + 0xE0 - 0xE0) * 64 + c.toNat / 64 % 64) * 64 + c.toNat % 64
        = c.toNat by omega]
      exact scalar?_toNat (by omega)
    simp only [List.cons_append, List.nil_append, next?]
    rw [if_neg (by rw [ha]; omega), two?_eq_none (by rw [ha]; omega), hthree]
  · next h1 h2 h3 =>
    have ha : (UInt8.ofNat (c.toNat / 262144 % 8 + 0xF0)).toNat = c.toNat / 262144 % 8 + 0xF0 :=
      toNat_ofNat_of_lt (by omega)
    have hfour : four? (UInt8.ofNat (c.toNat / 262144 % 8 + 0xF0))
        (UInt8.ofNat (c.toNat / 4096 % 64 + 0x80)) (UInt8.ofNat (c.toNat / 64 % 64 + 0x80))
        (UInt8.ofNat (c.toNat % 64 + 0x80)) = some c := by
      rw [four?, ha, if_pos (by omega), tailBits?_ofNat, tailBits?_ofNat, tailBits?_ofNat]
      show scalar? 0x10000 ((((c.toNat / 262144 % 8 + 0xF0 - 0xF0) * 64 + c.toNat / 4096 % 64) * 64
        + c.toNat / 64 % 64) * 64 + c.toNat % 64) = some c
      rw [show (((c.toNat / 262144 % 8 + 0xF0 - 0xF0) * 64 + c.toNat / 4096 % 64) * 64
        + c.toNat / 64 % 64) * 64 + c.toNat % 64 = c.toNat by omega]
      exact scalar?_toNat (by omega)
    simp only [List.cons_append, List.nil_append, next?]
    rw [if_neg (by rw [ha]; omega), two?_eq_none (by rw [ha]; omega),
      three?_eq_none (by rw [ha]; omega), hfour]
    rfl

theorem encode_of_lt {a : UInt8} (h : a.toNat < 0x80) :
    utf8EncodeChar (Char.ofNat a.toNat) = [a] := by
  have hv : (Char.ofNat a.toNat).val.toNat = a.toNat := by
    have ha : a.toNat.isValidChar := Or.inl (by omega)
    rw [Char.ofNat, dif_pos ha]
    rfl
  unfold utf8EncodeChar
  simp only [hv]
  rw [if_pos (by omega), UInt8.ofNat_toNat]

theorem encode_of_two? {a b : UInt8} {c : Char} (h : two? a b = some c) :
    utf8EncodeChar c = [a, b] := by
  unfold two? at h
  split at h
  · next ha =>
    obtain ⟨n, hb, h⟩ := Option.bind_eq_some_iff.mp h
    obtain ⟨hn, hb⟩ := toNat_of_tailBits? hb
    obtain ⟨hle, hc⟩ := toNat_of_scalar? h
    have hv : c.val.toNat = (a.toNat - 0xC0) * 64 + n := hc
    unfold utf8EncodeChar
    simp only [hv]
    rw [if_neg (by omega), if_pos (by omega),
      show ((a.toNat - 0xC0) * 64 + n) / 64 % 0x20 + 0xC0 = a.toNat by omega,
      show ((a.toNat - 0xC0) * 64 + n) % 0x40 + 0x80 = b.toNat by omega,
      UInt8.ofNat_toNat, UInt8.ofNat_toNat]
  · simp at h

theorem encode_of_three? {a b c : UInt8} {x : Char} (h : three? a b c = some x) :
    utf8EncodeChar x = [a, b, c] := by
  unfold three? at h
  split at h
  · next ha =>
    obtain ⟨n, hb, h⟩ := Option.bind_eq_some_iff.mp h
    obtain ⟨m, hc, h⟩ := Option.bind_eq_some_iff.mp h
    obtain ⟨hn, hb⟩ := toNat_of_tailBits? hb
    obtain ⟨hm, hc⟩ := toNat_of_tailBits? hc
    obtain ⟨hle, hx⟩ := toNat_of_scalar? h
    have hv : x.val.toNat = ((a.toNat - 0xE0) * 64 + n) * 64 + m := hx
    unfold utf8EncodeChar
    simp only [hv]
    rw [if_neg (by omega), if_neg (by omega), if_pos (by omega),
      show (((a.toNat - 0xE0) * 64 + n) * 64 + m) / 4096 % 0x10 + 0xE0 = a.toNat by omega,
      show (((a.toNat - 0xE0) * 64 + n) * 64 + m) / 64 % 0x40 + 0x80 = b.toNat by omega,
      show (((a.toNat - 0xE0) * 64 + n) * 64 + m) % 0x40 + 0x80 = c.toNat by omega,
      UInt8.ofNat_toNat, UInt8.ofNat_toNat, UInt8.ofNat_toNat]
  · simp at h

theorem encode_of_four? {a b c d : UInt8} {x : Char} (h : four? a b c d = some x) :
    utf8EncodeChar x = [a, b, c, d] := by
  unfold four? at h
  split at h
  · next ha =>
    obtain ⟨n, hb, h⟩ := Option.bind_eq_some_iff.mp h
    obtain ⟨m, hc, h⟩ := Option.bind_eq_some_iff.mp h
    obtain ⟨k, hd, h⟩ := Option.bind_eq_some_iff.mp h
    obtain ⟨hn, hb⟩ := toNat_of_tailBits? hb
    obtain ⟨hm, hc⟩ := toNat_of_tailBits? hc
    obtain ⟨hk, hd⟩ := toNat_of_tailBits? hd
    obtain ⟨hle, hx⟩ := toNat_of_scalar? h
    have hv : x.val.toNat = (((a.toNat - 0xF0) * 64 + n) * 64 + m) * 64 + k := hx
    unfold utf8EncodeChar
    simp only [hv]
    rw [if_neg (by omega), if_neg (by omega), if_neg (by omega),
      show ((((a.toNat - 0xF0) * 64 + n) * 64 + m) * 64 + k) / 262144 % 0x08 + 0xF0 = a.toNat
        by omega,
      show ((((a.toNat - 0xF0) * 64 + n) * 64 + m) * 64 + k) / 4096 % 0x40 + 0x80 = b.toNat
        by omega,
      show ((((a.toNat - 0xF0) * 64 + n) * 64 + m) * 64 + k) / 64 % 0x40 + 0x80 = c.toNat by omega,
      show ((((a.toNat - 0xF0) * 64 + n) * 64 + m) * 64 + k) % 0x40 + 0x80 = d.toNat by omega,
      UInt8.ofNat_toNat, UInt8.ofNat_toNat, UInt8.ofNat_toNat, UInt8.ofNat_toNat]
  · simp at h

/-- A character is read only from the bytes that spell it. -/
theorem eq_encode_of_next? {bytes rest : Bytes} {c : Char} (h : next? bytes = some (c, rest)) :
    bytes = utf8EncodeChar c ++ rest := by
  unfold next? at h
  split at h
  · simp at h
  · next a tail =>
    split at h
    · next ha =>
      simp only [Option.some.injEq, Prod.mk.injEq] at h
      obtain ⟨rfl, rfl⟩ := h
      rw [encode_of_lt ha]
      rfl
    split at h
    · simp at h
    · next b tail =>
      split at h
      · next x hx =>
        simp only [Option.some.injEq, Prod.mk.injEq] at h
        obtain ⟨rfl, rfl⟩ := h
        rw [encode_of_two? hx]
        rfl
      split at h
      · simp at h
      · next c' tail =>
        split at h
        · next x hx =>
          simp only [Option.some.injEq, Prod.mk.injEq] at h
          obtain ⟨rfl, rfl⟩ := h
          rw [encode_of_three? hx]
          rfl
        split at h
        · simp at h
        · next d tail =>
          obtain ⟨x, hx, h⟩ := Option.map_eq_some_iff.mp h
          simp only [Prod.mk.injEq] at h
          obtain ⟨rfl, rfl⟩ := h
          rw [encode_of_four? hx]
          rfl

theorem encode_ascii {c : Char} (h : c.toNat < 0x80) :
    utf8EncodeChar c = [UInt8.ofNat c.toNat] := by
  have ha : (UInt8.ofNat c.toNat).toNat = c.toNat := toNat_ofNat_of_lt (by omega)
  have hc := encode_of_lt (a := UInt8.ofNat c.toNat) (by omega)
  rw [ha, Char.ofNat_toNat] at hc
  exact hc

/-- The bytes of a character beyond ASCII lie beyond ASCII. -/
theorem high_of_mem_encode {c : Char} (h : 0x80 ≤ c.toNat) {b : UInt8}
    (hb : b ∈ utf8EncodeChar c) : 0x80 ≤ b.toNat := by
  have hv : c.val.toNat = c.toNat := rfl
  have hhigh : ∀ n, 0x80 ≤ n → n < 256 → 0x80 ≤ (UInt8.ofNat n).toNat := by
    intro n hn hn'
    rw [toNat_ofNat_of_lt hn']
    exact hn
  unfold utf8EncodeChar at hb
  simp only [hv] at hb
  rw [if_neg (by omega)] at hb
  split at hb
  · simp only [List.mem_cons, List.not_mem_nil, or_false] at hb
    rcases hb with rfl | rfl <;> exact hhigh _ (by omega) (by omega)
  split at hb
  · simp only [List.mem_cons, List.not_mem_nil, or_false] at hb
    rcases hb with rfl | rfl | rfl <;> exact hhigh _ (by omega) (by omega)
  · simp only [List.mem_cons, List.not_mem_nil, or_false] at hb
    rcases hb with rfl | rfl | rfl | rfl <;> exact hhigh _ (by omega) (by omega)

/-! ## Whole texts -/

theorem spelt_nil : spelt [] = ([], []) := by
  rw [spelt]
  rfl

theorem spelt_encode (cs : List Char) : spelt (cs.flatMap utf8EncodeChar) = (cs, []) := by
  induction cs with
  | nil => exact spelt_nil
  | cons c cs ih =>
    rw [List.flatMap_cons, spelt]
    split
    · next h => rw [next?_encode] at h; simp at h
    · next c' rest h =>
      rw [next?_encode, Option.some.injEq, Prod.mk.injEq] at h
      obtain ⟨rfl, rfl⟩ := h
      rw [ih]

/-- What has been read as characters is what those characters spell. -/
theorem encode_spelt (bytes : Bytes) :
    (spelt bytes).1.flatMap utf8EncodeChar ++ (spelt bytes).2 = bytes := by
  induction hn : bytes.length using Nat.strongRecOn generalizing bytes with
  | ind n ih =>
    rw [spelt]
    split
    · rfl
    · next c rest h =>
      have hlt := length_next? h
      show (c :: (spelt rest).1).flatMap utf8EncodeChar ++ (spelt rest).2 = bytes
      rw [List.flatMap_cons, List.append_assoc, ih rest.length (by omega) rest rfl,
        ← eq_encode_of_next? h]

/-- **Every text is read back.** -/
theorem decode_encode (s : String) : decode (encode s) = .ok s := by
  rw [decode, encode, spelt_encode]
  show Except.ok (String.ofList s.toList) = _
  rw [String.ofList_toList]

/-- **What is read as a text is what writing the text gives.** -/
theorem encode_of_decode {bytes : Bytes} {s : String} (h : decode bytes = .ok s) :
    encode s = bytes := by
  unfold decode at h
  split at h
  · next cs hs =>
    injection h with h
    have hb := encode_spelt bytes
    rw [hs, List.append_nil] at hb
    rw [← h, encode, String.toList_ofList]
    exact hb
  · simp at h

def Valid (bytes : Bytes) : Prop := ∃ s, encode s = bytes

/-- The text that valid bytes spell. Of others it is the text of their front part. -/
def toText (bytes : Bytes) : String := String.ofList (spelt bytes).1

theorem decode_of_valid {bytes : Bytes} (h : Valid bytes) : decode bytes = .ok (toText bytes) := by
  obtain ⟨s, rfl⟩ := h
  rw [decode_encode, toText, encode, spelt_encode, String.ofList_toList]

theorem valid_of_decode {bytes : Bytes} {s : String} (h : decode bytes = .ok s) : Valid bytes :=
  ⟨s, encode_of_decode h⟩

theorem toText_encode (s : String) : toText (encode s) = s := by
  have h := decode_of_valid ⟨s, rfl⟩
  rw [decode_encode] at h
  injection h with h
  exact h.symm

theorem eq_empty_of_encode {s : String} (h : encode s = []) : s = "" := by
  rw [← toText_encode s, h, toText, spelt_nil, String.ofList_nil]

def asciiChars (bytes : Bytes) : List Char := bytes.map fun b => Char.ofNat b.toNat

theorem flatMap_asciiChars {bytes : Bytes} (h : ∀ b ∈ bytes, b.toNat < 0x80) :
    (asciiChars bytes).flatMap utf8EncodeChar = bytes := by
  induction bytes with
  | nil => rfl
  | cons b bytes ih =>
    rw [asciiChars, List.map_cons, List.flatMap_cons, encode_of_lt (h b List.mem_cons_self),
      ← asciiChars, ih fun c hc => h c (List.mem_cons_of_mem b hc)]
    rfl

/-! ## Blank space of ASCII around a text -/

/-- **Bytes of ASCII around a text are read as characters around it.** -/
theorem toText_around {left right : Bytes} (hleft : ∀ b ∈ left, b.toNat < 0x80)
    (hright : ∀ b ∈ right, b.toNat < 0x80) (s : String) :
    toText (left ++ encode s ++ right) =
      String.ofList (asciiChars left ++ s.toList ++ asciiChars right) := by
  have hbytes : encode (String.ofList (asciiChars left ++ s.toList ++ asciiChars right)) =
      left ++ encode s ++ right := by
    rw [encode, String.toList_ofList, List.flatMap_append, List.flatMap_append,
      flatMap_asciiChars hleft, flatMap_asciiChars hright]
    rfl
  rw [← hbytes, toText_encode]

theorem valid_cons {a : UInt8} (ha : a.toNat < 0x80) (bytes : Bytes) :
    Valid (a :: bytes) ↔ Valid bytes := by
  have hnext : next? (a :: bytes) = some (Char.ofNat a.toNat, bytes) := by
    have h := next?_encode (Char.ofNat a.toNat) bytes
    rw [encode_of_lt ha] at h
    exact h
  constructor
  · rintro ⟨s, hs⟩
    cases hcs : s.toList with
    | nil => rw [encode, hcs] at hs; simp at hs
    | cons c cs =>
      rw [encode, hcs, List.flatMap_cons] at hs
      rw [← hs, next?_encode, Option.some.injEq, Prod.mk.injEq] at hnext
      exact ⟨String.ofList cs, by rw [encode, String.toList_ofList]; exact hnext.2⟩
  · rintro ⟨s, rfl⟩
    refine ⟨String.ofList (Char.ofNat a.toNat :: s.toList), ?_⟩
    rw [encode, String.toList_ofList, List.flatMap_cons, encode_of_lt ha]
    rfl

theorem valid_concat {a : UInt8} (ha : a.toNat < 0x80) (bytes : Bytes) :
    Valid (bytes ++ [a]) ↔ Valid bytes := by
  constructor
  · rintro ⟨s, hs⟩
    rcases List.eq_nil_or_concat s.toList with hcs | ⟨cs, c, hcs⟩
    · rw [encode, hcs] at hs
      simp at hs
    · rw [encode, hcs, List.concat_eq_append, List.flatMap_append, List.flatMap_singleton] at hs
      have hc : c.toNat < 0x80 := by
        rcases Nat.lt_or_ge c.toNat 0x80 with hc | hc
        · exact hc
        exfalso
        have hlast : a ∈ utf8EncodeChar c := by
          have h := congrArg List.getLast? hs
          rw [List.getLast?_append, List.getLast?_concat,
            List.getLast?_eq_some_getLast String.utf8EncodeChar_ne_nil, Option.some_or,
            Option.some.injEq] at h
          exact h ▸ List.getLast_mem String.utf8EncodeChar_ne_nil
        have := high_of_mem_encode hc hlast
        omega
      rw [encode_ascii hc] at hs
      refine ⟨String.ofList cs, ?_⟩
      rw [encode, String.toList_ofList]
      exact (List.append_inj' hs rfl).1
  · rintro ⟨s, rfl⟩
    refine ⟨String.ofList (s.toList ++ [Char.ofNat a.toNat]), ?_⟩
    rw [encode, String.toList_ofList, List.flatMap_append, List.flatMap_singleton, encode_of_lt ha]
    rfl

/-- **Dropping bytes of ASCII at the ends leaves bytes valid, or leaves them invalid.** -/
theorem valid_strip {p : UInt8 → Bool} (hp : ∀ b, p b = true → b.toNat < 0x80) (bytes : Bytes) :
    Valid (Text.strip p bytes) ↔ Valid bytes := by
  have hfront : ∀ l : Bytes, Valid (l.dropWhile p) ↔ Valid l := by
    intro l
    induction l with
    | nil => rfl
    | cons b l ih =>
      rw [List.dropWhile_cons]
      split
      · next hb => rw [ih, valid_cons (hp b hb)]
      · rfl
  have hend : ∀ l : Bytes, Valid (l.dropWhile p).reverse ↔ Valid l.reverse := by
    intro l
    induction l with
    | nil => rfl
    | cons b l ih =>
      rw [List.dropWhile_cons]
      split
      · next hb => rw [ih, List.reverse_cons, valid_concat (hp b hb)]
      · rfl
  rw [Text.strip, Text.dropEnd, hend, List.reverse_reverse, hfront]

end Rowcast.Utf8
