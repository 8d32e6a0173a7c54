/-!
# UTF-8

`decode` reads bytes as UTF-8.  Where that fails it says how many bytes from the front do spell
whole characters, which is what a message about a bad field shows.  A sequence is refused when it
is cut short, when it spells its character in more bytes than needed, and when what it spells is
a surrogate or lies above the last code point.
-/

namespace Rowcast

abbrev Bytes := List UInt8

namespace Utf8

/-- The six bits that a continuation byte carries. -/
def tailBits? (b : UInt8) : Option Nat :=
  if 0x80 ≤ b.toNat ∧ b.toNat < 0xC0 then some (b.toNat - 0x80) else none

/-- The character numbered `n`, if there is one and it takes at least `least` to need this form. -/
def scalar? (least n : Nat) : Option Char :=
  if h : least ≤ n ∧ n.isValidChar then some (Char.ofNatAux n h.2) else none

/-- The character spelt by a lead byte and one more. -/
def two? (a b : UInt8) : Option Char :=
  if 0xC0 ≤ a.toNat ∧ a.toNat < 0xE0 then do
    scalar? 0x80 ((a.toNat - 0xC0) * 64 + (← tailBits? b))
  else none

def three? (a b c : UInt8) : Option Char :=
  if 0xE0 ≤ a.toNat ∧ a.toNat < 0xF0 then do
    scalar? 0x800 (((a.toNat - 0xE0) * 64 + (← tailBits? b)) * 64 + (← tailBits? c))
  else none

def four? (a b c d : UInt8) : Option Char :=
  if 0xF0 ≤ a.toNat ∧ a.toNat < 0xF8 then do
    scalar? 0x10000
      ((((a.toNat - 0xF0) * 64 + (← tailBits? b)) * 64 + (← tailBits? c)) * 64 + (← tailBits? d))
  else none

/-- The character at the front of the bytes, and the bytes after it. -/
def next? : Bytes → Option (Char × Bytes)
  | [] => none
  | a :: rest =>
    if a.toNat < 0x80 then some (Char.ofNat a.toNat, rest)
    else match rest with
      | [] => none
      | b :: rest =>
        match two? a b with
        | some x => some (x, rest)
        | none => match rest with
          | [] => none
          | c :: rest =>
            match three? a b c with
            | some x => some (x, rest)
            | none => match rest with
              | [] => none
              | d :: rest => (four? a b c d).map fun x => (x, rest)

theorem length_next? {bytes rest : Bytes} {c : Char} (h : next? bytes = some (c, rest)) :
    rest.length < bytes.length := by
  unfold next? at h
  split at h
  · simp at h
  · split at h
    · simp at h; obtain ⟨_, rfl⟩ := h; simp
    · split at h
      · simp at h
      · split at h
        · simp at h; obtain ⟨_, rfl⟩ := h; simp only [List.length_cons]; omega
        · split at h
          · simp at h
          · split at h
            · simp at h; obtain ⟨_, rfl⟩ := h; simp only [List.length_cons]; omega
            · split at h
              · simp at h
              · simp at h; obtain ⟨_, _, _, rfl⟩ := h; simp only [List.length_cons]; omega

/-- The characters of the longest front part that spells whole characters, and what follows it. -/
def spelt (bytes : Bytes) : List Char × Bytes :=
  match _h : next? bytes with
  | none => ([], bytes)
  | some (c, rest) =>
    let (cs, left) := spelt rest
    (c :: cs, left)
termination_by bytes.length
decreasing_by exact length_next? (by assumption)

/-- Reads bytes as a text, or says how many bytes from the front spell whole characters. -/
def decode (bytes : Bytes) : Except Nat String :=
  match spelt bytes with
  | (cs, []) => .ok (String.ofList cs)
  | (_, left@(_ :: _)) => .error (bytes.length - left.length)

def encode (s : String) : Bytes := s.toList.flatMap String.utf8EncodeChar

end Utf8

end Rowcast
