/-!
# UTF-8

Characters as rows of octets, and octets as characters.

* `encode` gives the one to four octets of a character;
* `decode` reads any octets: a row of octets that begins a character but does not complete it, taken
  as long as possible, and every octet that begins none, reads as U+FFFD;
* `decode_encode` says that what was encoded is read back.

The reader goes octet by octet. Between characters it stands at `none`; inside one it keeps what it
has read, how many octets are owed and the range of the next one.
-/

namespace TableFilter.Text.Utf8

/-- The octets of a character. -/
def encode (c : Char) : List Nat :=
  let n := c.toNat
  if n < 0x80 then [n]
  else if n < 0x800 then [0xC0 + n / 64, 0x80 + n % 64]
  else if n < 0x10000 then [0xE0 + n / 4096, 0x80 + n / 64 % 64, 0x80 + n % 64]
  else [0xF0 + n / 262144, 0x80 + n / 4096 % 64, 0x80 + n / 64 % 64, 0x80 + n % 64]

/-- A character that has been begun: its bits so far, the octets owed, the range of the next one. -/
structure Begun where
  bits : Nat
  owed : Nat
  least : Nat
  greatest : Nat

/-- The character that replaces what is not UTF-8. -/
def replacement : Char := '\uFFFD'

/-- What an octet between characters gives: a whole character, or the beginning of one. -/
def first (b : Nat) : Char ⊕ Begun :=
  if b < 0x80 then .inl (Char.ofNat b)
  else if b < 0xC2 then .inl replacement
  else if b < 0xE0 then .inr ⟨b - 0xC0, 1, 0x80, 0xBF⟩
  else if b < 0xF0 then
    .inr ⟨b - 0xE0, 2, if b = 0xE0 then 0xA0 else 0x80, if b = 0xED then 0x9F else 0xBF⟩
  else if b < 0xF5 then
    .inr ⟨b - 0xF0, 3, if b = 0xF0 then 0x90 else 0x80, if b = 0xF4 then 0x8F else 0xBF⟩
  else .inl replacement

/-- The characters of the remaining octets. -/
def decodeFrom : Option Begun → List Nat → List Char
  | none, [] => []
  | some _, [] => [replacement]
  | none, b :: bs =>
    match first b with
    | .inl c => c :: decodeFrom none bs
    | .inr s => decodeFrom (some s) bs
  | some s, b :: bs =>
    if s.least ≤ b ∧ b ≤ s.greatest then
      let bits := s.bits * 64 + (b - 0x80)
      if s.owed = 1 then Char.ofNat bits :: decodeFrom none bs
      else decodeFrom (some ⟨bits, s.owed - 1, 0x80, 0xBF⟩) bs
    else match first b with
      | .inl c => replacement :: c :: decodeFrom none bs
      | .inr t => replacement :: decodeFrom (some t) bs

/-- The characters that a row of octets stands for. -/
def decode (bs : List Nat) : List Char := decodeFrom none bs

/-- The last octet of a character completes it. -/
theorem decodeFrom_last {bits least greatest b n : Nat} (bs : List Nat)
    (h : least ≤ b ∧ b ≤ greatest) (total : bits * 64 + (b - 0x80) = n) :
    decodeFrom (some ⟨bits, 1, least, greatest⟩) (b :: bs) = Char.ofNat n :: decodeFrom none bs := by
  simp [decodeFrom, h, total]

/-- An octet that is not the last one adds six bits. -/
theorem decodeFrom_inner {bits owed least greatest b n : Nat} (bs : List Nat)
    (h : least ≤ b ∧ b ≤ greatest) (total : bits * 64 + (b - 0x80) = n) :
    decodeFrom (some ⟨bits, owed + 2, least, greatest⟩) (b :: bs) =
      decodeFrom (some ⟨n, owed + 1, 0x80, 0xBF⟩) bs := by
  simp [decodeFrom, h, total]

/-- An octet that begins a character is remembered. -/
theorem decodeFrom_lead {b : Nat} {s : Begun} (bs : List Nat) (h : first b = .inr s) :
    decodeFrom none (b :: bs) = decodeFrom (some s) bs := by
  simp [decodeFrom, h]

/-- **What is read of the octets of a character is that character, whatever follows.** -/
theorem decodeFrom_encode (c : Char) (bs : List Nat) :
    decodeFrom none (encode c ++ bs) = c :: decodeFrom none bs := by
  have valid : c.toNat < 0xD800 ∨ 0xDFFF < c.toNat ∧ c.toNat < 0x110000 := c.valid
  have same : Char.ofNat c.toNat = c := Char.ofNat_toNat c
  unfold encode
  generalize c.toNat = n at valid same
  subst same
  dsimp only
  split
  · simp [decodeFrom, first, *]
  split
  · have lead : first (0xC0 + n / 64) = .inr ⟨n / 64, 1, 0x80, 0xBF⟩ := by
      grind [first]
    exact (decodeFrom_lead _ lead).trans (decodeFrom_last _ (by omega) (by omega))
  split
  · have lead : first (0xE0 + n / 4096) =
        .inr ⟨n / 4096, 2, if 0xE0 + n / 4096 = 0xE0 then 0xA0 else 0x80,
          if 0xE0 + n / 4096 = 0xED then 0x9F else 0xBF⟩ := by
      grind [first]
    exact (decodeFrom_lead _ lead).trans <|
      (decodeFrom_inner (n := n / 64) _ (by split <;> split <;> omega) (by omega)).trans <|
      decodeFrom_last _ (by omega) (by omega)
  · have lead : first (0xF0 + n / 262144) =
        .inr ⟨n / 262144, 3, if 0xF0 + n / 262144 = 0xF0 then 0x90 else 0x80,
          if 0xF0 + n / 262144 = 0xF4 then 0x8F else 0xBF⟩ := by
      grind [first]
    exact (decodeFrom_lead _ lead).trans <|
      (decodeFrom_inner (n := n / 4096) _ (by split <;> split <;> omega) (by omega)).trans <|
      (decodeFrom_inner (n := n / 64) _ (by omega) (by omega)).trans <|
      decodeFrom_last _ (by omega) (by omega)

/-- **What was encoded is read back.** -/
theorem decode_encode (cs : List Char) : decode (cs.flatMap encode) = cs := by
  induction cs with
  | nil => rfl
  | cons c cs ih => simp [decode, decodeFrom_encode] at ih ⊢; exact ih

end TableFilter.Text.Utf8
