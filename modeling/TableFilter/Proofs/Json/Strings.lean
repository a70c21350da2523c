import TableFilter.Json.Reading

/-!
# Strings read back

Every character of a string is written on its own, and reading takes it back as one `Piece`: a
control character without a letter of its own as a unit of 16 bits, any other as itself. None of
these units is half of a pair, so that `assemble` joins the pieces to the same string
(`readString_escape`).
-/

namespace TableFilter.Json

/-- The characters with an escape of one letter. -/
def lettered : List Char := ['"', '\\', '\x08', '\x0c', '\n', '\r', '\t']

/-- What a written character is read as. -/
def written (c : Char) : Piece :=
  if c.toNat < 32 ∧ c ∉ lettered then .unit c.toNat else .char c

theorem pieces_escape_lettered {c : Char} (h : c ∈ lettered) (cs : List Char) :
    pieces (escape c ++ cs) = (.char c :: (pieces cs).1, (pieces cs).2) := by
  simp only [lettered, List.mem_cons, List.not_mem_nil, or_false] at h
  rcases h with rfl | rfl | rfl | rfl | rfl | rfl | rfl <;> simp [escape, pieces, escaped?]

theorem escape_of_notMem {c : Char} (h : c ∉ lettered) :
    escape c = if c.toNat < 32 then
      ['\\', 'u', '0', '0', Nat.digitChar (c.toNat / 16), Nat.digitChar (c.toNat % 16)]
    else [c] := by
  have hne {a : Char} (ha : a ∈ lettered) : c.toNat ≠ a.toNat := fun hc =>
    h (Char.toNat_inj.1 hc ▸ ha)
  simp only [lettered, List.mem_cons, List.not_mem_nil, or_false, not_or] at h
  obtain ⟨h₁, h₂, -, -, h₃, h₄, h₅⟩ := h
  have h₈ : c.toNat ≠ 8 := hne (a := '\x08') (by decide)
  have h₁₂ : c.toNat ≠ 12 := hne (a := '\x0c') (by decide)
  simp only [escape, h₁, h₂, h₃, h₄, h₅, h₈, h₁₂, if_false]

theorem unit?_digitChar {n : Nat} (h : n < 32) :
    unit? '0' '0' (Nat.digitChar (n / 16)) (Nat.digitChar (n % 16)) = some n := by
  revert n
  decide

/-- **A written character is read as one piece,** whatever follows it. -/
theorem pieces_escape (c : Char) (cs : List Char) :
    pieces (escape c ++ cs) = (written c :: (pieces cs).1, (pieces cs).2) := by
  by_cases hc : c ∈ lettered
  · rw [pieces_escape_lettered hc, written, if_neg fun h => h.2 hc]
  rw [escape_of_notMem hc]
  by_cases h : c.toNat < 32
  · rw [if_pos h]
    simp only [List.cons_append, List.nil_append]
    rw [pieces, unit?_digitChar h, written, if_pos ⟨h, hc⟩]
  · have hquote : c ≠ '"' := fun e => hc (e ▸ by decide)
    have hslash : c ≠ '\\' := fun e => hc (e ▸ by decide)
    rw [if_neg h, List.singleton_append, pieces.eq_def, written, if_neg fun hc => h hc.1]
    split <;> simp_all

theorem pieces_flatMap_escape (cs rest : List Char) :
    pieces (cs.flatMap escape ++ '"' :: rest) = (cs.map written, .ok rest) := by
  induction cs with
  | nil => rw [List.flatMap_nil, List.nil_append, pieces, List.map_nil]
  | cons c cs ih =>
    rw [List.flatMap_cons, List.append_assoc, pieces_escape, ih, List.map_cons]

/-- A written character stands for itself, whatever follows it. -/
theorem assemble_written (stop : Except Fault Unit) (c : Char) (ps : List Piece) :
    assemble stop (written c :: ps) = (assemble stop ps).map (c :: ·) := by
  unfold written
  split
  · next h =>
    have hhigh : isHigh c.toNat = false := by simp only [isHigh]; grind
    have hlow : isLow c.toNat = false := by simp only [isLow]; grind
    rcases ps with _ | ⟨_ | _, ps⟩ <;>
      simp only [assemble, hhigh, hlow, Char.ofNat_toNat, Bool.or_self, Bool.false_eq_true,
        if_false]
    cases stop <;> rfl
  · rw [assemble]

theorem assemble_map_written (cs : List Char) :
    assemble (.ok ()) (cs.map written) = .ok cs := by
  induction cs with
  | nil => rfl
  | cons c cs ih => rw [List.map_cons, assemble_written, ih]; rfl

/-- **A string in quotation marks is read back,** with what follows it. -/
theorem readString_escape (s : String) (rest : List Char) :
    readString (s.toList.flatMap escape ++ '"' :: rest) = .ok (.ok s, rest) := by
  rw [readString, pieces_flatMap_escape]
  dsimp only
  rw [assemble_map_written]
  exact congrArg (fun t => Except.ok (Except.ok t, rest)) (String.ofList_toList)

end TableFilter.Json
