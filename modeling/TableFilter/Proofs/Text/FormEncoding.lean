import TableFilter.Text.FormEncoding

/-!
# Form encoding read back

Pairs that are written are read as the same pairs (`readPairs_writePairs`). Every octet is read back
on its own, so that a key or value is its UTF-8 form again; and no separator stands in what is
written of a key or value, so that the pairs come apart where they were joined.
-/

namespace TableFilter.Text.Form

theorem lt_of_mem_utf8 {c : Char} {b : Nat} (h : b ∈ Utf8.encode c) : b < 256 := by
  have hc : c.toNat < 0x110000 := by
    have := c.valid
    unfold Char.toNat UInt32.isValidChar Nat.isValidChar at *
    omega
  unfold Utf8.encode at h
  dsimp only at h
  split at h
  · rw [List.mem_singleton] at h
    omega
  split at h
  · simp only [List.mem_cons, List.not_mem_nil, or_false] at h
    omega
  split at h <;>
  · simp only [List.mem_cons, List.not_mem_nil, or_false] at h
    omega

theorem hexDigit?_hexChar {n : Nat} (h : n < 16) :
    Number.hexDigit? (Number.hexChar n) = some n := by
  revert n
  decide

/-- A plain octet is a character of its own that has no meaning in reading. -/
theorem plain_spec {b : Nat} (h : isPlain b = true) :
    Char.ofNat b ≠ '%' ∧ Char.ofNat b ≠ '+' ∧ Utf8.encode (Char.ofNat b) = [b] := by
  have hb : b < 128 := by
    simp only [isPlain, Bool.or_eq_true, Bool.and_eq_true, decide_eq_true_eq, beq_iff_eq] at h
    omega
  have hall : ∀ b < 128, isPlain b = true →
      Char.ofNat b ≠ '%' ∧ Char.ofNat b ≠ '+' ∧ Utf8.encode (Char.ofNat b) = [b] := by decide
  exact hall b hb h

/-- **A written octet is read as itself,** whatever follows it. -/
theorem octets_escape {b : Nat} (h : b < 256) (cs : List Char) :
    octets (escape b ++ cs) = b :: octets cs := by
  unfold escape
  split
  · next hplain =>
    obtain ⟨hpercent, hplus, hutf⟩ := plain_spec hplain
    rw [List.singleton_append, octets.eq_def]
    split
    · next heq => cases heq
    · next heq => exact absurd (List.cons.inj heq).1 hpercent
    · next heq =>
      obtain ⟨rfl, rfl⟩ := List.cons.inj heq
      rw [if_neg hplus, hutf, List.singleton_append]
  split
  · next hspace => rw [hspace, List.singleton_append]; rfl
  · simp only [List.cons_append, List.nil_append]
    rw [octets, hexDigit?_hexChar (by omega), hexDigit?_hexChar (by omega)]
    dsimp only
    rw [Nat.div_add_mod']

theorem octets_flatMap_escape {bs : List Nat} (h : ∀ b ∈ bs, b < 256) :
    octets (bs.flatMap escape) = bs := by
  induction bs with
  | nil => rfl
  | cons b bs ih =>
    rw [List.forall_mem_cons] at h
    rw [List.flatMap_cons, octets_escape h.1, ih h.2]

/-- **A key or value is read back.** -/
theorem decode_encode (cs : List Char) : decode (encode cs) = cs := by
  have hoctets : octets (encode cs) = cs.flatMap Utf8.encode := by
    refine octets_flatMap_escape fun b hb => ?_
    obtain ⟨c, -, hc⟩ := List.mem_flatMap.1 hb
    exact lt_of_mem_utf8 hc
  rw [decode, hoctets, Utf8.decode_encode]

/-! ### Separators -/

theorem escape_spec {b : Nat} (h : b < 256) {c : Char} (hc : c ∈ escape b) :
    c ∉ ['&', '=', '?'] := by
  have hall : ∀ b < 256, (escape b).all (fun c => c ∉ ['&', '=', '?']) = true := by
    decide +kernel
  exact of_decide_eq_true (List.all_eq_true.1 (hall b h) c hc)

theorem encode_spec {cs : List Char} {c : Char} (h : c ∈ encode cs) : c ∉ ['&', '=', '?'] := by
  obtain ⟨b, hb, hc⟩ := List.mem_flatMap.1 h
  obtain ⟨d, -, hd⟩ := List.mem_flatMap.1 hb
  exact escape_spec (lt_of_mem_utf8 hd) hc

theorem readPair_writePair (pair : String × String) : readPair (writePair pair) = pair := by
  have hkey : '=' ∉ encode pair.1.toList := fun h => encode_spec h (by decide)
  rw [readPair, writePair, cutFirst_append hkey]
  dsimp only [Option.getD_some]
  rw [decode_encode, decode_encode, String.ofList_toList, String.ofList_toList]

theorem notMem_writePair {c : Char} (hc : c ∈ ['&', '?']) (pair : String × String) :
    c ∉ writePair pair := by
  have hencode {cs : List Char} (h : c ∈ encode cs) : False := by
    have hnot := encode_spec h
    simp only [List.mem_cons, List.not_mem_nil, or_false, not_or] at hc hnot
    rcases hc with rfl | rfl
    · exact hnot.1 rfl
    · exact hnot.2.2 rfl
  intro h
  rcases List.mem_append.1 h with h | h
  · exact hencode h
  · rcases List.mem_cons.1 h with rfl | h
    · exact absurd hc (by decide)
    · exact hencode h

/-- **Pairs are read back.** -/
theorem readPairs_writePairs (pairs : List (String × String)) :
    readPairs (writePairs pairs) = pairs := by
  have hmap : (pairs.map writePair).map readPair = pairs := by
    rw [List.map_map]
    exact (List.map_congr_left fun pair _ => readPair_writePair pair).trans (List.map_id pairs)
  cases pairs with
  | nil => rfl
  | cons pair rest =>
    -- A written pair holds no separator and at least an equals sign, so it is a piece of its own.
    have hpieces : pieces '&' (writePairs (pair :: rest)) = (pair :: rest).map writePair := by
      refine pieces_joined (by simp) fun p hp => ?_
      obtain ⟨q, -, rfl⟩ := List.mem_map.1 hp
      exact notMem_writePair (by decide) q
    have hfilter : ((pair :: rest).map writePair).filter (!·.isEmpty) =
        (pair :: rest).map writePair := by
      refine List.filter_eq_self.2 fun p hp => ?_
      obtain ⟨q, -, rfl⟩ := List.mem_map.1 hp
      simp [writePair]
    rw [readPairs, hpieces, hfilter, hmap]

/-- Written pairs do not begin with a question mark. -/
theorem writePairs_ne_mark (pairs : List (String × String)) (cs : List Char) :
    writePairs pairs ≠ '?' :: cs := by
  cases pairs with
  | nil => simp [writePairs, joined]
  | cons pair rest =>
    obtain ⟨tail, htail⟩ : ∃ tail, writePairs (pair :: rest) = writePair pair ++ tail := by
      cases rest with
      | nil => exact ⟨[], (List.append_nil _).symm⟩
      | cons other rest => exact ⟨_, rfl⟩
    have hne : writePair pair ≠ [] := by simp [writePair]
    obtain ⟨c, ds, hpair⟩ := List.exists_cons_of_ne_nil hne
    have hmark : '?' ∉ writePair pair := notMem_writePair (by decide) pair
    rw [hpair, List.mem_cons, not_or] at hmark
    rw [htail, hpair, List.cons_append]
    exact fun h => hmark.1 (List.cons.inj h).1.symm

end TableFilter.Text.Form
