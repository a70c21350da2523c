import TableFilter.Document.Text
import TableFilter.Proofs.Json.RoundTrip
import TableFilter.Text.Pieces

/-!
# Texts that only one value has

No other value is written like one without numbers, whatever follows in the text
(`chars_append_inj`). Of numbers it matters only that their text begins with none of the characters
of other values; this holds of floating-point numbers too, whose text need not be read back exactly.
-/

namespace TableFilter.Json

open TableFilter.Number (natText Layout Decimal lt_of_mem_digits natText_eq_map)

/-! ### The text of a number -/

/-- The characters in the text of a finite number. -/
def numeric : List Char := "0123456789+-.e".toList

theorem natText_subset (n : Nat) : natText n ⊆ numeric := by
  intro c hc
  rw [natText_eq_map] at hc
  obtain ⟨d, hd, rfl⟩ := List.mem_map.1 hc
  exact (show ∀ d < 10, Nat.digitChar d ∈ numeric by decide) d (lt_of_mem_digits hd)

theorem significant_subset (d : Decimal) : (Layout.significant d).1 ⊆ numeric := by
  intro c hc
  refine natText_subset d.digits ?_
  exact List.mem_reverse.1 ((List.dropWhile_sublist _).subset (List.mem_reverse.1 hc))

theorem plain_subset {digits : List Char} (h : digits ⊆ numeric) (e : Int) :
    Layout.data.plain digits e ⊆ numeric := by
  have hzeros (n : Nat) : List.replicate n '0' ⊆ numeric := fun c hc =>
    (List.eq_of_mem_replicate hc) ▸ by decide
  have hpoint {cs : List Char} (hcs : cs ⊆ numeric) : '.' :: cs ⊆ numeric :=
    List.cons_subset.2 ⟨by decide, hcs⟩
  unfold Layout.plain
  dsimp only
  split
  · exact List.append_subset.2 ⟨List.append_subset.2 ⟨h, hzeros _⟩, by decide⟩
  split
  · exact List.append_subset.2 ⟨List.Subset.trans (List.take_subset _ _) h,
      hpoint (List.Subset.trans (List.drop_subset _ _) h)⟩
  · exact List.append_subset.2 ⟨List.cons_subset.2 ⟨by decide, hpoint (hzeros _)⟩, h⟩

theorem plain_ne_nil (digits : List Char) (e : Int) : Layout.data.plain digits e ≠ [] := by
  unfold Layout.plain
  dsimp only
  split
  · simp [Layout.data]
  split <;> simp

theorem scientific_subset {digits : List Char} (h : digits ⊆ numeric) (power : Int) :
    Layout.scientific digits power ⊆ numeric := by
  unfold Layout.scientific
  dsimp only
  have htake : digits.take 1 ⊆ numeric := List.Subset.trans (List.take_subset _ _) h
  refine List.append_subset.2 ⟨List.append_subset.2 ⟨htake, ?_⟩, ?_⟩
  · split
    · exact List.nil_subset _
    · exact List.cons_subset.2 ⟨by decide, List.Subset.trans (List.drop_subset _ _) h⟩
  · refine List.cons_subset.2 ⟨by decide, List.cons_subset.2 ⟨?_, natText_subset _⟩⟩
    split <;> decide

theorem decimal_spec (d : Decimal) :
    Layout.data.decimal d ⊆ numeric ∧ Layout.data.decimal d ≠ [] := by
  have h := significant_subset d
  unfold Layout.decimal
  dsimp only [Layout.data]
  split
  · exact ⟨plain_subset h _, plain_ne_nil _ _⟩
  · exact ⟨scientific_subset h _, by simp [Layout.scientific]⟩

/-- The characters with which numbers begin, the names of values that are no numbers included. -/
def leading : List Char := 'N' :: 'i' :: numeric

theorem leading_of_subset {cs : List Char} (hsub : cs ⊆ numeric) (hne : cs ≠ []) :
    ∃ d ds, cs = d :: ds ∧ d ∈ leading := by
  obtain ⟨d, ds, rfl⟩ := List.exists_cons_of_ne_nil hne
  have hd := (List.cons_subset.1 hsub).1
  exact ⟨d, ds, rfl, List.mem_cons_of_mem _ (List.mem_cons_of_mem _ hd)⟩

theorem real_text_eq_cons (x : TableFilter.Number.Binary64) :
    ∃ c cs, Layout.data.text x = c :: cs ∧ c ∈ leading := by
  cases x with
  | nan => exact ⟨_, _, rfl, by decide⟩
  | infinite s => cases s <;> exact ⟨_, _, rfl, by decide⟩
  | finite s m e =>
    rw [Layout.text]
    cases s with
    | true => split <;> exact ⟨_, _, rfl, by decide⟩
    | false =>
      split
      · exact leading_of_subset (plain_subset (by decide) 0) (plain_ne_nil _ 0)
      · exact leading_of_subset (decimal_spec _).1 (decimal_spec _).2

/-- A number begins with none of the characters that other values begin with. -/
theorem number_text_eq_cons (n : Json.Number) : ∃ c cs, n.text = c :: cs ∧ c ∈ leading := by
  cases n with
  | real x => exact real_text_eq_cons x
  | integer n =>
    cases n with
    | ofNat m =>
      obtain ⟨d, ds, -, htext⟩ := TableFilter.Number.natText_eq_cons m
      have hne : natText m ≠ [] := htext ▸ List.cons_ne_nil _ _
      exact leading_of_subset (natText_subset m) hne
    | negSucc m => exact ⟨_, _, rfl, by decide⟩

/-- The kind of the values that begin with a character. -/
def kindOf (c : Char) : String :=
  if c = 'n' then "null"
  else if c = 't' ∨ c = 'f' then "a boolean"
  else if c = '"' then "a string"
  else if c = '[' then "an array"
  else if c = '\x7b' then "an object"
  else "a number"

theorem chars_eq_cons (j : Json) : ∃ c cs, j.chars = c :: cs ∧ Opens c ∧ kindOf c = j.kind := by
  cases j with
  | null => exact ⟨_, _, rfl, by decide, by decide⟩
  | bool b => cases b <;> exact ⟨_, _, rfl, by decide, by decide⟩
  | number n =>
    obtain ⟨c, cs, htext, hc⟩ := number_text_eq_cons n
    have hall : leading.all (fun d => Opens d ∧ kindOf d = "a number") = true := by decide
    exact ⟨c, cs, htext, of_decide_eq_true (List.all_eq_true.1 hall c hc)⟩
  | string s => exact ⟨_, _, rfl, by decide, rfl⟩
  | array items => exact ⟨_, _, rfl, by decide, rfl⟩
  | object entries => exact ⟨_, _, rfl, by decide, rfl⟩

/-- **The first character tells the kind of a value.** -/
theorem kind_eq {j k : Json} {r s : List Char} (h : j.chars ++ r = k.chars ++ s) :
    j.kind = k.kind := by
  obtain ⟨c, cs, hj, -, hc⟩ := chars_eq_cons j
  obtain ⟨d, ds, hk, -, hd⟩ := chars_eq_cons k
  rw [hj, hk, List.cons_append, List.cons_append] at h
  rw [← hc, ← hd, (List.cons.inj h).1]

/-! ### Texts one after the other -/

/-- Whether a text that begins with a value's begins with this value's only. -/
def Unmistakable {α : Type} (write : α → List Char) (x : α) : Prop :=
  ∀ y r s, Delimited r → Delimited s → write y ++ r = write x ++ s → y = x ∧ r = s

section

variable {α : Type} {write : α → List Char} {close : Char}

/-- What follows the first of several texts up to the closing mark, and after it. -/
def following (write : α → List Char) (close : Char) (s : List Char) : List α → List Char
  | [] => close :: s
  | x :: xs => ',' :: (Text.joined ',' ((x :: xs).map write) ++ close :: s)

theorem joined_append (x : α) (xs : List α) (s : List Char) :
    Text.joined ',' ((x :: xs).map write) ++ close :: s =
      write x ++ following write close s xs := by
  cases xs with
  | nil => rfl
  | cons y ys => simp [Text.joined, following]

theorem delimited_following (hclose : close ∈ [',', ']', '\x7d']) (s : List Char) (xs : List α) :
    Delimited (following write close s xs) := by
  cases xs with
  | nil => exact delimited_cons hclose s
  | cons x xs => exact delimited_cons (by decide) _

/-- **Several texts with commas between are told apart up to the closing mark,** if each of them is
unmistakable. -/
theorem joined_inj (hclose : close ∈ [']', '\x7d'])
    (hopens : ∀ x, ∃ c cs, write x = c :: cs ∧ Opens c) {xs : List α}
    (hxs : ∀ x ∈ xs, Unmistakable write x) {ys : List α} {r s : List Char}
    (h : Text.joined ',' (ys.map write) ++ close :: r =
      Text.joined ',' (xs.map write) ++ close :: s) : ys = xs ∧ r = s := by
  have hmark : close ∈ [',', ']', '\x7d'] := List.mem_cons_of_mem _ hclose
  have hcomma : ',' ≠ close := by
    rintro rfl
    exact absurd hclose (by decide)
  -- No value begins with a closing mark, so a list ends only where the other does.
  have hne (x : α) (cs ds : List Char) : write x ++ cs ≠ close :: ds := by
    obtain ⟨c, es, hx, hc⟩ := hopens x
    rw [hx, List.cons_append]
    intro heq
    have hall : [']', '\x7d'].all (fun d => ¬Opens d) = true := by decide
    rw [(List.cons.inj heq).1] at hc
    exact of_decide_eq_true (List.all_eq_true.1 hall close hclose) hc
  induction xs generalizing ys with
  | nil =>
    cases ys with
    | nil => exact ⟨rfl, (List.cons.inj h).2⟩
    | cons y ys => exact absurd ((joined_append y ys r).symm.trans h) (hne y _ _)
  | cons x xs ih =>
    rw [List.forall_mem_cons] at hxs
    cases ys with
    | nil => exact absurd ((joined_append x xs s).symm.trans h.symm) (hne x _ _)
    | cons y ys =>
      rw [joined_append, joined_append] at h
      obtain ⟨rfl, hrest⟩ := hxs.1 y _ _ (delimited_following hmark r ys)
        (delimited_following hmark s xs) h
      -- A comma follows where there are more values, and the closing mark where there are none.
      cases xs with
      | nil =>
        cases ys with
        | nil => exact ⟨rfl, (List.cons.inj hrest).2⟩
        | cons z zs => exact absurd (List.cons.inj hrest).1 hcomma
      | cons x xs =>
        cases ys with
        | nil => exact absurd (List.cons.inj hrest).1.symm hcomma
        | cons z zs =>
          obtain ⟨hys, hrs⟩ := ih hxs.2 (List.cons.inj hrest).2
          exact ⟨congrArg (y :: ·) hys, hrs⟩

end

/-! ### Values -/

theorem quoted_inj {s t : String} {r u : List Char} (h : quoted s ++ r = quoted t ++ u) :
    s = t ∧ r = u := by
  have hs := readString_escape s r
  have ht := readString_escape t u
  simp only [quoted, List.cons_append, List.append_assoc, List.nil_append, List.cons.injEq,
    true_and] at h
  rw [h, ht] at hs
  cases hs
  exact ⟨rfl, rfl⟩

/-- The characters of an entry. -/
def memberChars (e : String × Json) : List Char := quoted e.1 ++ ':' :: e.2.chars

theorem itemChars_eq (items : List Json) : itemChars items = Text.joined ',' (items.map chars) := by
  induction items with
  | nil => rfl
  | cons j js ih =>
    cases js with
    | nil => rfl
    | cons k ks => rw [itemChars, ih]; rfl

theorem entryChars_eq (entries : List (String × Json)) :
    entryChars entries = Text.joined ',' (entries.map memberChars) := by
  induction entries with
  | nil => rfl
  | cons e es ih =>
    cases es with
    | nil => rfl
    | cons f fs => rw [entryChars, ih]; rfl

theorem unmistakable_member {e : String × Json} (h : Unmistakable chars e.2) :
    Unmistakable memberChars e := by
  intro f r s hr hs heq
  unfold memberChars at heq
  rw [List.append_assoc, List.append_assoc] at heq
  obtain ⟨hkey, hvalue⟩ := quoted_inj heq
  obtain ⟨hj, hrs⟩ := h f.2 r s hr hs (List.cons.inj hvalue).2
  exact ⟨Prod.ext hkey hj, hrs⟩

/-- **The text of a value without numbers begins no other value's text.** -/
theorem unmistakable {k : Json} (h : k.numbers = []) : Unmistakable chars k := by
  -- The first character gives the kind of the other value away.
  induction k using Json.induction with
  | null =>
    intro j r s _ _ heq
    have hkind := kind_eq heq
    cases j with
    | null => exact ⟨rfl, List.append_cancel_left heq⟩
    | _ => exact absurd hkind (by simp [kind])
  | bool b =>
    intro j r s _ _ heq
    have hkind := kind_eq heq
    cases j with
    | bool a => cases a <;> cases b <;> simp_all [chars]
    | _ => exact absurd hkind (by simp [kind])
  | number n => exact absurd h (List.cons_ne_nil n [])
  | string t =>
    intro j r s _ _ heq
    have hkind := kind_eq heq
    cases j with
    | string u =>
      obtain ⟨rfl, hrs⟩ := quoted_inj heq
      exact ⟨rfl, hrs⟩
    | _ => exact absurd hkind (by simp [kind])
  | array items ih =>
    intro j r s _ _ heq
    have hkind := kind_eq heq
    cases j with
    | array others =>
      rw [numbers, numbersOfItems_eq, List.flatMap_eq_nil_iff] at h
      simp only [chars, itemChars_eq, List.append_assoc, List.cons_append, List.nil_append] at heq
      have hopens (k : Json) : ∃ c cs, k.chars = c :: cs ∧ Opens c := by
        obtain ⟨c, cs, hk, hc, -⟩ := chars_eq_cons k
        exact ⟨c, cs, hk, hc⟩
      obtain ⟨rfl, hrs⟩ := joined_inj (by decide) hopens (fun k hk => ih k hk (h k hk))
        (List.cons.inj heq).2
      exact ⟨rfl, hrs⟩
    | _ => exact absurd hkind (by simp [kind])
  | object entries ih =>
    intro j r s _ _ heq
    have hkind := kind_eq heq
    cases j with
    | object others =>
      rw [numbers, numbersOfEntries_eq, List.flatMap_eq_nil_iff] at h
      simp only [chars, entryChars_eq, List.append_assoc, List.cons_append, List.nil_append] at heq
      obtain ⟨rfl, hrs⟩ := joined_inj (by decide) (fun e => ⟨_, _, rfl, by decide⟩)
        (fun e he => unmistakable_member (ih e he (h e he))) (List.cons.inj heq).2
      exact ⟨rfl, hrs⟩
    | _ => exact absurd hkind (by simp [kind])

/-- Two values have one text only if they are the same, if one of them is without numbers. -/
theorem text_inj {j k : Json} (hk : k.numbers = []) (h : j.text = k.text) : j = k := by
  refine (unmistakable hk j [] [] delimited_nil delimited_nil ?_).1
  simpa [text] using congrArg String.toList h

end TableFilter.Json
