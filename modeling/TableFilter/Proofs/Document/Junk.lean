import Mathlib.Logic.Relation
import TableFilter.Proofs.Condition.Recovery
import TableFilter.Proofs.Json.Sorted

/-!
# Junk in query documents

What stands in an object and means nothing to a query document is junk: an entry whose key is no
operator or whose value is of the wrong kind for it, a member of a list that is no object, and a
field of a leaf that holds no scalar.

* `AddsJunk` adds one piece of junk at any depth, and `JunkApart` are objects that differ by pieces
  that were added or dropped. They are read as the same document (`ofJson_of_junkApart`).
* `withoutJunk` drops all junk at once. Objects are `JunkApart` just if they are the same without it
  (`junkApart_iff`).

The entries of an object stand in the order of their keys, so that an added one may stand anywhere
among the others; where a sorted object is given a new entry, it is added in this way
(`addsJunk_insertSorted`).
-/

namespace TableFilter

/-- Whether a value is neither an array nor an object. -/
def Json.isScalar : Json → Bool
  | .array _ => false
  | .object _ => false
  | _ => true

/-- Whether a value is an object. -/
def Json.isObject : Json → Bool
  | .object _ => true
  | _ => false

namespace Document

/-- The keys of entries that hold the fields of a leaf. -/
def leafKeys : List String := ["$match", "$exists", "$lt", "$lte", "$gt", "$gte", "$ne"]

/-- The keys of entries that hold a list of documents. -/
def listKeys : List String := ["$and", "$or"]

/-- Whether an entry of an object is junk: its value is of no kind that the key goes with. -/
def isJunk (key : String) : Json → Bool
  | .object _ => key ∉ "$not" :: leafKeys
  | .array _ => key ∉ listKeys
  | _ => true

/-- One piece of junk is added to the entries of an object, in it or in an object at any depth. -/
inductive AddsJunk : List (String × Json) → List (String × Json) → Prop
  | entry {before after : List (String × Json)} {key : String} {value : Json}
      (h : isJunk key value = true) : AddsJunk (before ++ after) (before ++ (key, value) :: after)
  | field {before after front back : List (String × Json)} {key field : String} {value : Json}
      (hkey : key ∈ leafKeys) (h : value.isScalar = false) :
      AddsJunk (before ++ (key, .object (front ++ back)) :: after)
        (before ++ (key, .object (front ++ (field, value) :: back)) :: after)
  | item {before after : List (String × Json)} {front back : List Json} {key : String}
      {value : Json} (hkey : key ∈ listKeys) (h : value.isObject = false) :
      AddsJunk (before ++ (key, .array (front ++ back)) :: after)
        (before ++ (key, .array (front ++ value :: back)) :: after)
  | negated {before after es fs : List (String × Json)} (h : AddsJunk es fs) :
      AddsJunk (before ++ ("$not", .object es) :: after) (before ++ ("$not", .object fs) :: after)
  | member {before after es fs : List (String × Json)} {front back : List Json} {key : String}
      (hkey : key ∈ listKeys) (h : AddsJunk es fs) :
      AddsJunk (before ++ (key, .array (front ++ .object es :: back)) :: after)
        (before ++ (key, .array (front ++ .object fs :: back)) :: after)

/-- Objects whose entries differ by junk, added or dropped piece by piece. -/
def JunkApart : List (String × Json) → List (String × Json) → Prop := Relation.EqvGen AddsJunk

mutual

/-- A value that is no junk under its key, with all junk in it dropped. -/
def valueWithoutJunk (key : String) : Json → Json
  | .object entries =>
    if key = "$not" then .object (withoutJunk entries)
    else .object (entries.filter fun e => e.2.isScalar)
  | .array items => .array (itemsWithoutJunk items)
  | value => value

/-- The entries of an object with all junk dropped. -/
def withoutJunk : List (String × Json) → List (String × Json)
  | [] => []
  | (key, value) :: rest =>
    if isJunk key value then withoutJunk rest
    else (key, valueWithoutJunk key value) :: withoutJunk rest

/-- The members of a list with all junk dropped. -/
def itemsWithoutJunk : List Json → List Json
  | [] => []
  | .object entries :: rest => .object (withoutJunk entries) :: itemsWithoutJunk rest
  | _ :: rest => itemsWithoutJunk rest

end

variable {es fs : List (String × Json)} {key : String} {value : Json}

/-! ### What is read -/

theorem ofKey?_eq_none_iff : Test.ofKey? key = none ↔ key ∉ leafKeys := by
  have hcomparison : Comparison.ofKey? key = none ↔ ∀ c ∈ Comparison.all, key ≠ c.key := by
    simp only [Comparison.ofKey?, List.find?_eq_none, beq_iff_eq, ne_comm (a := key), ne_eq]
  unfold Test.ofKey? leafKeys
  by_cases hmatch : key = "$match"
  · simp [hmatch]
  by_cases hexists : key = "$exists"
  · simp [hexists]
  rw [if_neg hmatch, if_neg hexists, Option.map_eq_none_iff, hcomparison]
  simp [Comparison.all, Comparison.key, hmatch, hexists]

theorem exists_ofKey? (h : key ∈ leafKeys) : ∃ test, Test.ofKey? key = some test :=
  Option.ne_none_iff_exists'.1 fun hnone => ofKey?_eq_none_iff.1 hnone h

/-- **An entry is left out just if it is junk.** -/
theorem ofEntry_eq_none_iff : ofEntry? key value = none ↔ isJunk key value = true := by
  cases value with
  | object entries =>
    have hnot : "$not" ∉ leafKeys := by decide
    rw [isJunk, ofEntry?]
    cases htest : Test.ofKey? key with
    | some test =>
      have hkey : key ∈ leafKeys := Decidable.byContradiction fun h => by
        rw [ofKey?_eq_none_iff.2 h] at htest
        cases htest
      simp [hkey]
    | none => simp [ofKey?_eq_none_iff.1 htest]
  | array items =>
    rw [isJunk, listKeys, ofEntry?]
    by_cases hand : key = "$and" <;> by_cases hor : key = "$or" <;> simp [hand, hor]
  | _ => simp [isJunk, ofEntry?]

theorem ofJson?_eq_none_iff : Scalar.ofJson? value = none ↔ value.isScalar = false := by
  cases value <;> simp [Scalar.ofJson?, Json.isScalar]

theorem ofEntries_append (es fs : List (String × Json)) :
    ofEntries (es ++ fs) = ofEntries es ++ ofEntries fs := by
  induction es with
  | nil => rfl
  | cons e es ih =>
    obtain ⟨key, value⟩ := e
    rw [List.cons_append, ofEntries, ofEntries, ih]
    split <;> rfl

theorem ofItems_append (xs ys : List Json) : ofItems (xs ++ ys) = ofItems xs ++ ofItems ys := by
  induction xs with
  | nil => rfl
  | cons j xs ih => cases j <;> simp only [List.cons_append, ofItems, ih]

theorem ofItems_cons_of_not_object (h : value.isObject = false) (items : List Json) :
    ofItems (value :: items) = ofItems items := by
  cases value with
  | object entries => cases h
  | _ => rfl

theorem ofEntries_cons_of_junk (h : isJunk key value = true) (es : List (String × Json)) :
    ofEntries ((key, value) :: es) = ofEntries es := by
  rw [ofEntries, ofEntry_eq_none_iff.2 h]

/-- Entries are read alike when one of them is exchanged for one that is read alike. -/
theorem ofEntries_congr {other : Json} (h : ofEntry? key value = ofEntry? key other)
    (before after : List (String × Json)) :
    ofEntries (before ++ (key, value) :: after) = ofEntries (before ++ (key, other) :: after) := by
  rw [ofEntries_append, ofEntries_append, ofEntries, ofEntries, h]

/-- A list is read alike when its members are. -/
theorem ofEntry_array_congr {xs ys : List Json} (h : ofItems xs = ofItems ys) :
    ofEntry? key (.array xs) = ofEntry? key (.array ys) := by
  simp only [h, ofEntry?]

/-- **A piece of junk changes nothing of what is read.** -/
theorem ofEntries_of_addsJunk (h : AddsJunk es fs) : ofEntries es = ofEntries fs := by
  induction h with
  | entry hjunk => rw [ofEntries_append, ofEntries_append, ofEntries_cons_of_junk hjunk]
  | field hkey hscalar =>
    obtain ⟨test, htest⟩ := exists_ofKey? hkey
    refine ofEntries_congr ?_ _ _
    simp only [htest, ofEntry?, readFields, List.filterMap_append, List.filterMap_cons,
      ofJson?_eq_none_iff.2 hscalar, Option.map_none]
  | item hkey hobject =>
    refine ofEntries_congr (ofEntry_array_congr ?_) _ _
    rw [ofItems_append, ofItems_append, ofItems_cons_of_not_object hobject]
  | negated _ ih =>
    refine ofEntries_congr ?_ _ _
    simp only [ih, ofEntry?, show Test.ofKey? "$not" = none by decide]
  | member hkey _ ih =>
    refine ofEntries_congr (ofEntry_array_congr ?_) _ _
    rw [ofItems_append, ofItems_append, ofItems, ofItems, ih]

/-- What a piece of junk does not change is the same for objects that differ by junk. -/
theorem JunkApart.eq_of_step {β : Type} {f : List (String × Json) → β}
    (hf : ∀ {es fs}, AddsJunk es fs → f es = f fs) (h : JunkApart es fs) : f es = f fs := by
  induction h with
  | rel es fs h => exact hf h
  | refl es => rfl
  | symm es fs _ ih => exact ih.symm
  | trans es fs gs _ _ ihs iht => exact ihs.trans iht

/-! ### All junk dropped -/

theorem withoutJunk_append (es fs : List (String × Json)) :
    withoutJunk (es ++ fs) = withoutJunk es ++ withoutJunk fs := by
  induction es with
  | nil => rfl
  | cons e es ih =>
    obtain ⟨key, value⟩ := e
    rw [List.cons_append, withoutJunk, withoutJunk, ih]
    split <;> rfl

theorem itemsWithoutJunk_append (xs ys : List Json) :
    itemsWithoutJunk (xs ++ ys) = itemsWithoutJunk xs ++ itemsWithoutJunk ys := by
  induction xs with
  | nil => rfl
  | cons j xs ih => cases j <;> simp only [List.cons_append, itemsWithoutJunk, ih]

theorem withoutJunk_congr {other : Json} (hjunk : isJunk key value = isJunk key other)
    (h : valueWithoutJunk key value = valueWithoutJunk key other)
    (before after : List (String × Json)) :
    withoutJunk (before ++ (key, value) :: after) =
      withoutJunk (before ++ (key, other) :: after) := by
  rw [withoutJunk_append, withoutJunk_append, withoutJunk, withoutJunk, hjunk, h]

theorem withoutJunk_of_addsJunk (h : AddsJunk es fs) : withoutJunk es = withoutJunk fs := by
  induction h with
  | entry hjunk => rw [withoutJunk_append, withoutJunk_append, withoutJunk, if_pos hjunk]
  | @field _ _ _ _ key _ _ hkey hscalar =>
    have hnot : key ≠ "$not" := fun h => absurd (h ▸ hkey) (by decide)
    refine withoutJunk_congr (by rfl) ?_ _ _
    rw [valueWithoutJunk, valueWithoutJunk, if_neg hnot, if_neg hnot, List.filter_append,
      List.filter_append, List.filter_cons_of_neg (by simp [hscalar])]
  | @item _ _ _ _ _ value hkey hobject =>
    refine withoutJunk_congr (by rfl) ?_ _ _
    rw [valueWithoutJunk, valueWithoutJunk, itemsWithoutJunk_append, itemsWithoutJunk_append]
    cases value with
    | object entries => cases hobject
    | _ => rfl
  | negated _ ih =>
    refine withoutJunk_congr (by rfl) ?_ _ _
    simp only [valueWithoutJunk, if_true, ih]
  | member hkey _ ih =>
    refine withoutJunk_congr (by rfl) ?_ _ _
    rw [valueWithoutJunk, valueWithoutJunk, itemsWithoutJunk_append, itemsWithoutJunk_append,
      itemsWithoutJunk, itemsWithoutJunk, ih]

theorem JunkApart.withoutJunk_eq (h : JunkApart es fs) : withoutJunk es = withoutJunk fs :=
  h.eq_of_step withoutJunk_of_addsJunk

/-- The fields of a leaf come from those that hold scalars by adding the others. -/
theorem reflTransGen_addsJunk_fields (hkey : key ∈ leafKeys)
    (before after front entries : List (String × Json)) :
    Relation.ReflTransGen AddsJunk
      (before ++ (key, .object (front ++ entries.filter fun e => e.2.isScalar)) :: after)
      (before ++ (key, .object (front ++ entries)) :: after) := by
  induction entries generalizing front with
  | nil => exact .refl
  | cons e rest ih =>
    by_cases hscalar : e.2.isScalar = true
    · rw [List.filter_cons_of_pos (by exact hscalar)]
      simpa using ih (front ++ [e])
    · rw [List.filter_cons_of_neg (by exact hscalar)]
      exact (ih front).tail (.field hkey (Bool.eq_false_iff.2 hscalar))

mutual

/-- A value comes from what is left of it without junk by adding junk. -/
theorem reflTransGen_addsJunk_value (key : String) :
    (value : Json) → isJunk key value = false → (before after : List (String × Json)) →
      Relation.ReflTransGen AddsJunk (before ++ (key, valueWithoutJunk key value) :: after)
        (before ++ (key, value) :: after)
  | .object entries, h, before, after => by
    rw [isJunk, decide_eq_false_iff_not, Decidable.not_not, List.mem_cons] at h
    rw [valueWithoutJunk]
    by_cases hnot : key = "$not"
    · subst hnot
      rw [if_pos rfl]
      exact (reflTransGen_addsJunk [] entries).lift
        (fun es => before ++ ("$not", .object es) :: after) fun _ _ => AddsJunk.negated
    · rw [if_neg hnot]
      exact reflTransGen_addsJunk_fields (h.resolve_left hnot) before after [] entries
  | .array items, h, before, after => by
    rw [isJunk, decide_eq_false_iff_not, Decidable.not_not] at h
    rw [valueWithoutJunk]
    exact reflTransGen_addsJunk_items h before after [] items
  | .null, h, _, _ | .bool _, h, _, _ | .number _, h, _, _ | .string _, h, _, _ => by cases h

/-- Entries come from what is left of them without junk by adding junk. -/
theorem reflTransGen_addsJunk (before : List (String × Json)) :
    (es : List (String × Json)) →
      Relation.ReflTransGen AddsJunk (before ++ withoutJunk es) (before ++ es)
  | [] => .refl
  | (key, value) :: rest => by
    rw [withoutJunk]
    cases hjunk : isJunk key value with
    | true =>
      exact (reflTransGen_addsJunk before rest).tail (.entry hjunk)
    | false =>
      have hvalue := reflTransGen_addsJunk_value key value hjunk before (withoutJunk rest)
      have hrest := reflTransGen_addsJunk (before ++ [(key, value)]) rest
      rw [List.append_assoc, List.append_assoc] at hrest
      exact hvalue.trans hrest

/-- Members come from what is left of them without junk by adding junk. -/
theorem reflTransGen_addsJunk_items {key : String} (hkey : key ∈ listKeys)
    (before after : List (String × Json)) (front : List Json) :
    (items : List Json) →
      Relation.ReflTransGen AddsJunk
        (before ++ (key, .array (front ++ itemsWithoutJunk items)) :: after)
        (before ++ (key, .array (front ++ items)) :: after)
  | [] => .refl
  | .object entries :: rest => by
    have hmember := (reflTransGen_addsJunk [] entries).lift
      (fun es => before ++ (key, .array (front ++ .object es :: itemsWithoutJunk rest)) :: after)
      fun _ _ => AddsJunk.member hkey
    have hrest := reflTransGen_addsJunk_items hkey before after (front ++ [.object entries]) rest
    rw [List.append_assoc, List.append_assoc] at hrest
    exact hmember.trans hrest
  | .null :: rest | .bool _ :: rest | .number _ :: rest | .string _ :: rest | .array _ :: rest =>
    (reflTransGen_addsJunk_items hkey before after front rest).tail (.item hkey rfl)

end

theorem junkApart_withoutJunk (es : List (String × Json)) : JunkApart es (withoutJunk es) :=
  .symm _ _ (Relation.EqvGen.reflTransGen_le_eqvGen _ _ _ (reflTransGen_addsJunk [] es))

/-- **Objects differ by junk just if they are the same without it.** -/
theorem junkApart_iff : JunkApart es fs ↔ withoutJunk es = withoutJunk fs := by
  refine ⟨JunkApart.withoutJunk_eq, fun h => ?_⟩
  have hes := junkApart_withoutJunk es
  rw [h] at hes
  exact hes.trans _ _ _ (.symm _ _ (junkApart_withoutJunk fs))

/-- An entry that is junk and has a key of its own, put at its place among sorted ones, is a piece
of junk that is added. -/
theorem addsJunk_insertSorted (hjunk : isJunk key value = true) (hkey : es.lookup key = none) :
    AddsJunk es (Json.insertSorted key value es) := by
  suffices ∃ before after, es = before ++ after ∧
      Json.insertSorted key value es = before ++ (key, value) :: after by
    obtain ⟨before, after, hes, hinsert⟩ := this
    rw [hinsert, hes]
    exact .entry hjunk
  induction es with
  | nil => exact ⟨[], [], rfl, rfl⟩
  | cons e rest ih =>
    obtain ⟨k, v⟩ := e
    rw [Keyed.lookup_cons_pair] at hkey
    rw [Json.insertSorted]
    split
    · exact ⟨[], (k, v) :: rest, rfl, rfl⟩
    split
    · next heq => exact absurd hkey (by simp [heq])
    · next hne =>
      rw [if_neg hne] at hkey
      obtain ⟨before, after, hrest, hinsert⟩ := ih hkey
      exact ⟨(k, v) :: before, after, by rw [hrest, List.cons_append], by
        rw [hinsert, List.cons_append]⟩

/-! ### Nothing left to drop -/

theorem sizeOf_insert_lt {α : Type} [SizeOf α] (xs ys : List α) (x : α) :
    sizeOf (xs ++ ys) < sizeOf (xs ++ x :: ys) := by
  induction xs with
  | nil => simp
  | cons y xs ih => simpa using ih

theorem sizeOf_exchange_lt {α : Type} [SizeOf α] {x y : α} (h : sizeOf x < sizeOf y)
    (xs ys : List α) : sizeOf (xs ++ x :: ys) < sizeOf (xs ++ y :: ys) := by
  induction xs with
  | nil => simpa using h
  | cons z xs ih => simpa using ih

/-- A piece of junk makes an object larger. -/
theorem AddsJunk.sizeOf_lt (h : AddsJunk es fs) : sizeOf es < sizeOf fs := by
  induction h with
  | entry _ => exact sizeOf_insert_lt _ _ _
  | field _ _ =>
    refine sizeOf_exchange_lt ?_ _ _
    simpa using sizeOf_insert_lt _ _ _
  | item _ _ =>
    refine sizeOf_exchange_lt ?_ _ _
    simpa using sizeOf_insert_lt _ _ _
  | negated _ ih => exact sizeOf_exchange_lt (by simpa using ih) _ _
  | member _ _ ih =>
    refine sizeOf_exchange_lt ?_ _ _
    simpa using sizeOf_exchange_lt (by simpa using ih) _ _

theorem sizeOf_withoutJunk_le (es : List (String × Json)) : sizeOf (withoutJunk es) ≤ sizeOf es :=
  Relation.reflTransGen_le_of_le (r := fun es fs => sizeOf es ≤ sizeOf fs)
    (fun _ _ h => h.sizeOf_lt.le) _ _ (reflTransGen_addsJunk [] es)

/-- **Where all junk is dropped, none is left.** -/
theorem not_addsJunk_withoutJunk (es fs : List (String × Json)) :
    ¬AddsJunk fs (withoutJunk es) := by
  intro h
  have hfs : withoutJunk fs = withoutJunk es :=
    (withoutJunk_of_addsJunk h).trans (junkApart_withoutJunk es).withoutJunk_eq.symm
  have hlt : sizeOf fs < sizeOf (withoutJunk fs) := hfs ▸ h.sizeOf_lt
  exact absurd (sizeOf_withoutJunk_le fs) (Nat.not_le.2 hlt)

/-! ### Objects and texts -/

theorem parse_of_sorted {s : String} {j : Json} (hj : Json.parse s = .ok j)
    (h : j.sorted = .object es) : parse s = .ok (ofObject es) := by
  rw [parse, hj]
  simp only [h, ofJson]

/-- **Junk means nothing.** An object comes from what is left without junk by adding junk, and no
junk is left in that. Objects that differ by junk are the same document, and texts of such objects
have the same conditions and the same join. -/
theorem ofJson_of_junkApart (es : List (String × Json)) :
    Relation.ReflTransGen AddsJunk (withoutJunk es) es ∧
      (∀ fs, ¬AddsJunk fs (withoutJunk es)) ∧
      ∀ fs, JunkApart es fs →
        (∃ d, ofJson (.object es) = .ok d ∧ ofJson (.object fs) = .ok d) ∧
        ∀ s t j k, Json.parse s = .ok j → j.sorted = .object es →
          Json.parse t = .ok k → k.sorted = .object fs →
          parse s = parse t ∧ Conditions.ofText s = Conditions.ofText t := by
  refine ⟨reflTransGen_addsJunk [] es, not_addsJunk_withoutJunk es, fun fs h => ?_⟩
  have hread : ofObject es = ofObject fs := by
    rw [ofObject, ofObject, h.eq_of_step ofEntries_of_addsJunk]
  refine ⟨⟨_, rfl, by rw [ofJson, hread]⟩, fun s t j k hs hes ht hfs => ?_⟩
  have hes := parse_of_sorted hs hes
  have hfs := parse_of_sorted ht hfs
  rw [← hread] at hfs
  rw [hes, hfs, Conditions.ofText_of_parse hes, Conditions.ofText_of_parse hfs]
  exact ⟨rfl, rfl⟩

/-- A leaf in a list, with other junk in it, beside it and around it in either text. -/
theorem parse_eq_of_junk_in_list :
    let leaf (more : List (String × Json)) : String × Json :=
      ("$match", .object (("owner", .string "ann") :: more))
    let es : List (String × Json) :=
      [("$and", .array [.object [leaf [("tags", .array [])]], .bool true])]
    let fs : List (String × Json) :=
      [("$and", .array [.object [leaf [], ("$or", .null)]]), ("limit", .object [leaf []])]
    JunkApart es fs ∧
      ofJson (.object es) = .ok (.all [.equal "owner" (.string "ann")]) ∧
      parse (Json.object es).text = parse (Json.object fs).text ∧
      Conditions.ofText (Json.object es).text = Conditions.ofText (Json.object fs).text := by
  intro leaf es fs
  have happart : JunkApart es fs := junkApart_iff.2 (by rfl)
  have hread (gs : List (String × Json)) (hnumbers : (Json.object gs).numbers = [])
      (hdepth : (Json.object gs).nesting ≤ Json.maxDepth) :
      Json.parse (Json.object gs).text = .ok (.object gs) :=
    Json.parse_text (by simp [hnumbers]) hdepth
  have hsorted : (Json.object fs).sorted = .object fs :=
    congrArg Json.object (Json.InOrder.sortEntries_eq (List.pairwise_pair.2 (by decide)))
  exact ⟨happart, rfl, ((ofJson_of_junkApart es).2.2 fs happart).2 _ _ _ _
    (hread es rfl (by decide)) rfl (hread fs rfl (by decide)) hsorted⟩

end Document

end TableFilter
