import TableFilter.Proofs.Synchronizer.Ownership

/-!
# The entries of an output

An output is written by setting one parameter after the other, and setting a parameter twice would
silently lose what was set first. The checks of a table rule that out: its parameters are apart, so
its output has one entry for each of them, in their order (`Synchronizer.entries_output`).

What an entry depends on is then plain: the filters on a field with a parameter of its own go into
that parameter only (`Synchronizer.get?_output_congr_off`), and all other filters and the join go
into the compiled query only (`Synchronizer.get?_output_congr_on`).
-/

namespace TableFilter

namespace Conditions

/-- The conditions on a field, in order. -/
def on (cs : Conditions) (field : String) : List Condition :=
  cs.conditions.filter fun c => c.field == field

/-- The conditions on the other fields, in order. -/
def off (cs : Conditions) (field : String) : List Condition :=
  cs.conditions.filter fun c => c.field != field

variable {cs ds : Conditions} {field other : String} {r : Registry}

theorem paramText_congr_on (h : cs.on field = ds.on field) :
    cs.paramText field = ds.paramText field := by
  have hfind : cs.conditions.find? (fun c => c.field == field) =
      ds.conditions.find? fun c => c.field == field := by
    rw [← List.head?_filter, ← List.head?_filter]
    exact congrArg List.head? h
  rw [paramText, paramText, hfind]

theorem on_eq_of_off (h : cs.off field = ds.off field) (hne : other ≠ field) :
    cs.on other = ds.on other := by
  -- A condition on the other field is none on this one.
  have hoff (es : Conditions) : es.on other = (es.off field).filter fun c => c.field == other := by
    rw [on, off, List.filter_filter]
    refine List.filter_congr fun c _ => ?_
    by_cases hc : c.field = other <;> simp [hc, hne]
  rw [hoff, hoff, h]

/-- The compiled query does not depend on the conditions on a field with a parameter of its own. -/
theorem text_congr_off (hfield : r.isStandalone field = true) (hjoin : cs.join = ds.join)
    (h : cs.off field = ds.off field) : cs.text r = ds.text r := by
  have hkept (es : Conditions) : es.conditions.filter (fun c => !r.isStandalone c.field) =
      (es.off field).filter fun c => !r.isStandalone c.field := by
    rw [off, List.filter_filter]
    refine List.filter_congr fun c _ => ?_
    by_cases hc : c.field = field <;> simp [hc, hfield]
  have hdocument : cs.document r = ds.document r := by
    rw [document, document, fragments, fragments, hkept, hkept, h, hjoin]
  rw [text, text, hdocument]

end Conditions

namespace Synchronizer

variable {t : Table} {s u : Synchronizer} {e : String × String} {k : String}

/-- **An output has one entry for each parameter of its table,** in their order: the compiled query
and the text of the first filter on each field with a parameter of its own. -/
theorem entries_output (ht : t.IsAccepted) (hs : s.scope = (t.key, t.fields)) :
    s.output.entries = (t.key, s.store.conditions.text t.fields) ::
      t.fields.params.map fun e => (e.2, paramText s.store e.1) := by
  obtain ⟨hkey, hfields⟩ : s.key = t.key ∧ s.store.registry = t.fields := Prod.mk.inj hs
  have hapart := List.nodup_cons.1 ht.nodup_keys
  have hentries (params : List (String × String)) (base : Patch) :
      (params.foldl (fun p e => p.set e.2 (paramText s.store e.1)) base).entries =
        params.foldl (fun entries e => Keyed.put e.2 (paramText s.store e.1) entries)
          base.entries := by
    induction params generalizing base with
    | nil => rfl
    | cons e rest ih => exact ih _
  rw [output, hentries, hkey, hfields]
  refine Keyed.foldl_put_of_notMem (f := fun e : String × String => (e.2, paramText s.store e.1))
    hapart.2 fun e he hmem => ?_
  have heq : e.2 = t.key := List.mem_singleton.1 hmem
  exact hapart.1 (List.mem_map.2 ⟨e, he, heq⟩)

/-- **Outputs say the same of a parameter whose entries are the same.** -/
theorem get?_output_congr (ht : t.IsAccepted) (hs : s.scope = (t.key, t.fields))
    (hu : u.scope = (t.key, t.fields))
    (hkey : k = t.key → s.store.conditions.text t.fields = u.store.conditions.text t.fields)
    (hown : ∀ e ∈ t.fields.params, e.2 = k →
      s.store.conditions.paramText e.1 = u.store.conditions.paramText e.1) :
    s.output.get? k = u.output.get? k := by
  simp only [Patch.get?, entries_output ht hs, entries_output ht hu, Keyed.lookup_cons_pair]
  split
  · next hk => rw [hkey hk]
  · -- Other parameters are looked up among those of the fields.
    generalize t.fields.params = params at hown ⊢
    induction params with
    | nil => rfl
    | cons e rest ih =>
      rw [List.forall_mem_cons] at hown
      rw [List.map_cons, List.map_cons, Keyed.lookup_cons_pair, Keyed.lookup_cons_pair]
      split
      · next hk => rw [paramText_eq, paramText_eq, hown.1 hk.symm]
      · exact ih hown.2

/-- **The filters on a field with a parameter of its own go into that parameter only.** -/
theorem get?_output_congr_off (ht : t.IsAccepted) (hs : s.scope = (t.key, t.fields))
    (hu : u.scope = (t.key, t.fields)) (he : e ∈ t.fields.params)
    (hjoin : s.store.join = u.store.join)
    (hoff : s.store.conditions.off e.1 = u.store.conditions.off e.1) (hk : k ≠ e.2) :
    s.output.get? k = u.output.get? k := by
  have hfield := Registry.isStandalone_of_mem_params ht.ids he
  refine get?_output_congr ht hs hu (fun _ => Conditions.text_congr_off hfield hjoin hoff)
    fun f hf hkf => Conditions.paramText_congr_on (Conditions.on_eq_of_off hoff ?_)
  -- A field has one parameter, so another parameter is that of another field.
  intro hsame
  have hparam := Registry.param?_of_mem_params ht.ids hf
  rw [hsame, Registry.param?_of_mem_params ht.ids he, Option.some.injEq] at hparam
  exact hk (hkf.symm.trans hparam.symm)

/-- **The filters on all other fields, and the join, go into the compiled query only.** -/
theorem get?_output_congr_on (ht : t.IsAccepted) (hs : s.scope = (t.key, t.fields))
    (hu : u.scope = (t.key, t.fields))
    (hon : ∀ e ∈ t.fields.params, s.store.conditions.on e.1 = u.store.conditions.on e.1)
    (hk : k ≠ t.key) : s.output.get? k = u.output.get? k :=
  get?_output_congr ht hs hu (fun h => absurd h hk)
    fun e he _ => Conditions.paramText_congr_on (hon e he)

/-- **What each parameter of a table that was read says.** Its parameters are apart, and over any
store of its fields the output has one entry for each of them: the text of the compiled query, and
for each field with a parameter of its own the text of the first filter on it, empty if there is
none. So where only the filters on one such field are exchanged the entries of all other parameters
stay as they are, and where all these fields keep their filters only that of the query may change.
-/
theorem output_of_read {text : String}
    (h : Table.parseJson text = .ok t ∨ Table.parseYaml text = .ok t) :
    (t.key :: t.fields.params.map (·.2)).Nodup ∧
      ∀ s : Synchronizer, s.scope = (t.key, t.fields) →
        s.ownKeys = t.key :: t.fields.params.map (·.2) ∧
        s.output.entries = (t.key, s.store.conditions.text t.fields) ::
          t.fields.params.map (fun e =>
            (e.2, ((s.store.find? e.1).map fun f => f.condition.value.toParam).getD "")) ∧
        ∀ u : Synchronizer, u.scope = (t.key, t.fields) →
          (∀ e ∈ t.fields.params, u.store.join = s.store.join →
            u.store.conditions.off e.1 = s.store.conditions.off e.1 →
              ∀ k, k ≠ e.2 → u.output.get? k = s.output.get? k) ∧
          ((∀ e ∈ t.fields.params, u.store.conditions.on e.1 = s.store.conditions.on e.1) →
            ∀ k, k ≠ t.key → u.output.get? k = s.output.get? k) := by
  have ht : t.IsAccepted := h.elim Table.isAccepted_of_parseJson Table.isAccepted_of_parseYaml
  refine ⟨ht.nodup_keys, fun s hs => ⟨?_, ?_, fun u hu => ⟨fun e he hjoin hoff k hk => ?_,
    fun hon k hk => ?_⟩⟩⟩
  · obtain ⟨hkey, hfields⟩ : s.key = t.key ∧ s.store.registry = t.fields := Prod.mk.inj hs
    rw [ownKeys, hkey, hfields]
  · rw [entries_output ht hs]
    refine congrArg (List.cons _) (List.map_congr_left fun e _ => ?_)
    rw [paramText]
    cases s.store.find? e.1 <;> rfl
  · exact get?_output_congr_off ht hu hs he hjoin hoff hk
  · exact get?_output_congr_on ht hu hs hon hk

/-- With another owner the query stays as it is, and with another status the owner. -/
theorem output_of_read_orders :
    let text := "\x7b\"table_id\":\"orders\",\"fields\":[" ++
      "\x7b\"id\":\"status\",\"label\":\"Status\",\"variant\":\"text\"\x7d," ++
      "\x7b\"id\":\"owner\",\"label\":\"Owner\",\"variant\":\"text\"," ++
      "\"standaloneParam\":\"by\"\x7d]\x7d"
    let owner := { FieldConfig.plain "Owner" .text with param := some "by" }
    let t : Table := ⟨"orders", none, ⟨[("status", .plain "Status" .text), ("owner", owner)]⟩⟩
    let of (status name : String) : Synchronizer :=
      { ofTable t with store := ((Store.empty t.fields).replace
          ⟨[⟨"status", .text, .eq, .text status⟩, ⟨"owner", .text, .eq, .text name⟩], .and⟩).2 }
    Table.parseJson text = .ok t ∧
      (of "open" "ann").output.entries =
        [("orders", "\x7b\"$match\":\x7b\"status\":\"open\"\x7d\x7d"), ("by", "ann")] ∧
      (of "open" "bob").output.get? "orders" = (of "open" "ann").output.get? "orders" ∧
      (of "paid" "ann").output.get? "by" = (of "open" "ann").output.get? "by" := by
  intro text owner t of
  have hread : Table.parseJson text = .ok t := ok_of_toOption (by decide +kernel)
  obtain ⟨-, houtput⟩ := output_of_read (.inl hread)
  obtain ⟨-, hentries, hother⟩ := houtput (of "open" "ann") rfl
  refine ⟨hread, ?_, ?_, ?_⟩
  · rw [hentries]
    decide +kernel
  · exact (hother (of "open" "bob") rfl).1 ("owner", "by") (by decide) rfl (by decide) "orders"
      (by decide)
  · exact (hother (of "paid" "ann") rfl).2 (by decide) "by" (by decide)

end Synchronizer

end TableFilter
