import TableFilter.CommandLine.Command
import TableFilter.Proofs.Synchronizer.Entries
import TableFilter.Proofs.Synchronizer.Frames

/-!
# What compiling prints

* Texts give conditions if each of them does (`Command.readSpecs_eq_ok_iff`), and otherwise the
  mistake in the first one that has one.
* The table is hydrated from the navigation that is given, and the conditions are exchanged then.
  All that is left of that navigation are the pairs of other keys (`Command.compiled_eq`): what is
  printed is the query of the conditions and a navigation that shows what they say.
-/

namespace TableFilter

namespace CommandLine.Command

variable {r : Registry} {specs : List String} {file : String → Option String} {path : String}
  {t : Table}

theorem readSpecs_eq_mapM (r : Registry) (specs : List String) :
    readSpecs r specs = specs.mapM r.ofSpec := by
  induction specs with
  | nil => rfl
  | cons spec rest ih => rw [readSpecs, ih, List.mapM_cons]

/-- The conditions of texts are those that the texts write one by one. -/
theorem readSpecs_eq_ok_iff {conditions : List Condition} :
    readSpecs r specs = .ok conditions ↔
      List.Forall₂ (fun spec c => r.ofSpec spec = .ok c) specs conditions := by
  rw [readSpecs_eq_mapM, mapM_eq_ok_iff]

/-- Where one of the texts is mistaken, so is the first one that is. -/
theorem exists_readSpecs_eq_error {spec : String} {e : SpecError} (hspec : spec ∈ specs)
    (h : r.ofSpec spec = .error e) :
    ∃ first ∈ specs, ∃ f, r.ofSpec first = .error f ∧ readSpecs r specs = .error f := by
  induction specs with
  | nil => cases hspec
  | cons s rest ih =>
    cases hs : r.ofSpec s with
    | error f => exact ⟨s, List.mem_cons_self, f, hs, by rw [readSpecs, hs]; rfl⟩
    | ok c =>
      have hrest : spec ∈ rest := by
        rcases List.mem_cons.1 hspec with rfl | hrest
        · rw [hs] at h
          cases h
        · exact hrest
      obtain ⟨first, hfirst, f, hf, hread⟩ := ih hrest
      exact ⟨first, List.mem_cons_of_mem s hfirst, f, hf, by rw [readSpecs, hs, hread]; rfl⟩

/-- Once the table is had, the texts decide. -/
theorem run_compile_eq (ht : Table.ofFile file path = .ok t) (join : Join) (base : String)
    (specs : List String) :
    run file (.compile path join base specs) =
      match readSpecs t.fields specs with
      | .ok conditions => .ok (compiled t base ⟨conditions, join⟩)
      | .error e => .error (.spec e) := by
  rw [run, table, ht]
  rfl

/-- What is printed is the query of the conditions and a navigation that shows them. -/
theorem compiled_eq (ht : t.IsAccepted) (base : String) (cs : Conditions) :
    ∃ query,
      compiled t base cs = (if (cs.text t.fields).isEmpty then "\x7b\x7d" else cs.text t.fields) ++
        "\n" ++ query ++ "\n" ∧
      t.Shows (Params.parse query) cs ∧
      (Params.parse query).outside (t.key :: t.fields.params.map (·.2)) =
        (History.start base).params.outside (t.key :: t.fields.params.map (·.2)) := by
  rcases hfirst : Synchronizer.fresh .counted t (CountedHistory.start base) with ⟨first, m, e⟩
  rcases hsecond : first.exchange .counted m (first.store.replace cs).2 with ⟨second, k, o⟩
  obtain ⟨hscope, hconditions, hshows, hsame⟩ := Synchronizer.exchange_fresh hfirst hsecond
  obtain ⟨hkey, hfields⟩ : second.key = t.key ∧ second.store.registry = t.fields :=
    Prod.mk.inj hscope
  have hdocument : (second.output.get? t.key).getD "" = cs.text t.fields := by
    rw [Patch.get?, Synchronizer.entries_output ht hscope, Keyed.lookup_cons_pair, if_pos rfl,
      hconditions]
    rfl
  refine ⟨k.history.current, ?_, ?_, hsame.pairs⟩
  · rw [← hdocument]
    simp only [compiled, hydrated, hfirst, hsecond]
    rfl
  · rw [Synchronizer.shows_output_iff ht hkey hfields, hconditions] at hshows
    exact hshows

/-- **What compiling prints.** Over a table that is read from a file, compiling fails with the
mistake in one of the texts if any of them is no condition. Otherwise it prints the query that the
conditions compile to, or an empty object where nothing constrains the query, whatever navigation is
given; and then a navigation. There the table's key reads that query, the parameter of a field's own
reads the value of the first condition on the field and is empty if there is none, and all other
pairs are those of the navigation that was given, in their order. -/
theorem run_compile (ht : Table.ofFile file path = .ok t) (join : Join) (base : String)
    (specs : List String) :
    (∀ spec ∈ specs, ∀ e, t.fields.ofSpec spec = .error e →
      ∃ first ∈ specs, ∃ f, t.fields.ofSpec first = .error f ∧
        run file (.compile path join base specs) = .error (.spec f)) ∧
    ∀ conditions, List.Forall₂ (fun spec c => t.fields.ofSpec spec = .ok c) specs conditions →
      let text := Conditions.text ⟨conditions, join⟩ t.fields
      let keys := t.key :: t.fields.params.map (·.2)
      ∃ query,
        run file (.compile path join base specs) =
          .ok ((if text.isEmpty then "\x7b\x7d" else text) ++ "\n" ++ query ++ "\n") ∧
        (Params.parse query).value t.key = text ∧
        (∀ e ∈ t.fields.params, (Params.parse query).value e.2 =
          ((conditions.find? fun c => c.field == e.1).map (·.value.toParam)).getD "") ∧
        (Params.parse query).outside keys = (History.start base).params.outside keys := by
  rw [run_compile_eq ht]
  refine ⟨fun spec hspec e he => ?_, fun conditions hconditions => ?_⟩
  · obtain ⟨first, hfirst, f, hf, hread⟩ := exists_readSpecs_eq_error hspec he
    exact ⟨first, hfirst, f, hf, by rw [hread]⟩
  · obtain ⟨query, hprinted, hshows, houtside⟩ :=
      compiled_eq (Table.isAccepted_of_ofFile ht) base ⟨conditions, join⟩
    rw [readSpecs_eq_ok_iff.2 hconditions]
    refine ⟨query, congrArg Except.ok hprinted, hshows.key, fun e he => ?_, houtside⟩
    rw [hshows.own e he, Conditions.paramText]
    cases conditions.find? fun c => c.field == e.1 <;> rfl

/-- An owner that the navigation repeats and a query that is none give way to what is compiled. -/
theorem run_compile_stale :
    let owner := { FieldConfig.plain "Owner" .text with param := some "owner" }
    let t : Table := ⟨"orders", none, ⟨[("status", .plain "Status" .text), ("owner", owner)]⟩⟩
    let file := fun (_ : String) => some t.text
    let base := "owner=eve&page=2&owner=bob&orders=junk"
    let compile (specs : List String) := run file (.compile "orders.json" .and base specs)
    Table.ofFile file "orders.json" = .ok t ∧
      (∃ query,
        compile ["status::open", "owner::ann"] =
          .ok ("\x7b\"$match\":\x7b\"status\":\"open\"\x7d\x7d" ++ "\n" ++ query ++ "\n") ∧
        (Params.parse query).value "owner" = "ann" ∧
        (Params.parse query).outside ["orders", "owner"] = [("page", "2")]) ∧
      ∃ e, compile ["status::open", "owner"] = .error (.spec e) := by
  intro owner t file base compile
  have hread : Table.parseJson t.text = .ok t := by
    -- Reading sets out from the characters that were written: decoding a text takes much longer.
    have hchars : t.text.toList = t.toJson.chars := String.toList_ofList
    refine ok_of_toOption ?_
    rw [Table.parseJson, Table.ofJsonText, Json.read, hchars]
    decide +kernel
  have ht : Table.ofFile file "orders.json" = .ok t := by
    have hjson : Table.extension? "orders.json" = some "json" := by decide +kernel
    rw [Table.ofFile, hjson]
    exact hread
  refine ⟨ht, ?_, ?_⟩
  · let conditions : List Condition :=
      [⟨"status", .text, .eq, .text "open"⟩, ⟨"owner", .text, .eq, .text "ann"⟩]
    have hread : readSpecs t.fields ["status::open", "owner::ann"] = .ok conditions :=
      ok_of_toOption (by decide +kernel)
    have htext : Conditions.text ⟨conditions, .and⟩ t.fields =
        "\x7b\"$match\":\x7b\"status\":\"open\"\x7d\x7d" := by decide +kernel
    obtain ⟨query, hprinted, -, hown, houtside⟩ :=
      (run_compile ht .and base ["status::open", "owner::ann"]).2 conditions
        (readSpecs_eq_ok_iff.1 hread)
    rw [htext, if_neg (by decide)] at hprinted
    refine ⟨query, hprinted, ?_, ?_⟩
    · exact (hown ("owner", "owner") (by decide)).trans (by decide +kernel)
    · exact houtside.trans (by decide +kernel)
  · obtain ⟨-, -, e, -, hfailed⟩ := (run_compile ht .and base ["status::open", "owner"]).1 "owner"
      (by decide) (.notSpec "owner") (by decide +kernel)
    exact ⟨e, hfailed⟩

end CommandLine.Command

end TableFilter
