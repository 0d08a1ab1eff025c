import CorpusQuery.Proofs.Catalog.Twins
import CorpusQuery.Proofs.Query.Compiling
import CorpusQuery.Proofs.Query.HeaderNames

/-!
# Ordering by a field

Rows are ordered by a field that the settings name. Over a relational corpus the name is looked up
in the catalog, and every textual or numeric field and every feature can be ordered by. Over an
export the name is looked for among the columns instead, although filters go through the catalog
there too. So a field that lives in a column of another name cannot be ordered by. There are three
such fields: the plain lemma, and two features that have a short form. An export that has no column
of the field's own name lends it that of the lemma or of the short form.

Which query is refused for its order can be told from the message, since those for clauses start
with other letters.

## Main statements

* `Catalog.column_of_sortable`: where fields of a flat table live.
* `FlatCorpus.query_refused_iff`: which queries are refused for the order.
* `order_refused_iff_renamed`: which fields can be ordered by.
-/

namespace CorpusQuery

namespace Catalog

/-! ## Fields in columns of other names -/

/-- Fields of a flat table with the columns of other names that they may live in. -/
def renamedFields : List (String × String) :=
  [("lemmac", "lemma"), ("nouncase", "case"), ("nnumber", "number")]

theorem column_of_flatFeature? {columns : List String} {e : String × List String} {f : Field}
    (he : e ∈ exportFeatures) (h : flatFeature? columns e.1 e.2 = some f) :
    f.column = f.name ∨ f.name ∉ columns ∧ (f.name, f.column) ∈ renamedFields := by
  have hall : ∀ e ∈ exportFeatures, e.2.head? = some e.1 ∧
      ∀ column ∈ e.2, column = e.1 ∨ (e.1, column) ∈ renamedFields := by decide
  obtain ⟨hfirst, hcandidates⟩ := hall e he
  obtain ⟨column, hcolumn, rfl⟩ := Option.map_eq_some_iff.mp h
  rcases hcandidates column (List.mem_of_find?_eq_some hcolumn) with hname | hrenamed
  · exact .inl hname
  · by_cases hhas : e.1 ∈ columns
    · -- The first candidate is there, so it is the one that is found.
      obtain ⟨rest, hrest⟩ := List.head?_eq_some_iff.mp hfirst
      rw [hrest, List.find?_cons_of_pos (List.contains_iff_mem.mpr hhas)] at hcolumn
      exact .inl (Option.some.inj hcolumn).symm
    · exact .inr ⟨hhas, hrenamed⟩

/-- **Where fields live.** A field that results can be ordered by lives in the column of its name if
there is one, and else it is one of three fields. -/
theorem column_of_sortable {columns : List String} : ∀ f ∈ (columnar columns).fields,
    f.isSortable = true →
      f.column = f.name ∨ f.name ∉ columns ∧ (f.name, f.column) ∈ renamedFields := by
  rw [columnar_eq]
  refine forall_withRelatives (fun f hf hsort ↦ ?_) fun f name relative _ _ _ _ hsort ↦ ?_
  · rcases mem_flatFields hf with ⟨name, -, -, rfl⟩ | h | ⟨-, h⟩ | ⟨-, rfl⟩ | ⟨name, -, -, rfl⟩ |
      ⟨e, he, h⟩
    · exact .inl rfl
    · rcases flatPlainLemma_cases columns with ⟨-, h'⟩ | ⟨hplain, -, h'⟩ | ⟨-, -, h'⟩ <;>
        rw [h'] at h
      · obtain rfl := List.mem_singleton.mp h
        exact .inl rfl
      · obtain rfl := List.mem_singleton.mp h
        exact .inr ⟨hplain, by decide⟩
      · cases h
    · have hall : ∀ f ∈ positionalFields none, f.isSortable = false := by decide
      rw [hall f h] at hsort
      cases hsort
    · cases hsort
    · exact .inl rfl
    · exact column_of_flatFeature? he h
  · -- Nothing is ordered by relative counts.
    rw [Field.isSortable, relativeOf, Option.isNone_some, Bool.and_false] at hsort
    cases hsort

theorem name_mem_iff_of_sortable {columns : List String} {f : Field}
    (hf : f ∈ (columnar columns).fields) (hsort : f.isSortable = true) :
    f.name ∈ columns ↔ f.column = f.name := by
  constructor
  · intro hname
    exact (column_of_sortable f hf hsort).resolve_right fun h ↦ h.1 hname
  · intro hcolumn
    exact hcolumn ▸ column_mem_of_mem_columnar f hf

end Catalog

/-! ## Messages -/

theorem Text.head?_append {s : String} {c : Char} (h : s.toList.head? = some c) (t : String) :
    (s ++ t).toList.head? = some c := by
  rw [String.toList_append, List.head?_append, h, Option.some_or]

namespace ClauseError

theorem exists_head?_message (e : ClauseError) :
    ∃ c ∈ ['Q', 'I'], e.message.toList.head? = some c := by
  have query : 'Q' ∈ ['Q', 'I'] := List.mem_cons_self
  have invalid : 'I' ∈ ['Q', 'I'] := List.mem_cons_of_mem _ List.mem_cons_self
  have ofThree {c : Char} {s : String} (h : s.toList.head? = some c) (t u : String) :
      (s ++ t ++ u).toList.head? = some c := Text.head?_append (Text.head?_append h t) u
  cases e with
  | unknownField field => exact ⟨'Q', query, ofThree rfl _ _⟩
  | illegalComparator field comparator => exact ⟨'Q', query, ofThree (ofThree rfl _ _) _ _⟩
  | notANumber field value => exact ⟨'Q', query, ofThree (ofThree rfl _ _) _ _⟩
  | emptySet field => exact ⟨'Q', query, ofThree rfl _ _⟩
  | invalidTop value => exact ⟨'Q', query, ofThree rfl _ _⟩
  | invalidPart part => exact ⟨'I', invalid, ofThree rfl _ _⟩

theorem exists_head?_messages {errors : List ClauseError} (h : errors ≠ []) :
    ∃ c ∈ ['Q', 'I'], (messages errors).toList.head? = some c := by
  obtain ⟨e, errors, rfl⟩ := List.exists_cons_of_ne_nil h
  obtain ⟨c, hc, hhead⟩ := e.exists_head?_message
  refine ⟨c, hc, ?_⟩
  rw [messages, String.toList_intercalate, List.map_cons, List.map_cons]
  cases errors with
  | nil => simpa using hhead
  | cons e' errors => simp [List.intercalate, hhead]

end ClauseError

namespace CompileError

theorem head?_unknownOrder (spelling : String) :
    (unknownOrder spelling).message.toList.head? = some 'C' :=
  Text.head?_append (Text.head?_append rfl _) _

theorem messages_ne_unknownOrder {errors : List ClauseError} (h : errors ≠ []) (spelling : String) :
    ClauseError.messages errors ≠ (unknownOrder spelling).message := by
  intro heq
  obtain ⟨c, hc, hhead⟩ := ClauseError.exists_head?_messages h
  rw [heq, head?_unknownOrder] at hhead
  obtain rfl := Option.some.inj hhead
  exact absurd hc (by decide)

theorem emptyQuery_ne_unknownOrder (spelling : String) :
    emptyQuery.message ≠ (unknownOrder spelling).message := by
  intro heq
  have hhead := head?_unknownOrder spelling
  rw [← heq] at hhead
  cases hhead

end CompileError

theorem Query.ne_nil_of_read_eq_error {catalog : Catalog} {totals : Totals} {input : String}
    {errors : List ClauseError} (h : read catalog totals input = .error errors) : errors ≠ [] := by
  rw [read] at h
  generalize readPartial catalog totals input = partially at h
  obtain ⟨q, errors'⟩ := partially
  cases errors' with
  | nil => cases h
  | cons e errors' =>
    obtain rfl := Except.error.inj h
    exact List.cons_ne_nil e errors'

namespace FlatCorpus

/-! ## Refused orders -/

variable {e : Export} {totals : Totals} {c : FlatCorpus} {settings : QuerySettings} {q : Query}
  {filter : RowFilter} {input : String}

theorem run_refused_iff {top : Option Nat} :
    c.run filter top settings = .rejected (CompileError.unknownOrder settings.orderBy).message ↔
      Catalog.resolve settings.orderBy ∉ c.source.columnNamesOf := by
  rw [run]
  dsimp only
  split
  · next h => simpa using h
  · next h =>
    refine iff_of_false ?_ (by simpa using h)
    split
    · rintro ⟨⟩
    · rintro ⟨⟩

theorem answer_refused_iff (hcatalog : c.catalog = .columnar c.source.columnNamesOf)
    (hread : Query.read c.catalog c.totals input = .ok q) : c.answer q settings
        = .rejected (CompileError.unknownOrder settings.orderBy).message ↔
      q.predicates ≠ [] ∧ Catalog.resolve settings.orderBy ∉ c.source.columnNamesOf := by
  rw [answer, RowFilter.compile, Query.isEmpty]
  by_cases hq : q.predicates = []
  · rw [hq]
    refine iff_of_false (fun h ↦ ?_) fun h ↦ h.1 rfl
    exact CompileError.emptyQuery_ne_unknownOrder _ (Outcome.rejected.inj h)
  · rw [hcatalog] at hread ⊢
    obtain ⟨filter, hfilter⟩ := RowFilter.exists_compileSteps_eq_ok (Catalog.closed_columnar _)
      fun p hp ↦ Query.admits_of_mem_read hread hp
    rw [List.isEmpty_eq_false_iff.mpr hq, if_neg Bool.false_ne_true, hfilter]
    exact run_refused_iff.trans (and_iff_right hq).symm

/-- **Refused orders.** A query is refused for its order if it can be read, has something to look
for, and is to be ordered by what is not the name of a column. -/
theorem query_refused_iff (hcatalog : c.catalog = .columnar c.source.columnNamesOf) :
    c.query input settings = .rejected (CompileError.unknownOrder settings.orderBy).message ↔
      (∃ q, Query.read c.catalog c.totals input = .ok q ∧ q.predicates ≠ []) ∧
        Catalog.resolve settings.orderBy ∉ c.source.columnNamesOf := by
  cases hread : Query.read c.catalog c.totals input with
  | ok q =>
    rw [query_of_read hread, answer_refused_iff hcatalog hread]
    simp
  | error errors =>
    rw [query, hread]
    refine iff_of_false (fun h ↦ ?_) (by simp)
    exact CompileError.messages_ne_unknownOrder (Query.ne_nil_of_read_eq_error hread) _
      (Outcome.rejected.inj h)

theorem catalog_of_open? {path : String} {format : DelimitedFormat} {content : Option (List UInt8)}
    (h : FlatCorpus.open? path format content = .ok c) :
    c.catalog = .columnar c.source.columnNamesOf := by
  obtain ⟨-, -, totals, -, -, -, hexport⟩ := exists_header_of_open? h
  exact (eq_of_ofExport hexport).2.2

end FlatCorpus

/-- **Ordering by a field.** Over an export, a query that is to be ordered by a textual or numeric
field or a feature, in whatever spelling, is refused for its order exactly if the field lives in a
column of another name, provided that it can be read and has something to look for. Only three
fields do, each in one column. A relational corpus takes the spelling whenever it has such a field
of that name. -/
theorem order_refused_iff_renamed {path : String} {format : DelimitedFormat}
    {content : Option (List UInt8)} {c : FlatCorpus} {f : Field}
    (hopen : FlatCorpus.open? path format content = .ok c) (hf : f ∈ c.catalog.fields)
    (hsort : f.isSortable = true) :
    (∀ input settings, Catalog.resolve settings.orderBy = f.name →
      (c.query input settings = .rejected (CompileError.unknownOrder settings.orderBy).message ↔
        (∃ q, Query.read c.catalog c.totals input = .ok q ∧ q.predicates ≠ []) ∧
          f.column ≠ f.name)) ∧
    (f.column ≠ f.name → (f.name, f.column) ∈ Catalog.renamedFields) ∧
    ∀ b : Backend, b.catalog = .relational b.schema →
      b.schema.hasTable Relation.facts.table = true →
      Catalog.resolve b.settings.orderBy = f.name →
      ∀ g, b.catalog.get? f.name = some g → g.isSortable = true →
        ∃ r, b.orderField = .ok (g, r) := by
  have hcatalog := FlatCorpus.catalog_of_open? hopen
  have hf' : f ∈ (Catalog.columnar c.source.columnNamesOf).fields := hcatalog ▸ hf
  refine ⟨fun input settings hname ↦ ?_, fun hcolumn ↦ ?_, ?_⟩
  · rw [FlatCorpus.query_refused_iff hcatalog, hname, Catalog.name_mem_iff_of_sortable hf' hsort]
  · exact ((Catalog.column_of_sortable f hf' hsort).resolve_left hcolumn).2
  · intro b hrelational hfacts hname g hg hsort'
    have hlookup : b.catalog.lookup? b.settings.orderBy = some g := by
      rw [Catalog.lookup?, hname, hg]
    exact Backend.orderField_of_sortField? (Backend.backed_of_catalog_eq hrelational hfacts)
      (Option.filter_eq_some_iff.mpr ⟨hlookup, hsort'⟩)

theorem exists_corpus_of_cases : ∃ c,
    FlatCorpus.open? "export.csv" {} (some (oneRowFile "case")) = .ok c ∧
      c.source.columnNamesOf = ["form", "case", "frequency"] ∧
      ∃ q, Query.read c.catalog c.totals "form = on" = .ok q ∧ q.predicates ≠ [] := by
  have hread (totals : Totals) : Query.read (.columnar (oneRowExport "case").columnNamesOf) totals
      "form = on" = .ok onQuery := rfl
  obtain ⟨c, hopen, -⟩ := @exists_answer_oneRow "case" rfl rfl hread rfl
  obtain ⟨bytes, header, totals, hbytes, hheader, hnames, -⟩ :=
    FlatCorpus.exists_header_of_open? hopen
  obtain rfl := Option.some.inj hbytes
  obtain rfl : ["form", "case", "frequency"] = header := Except.ok.inj hheader
  have hcolumns : ["form", "case", "frequency"].map Export.columnName
      = ["form", "case", "frequency"] := rfl
  have hsame : c.source.columnNamesOf = (oneRowExport "case").columnNamesOf := by
    rw [hnames]
    rfl
  refine ⟨c, hopen, hnames.trans hcolumns, onQuery, ?_, List.cons_ne_nil _ _⟩
  rw [FlatCorpus.catalog_of_open? hopen, hsame, hread]

/-- Counts can be ordered by under their short form. -/
theorem order_by_short_form : ∃ c,
    FlatCorpus.open? "export.csv" {} (some (oneRowFile "case")) = .ok c ∧
      c.query "form = on" { orderBy := "FREQ" } ≠ .rejected "Cannot order by 'FREQ'" := by
  obtain ⟨c, hopen, hcolumns, -⟩ := exists_corpus_of_cases
  have hf : Catalog.flatField .numeric "frequency" ∈ c.catalog.fields := by
    rw [FlatCorpus.catalog_of_open? hopen, hcolumns]
    exact Catalog.mem_of_get? (Catalog.get?_columnar_count (by decide) (by decide))
  have hrefused := (order_refused_iff_renamed hopen hf rfl).1 "form = on"
    { orderBy := "FREQ" } (by decide)
  exact ⟨c, hopen, fun h ↦ (hrefused.mp h).2 rfl⟩

/-- **A field without an order.** The feature that a column of cases holds can be asked for by its
name and by the short form, and results cannot be ordered by it. -/
theorem order_by_case_refused : ∃ c f,
    FlatCorpus.open? "export.csv" {} (some (oneRowFile "case")) = .ok c ∧
      f ∈ c.catalog.fields ∧ f.isSortable = true ∧ Catalog.resolve "case" = f.name ∧
      c.query "form = on" { orderBy := "case" } = .rejected "Cannot order by 'case'" := by
  obtain ⟨c, hopen, hcolumns, hread⟩ := exists_corpus_of_cases
  let f : Field := ⟨"nouncase", .feature .exact, none, "case", none, none, none⟩
  have hget : (Catalog.columnar ["form", "case", "frequency"]).get? "nouncase" = some f := rfl
  have hf := Catalog.mem_of_get? hget
  have hcatalog := FlatCorpus.catalog_of_open? hopen
  refine ⟨c, f, hopen, by rwa [hcatalog, hcolumns], rfl, by decide, ?_⟩
  have hresolve : Catalog.resolve "case" ∉ c.source.columnNamesOf := by
    rw [hcolumns]
    decide
  exact (FlatCorpus.query_refused_iff hcatalog).mpr ⟨hread, hresolve⟩

end CorpusQuery
