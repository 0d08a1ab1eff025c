import CorpusQuery.Database.Selection
import CorpusQuery.Proofs.Statement.Plans
import CorpusQuery.Settings

/-!
# How many rows a statement asks for

Settings limit the rows of an answer. A statement asks for as many rows, or for twice as many if
rows are merged afterwards, and doubling stops at the greatest number of 64 bits. A database has one
bit less for a limit, since its whole numbers have a sign, and refuses a statement that needs it.

Settings are only checked for a limit of zero. So the limits of accepted settings are never too
small, and whether they are too large for a database depends on whether rows are merged.

## Main statements

* `Backend.fetchLimit_le_iff`: under which settings a database can read the limit.
* `Database.exists_select_eq_error`: what happens to a statement with a larger one.
* `Backend.limit_fits_iff`: limits of accepted settings.
* `Backend.all_rows_refused`: accepted settings under which no statement can be run.
-/

namespace CorpusQuery

/-! ## Limits in the text of a statement -/

theorem Sql.Select.exists_sql_eq {s : Sql.Select} {n : Nat} (h : s.limit = some n) :
    ∃ body, s.fragment.sql = body ++ " LIMIT " ++ toString n := by
  refine ⟨(s.head ++ s.itemsFragment ++ s.fromPart ++ s.conditionPart ++ s.orderPart).sql, ?_⟩
  have hpart : s.limitPart.sql = " LIMIT " ++ toString n := by
    rw [limitPart, h]
    simp [whenSome, Fragment.text, Fragment.sql, Piece.sql]
  rw [fragment, Fragment.sql_append, hpart, String.append_assoc]

namespace Database

variable {s : Sql.Select} {n : Nat}

theorem maxLimit_eq : maxLimit = 9223372036854775807 := rfl

theorem limitFault?_eq_none_iff (h : s.limit = some n) : limitFault? s = none ↔ n ≤ maxLimit := by
  rw [limitFault?, h]
  simp

theorem exists_select_eq_error (h : s.limit = some n) (hlarge : maxLimit < n) (db : Database) :
    ∃ e, db.select s = .error e := by
  have hlimit : (limitFault? s).isSome = true := by
    rw [Option.isSome_iff_ne_none, ne_eq, limitFault?_eq_none_iff h]
    exact Nat.not_le_of_lt hlarge
  obtain ⟨e, he⟩ : ∃ e, db.fault? s = some e := by
    refine Option.isSome_iff_exists.mp ?_
    simp [fault?, hlimit]
  exact ⟨e, by rw [select, he]⟩

theorem limit_le_of_fault?_eq_none {db : Database} (h : s.limit = some n)
    (hfault : db.fault? s = none) : n ≤ maxLimit := by
  refine Nat.le_of_not_lt fun hlarge ↦ ?_
  obtain ⟨e, he⟩ := exists_select_eq_error h hlarge db
  rw [select, hfault] at he
  cases he

end Database

/-! ## Limits of settings -/

namespace Backend

variable {b : Backend} {st : Statement}

/-- A statement for a query or for word forms. -/
def Compiles (b : Backend) (st : Statement) : Prop :=
  (∃ q, b.compile q = .ok st) ∨ ∃ words, b.compileWords words = .ok st

theorem Compiles.exists_assemble (h : b.Compiles st) : ∃ a, b.assemble a = .ok st := by
  rcases h with ⟨q, h⟩ | ⟨words, h⟩
  · obtain ⟨-, plans, h⟩ := exists_assemble_of_compile h
    exact ⟨_, h⟩
  · rw [compileWords] at h
    split at h
    · cases h
    · exact ⟨_, h⟩

theorem Compiles.limit_eq (h : b.Compiles st) :
    st.select.limit = some st.limit ∧ st.limit = b.fetchLimit ∧ st.posx = b.posx := by
  obtain ⟨a, ha⟩ := h.exists_assemble
  obtain ⟨hselect, hposx⟩ := limit_of_assemble ha
  have hlimit : st.limit = b.fetchLimit := by
    obtain ⟨⟨f, r⟩, -, ha⟩ := exists_of_bind_eq_ok ha
    obtain rfl := Except.ok.inj ha
    rfl
  exact ⟨hlimit ▸ hselect, hlimit, hposx⟩

theorem fetchLimit_eq (b : Backend) :
    b.fetchLimit = if b.posx then min (2 * b.settings.rowLimit) 18446744073709551615
      else b.settings.rowLimit := rfl

theorem le_fetchLimit (b : Backend) :
    min b.settings.rowLimit Database.maxLimit ≤ b.fetchLimit := by
  rw [fetchLimit_eq, Database.maxLimit_eq]
  split <;> omega

/-- **Which limits a database can read.** -/
theorem fetchLimit_le_iff (b : Backend) :
    b.fetchLimit ≤ Database.maxLimit ↔
      b.settings.rowLimit ≤ if b.posx then Database.maxLimit / 2 else Database.maxLimit := by
  rw [fetchLimit_eq, Database.maxLimit_eq]
  split <;> omega

/-- **Limits of accepted settings.** Every statement ends in its limit, which is at least as large
as the settings ask for, as far as a database can read such a number. It is not always one that a
database can read: that depends on whether rows are merged, and no database runs the statement if it
is not. -/
theorem limit_fits_iff {settings : Settings} (hvalid : settings.validate = .ok settings)
    (hsettings : b.settings = settings.query) (hst : b.Compiles st) :
    (∃ body, st.sql = body ++ " LIMIT " ++ toString st.limit) ∧
      1 ≤ st.limit ∧ min settings.query.rowLimit Database.maxLimit ≤ st.limit ∧
      (st.limit ≤ Database.maxLimit ↔ settings.query.rowLimit
        ≤ if st.posx then Database.maxLimit / 2 else Database.maxLimit) ∧
      (st.limit ≤ Database.maxLimit ↔ Database.limitFault? st.select = none) ∧
      (Database.maxLimit < st.limit → ∀ db : Database, ∃ e, db.select st.select = .error e) := by
  obtain ⟨hselect, hlimit, hposx⟩ := hst.limit_eq
  have hpositive : 0 < settings.query.rowLimit :=
    Settings.rowLimit_pos_of_fault? (Settings.validate_eq_ok_iff.mp hvalid).2
  have hle := b.le_fetchLimit
  rw [hsettings] at hle
  refine ⟨Sql.Select.exists_sql_eq hselect, ?_, hlimit ▸ hle, ?_,
    (Database.limitFault?_eq_none_iff hselect).symm, Database.exists_select_eq_error hselect⟩
  · rw [Database.maxLimit_eq] at hle
    omega
  · rw [hlimit, hposx, ← hsettings]
    exact b.fetchLimit_le_iff

/-- What makes statements for a corpus whose rows are merged. -/
def merging (settings : QuerySettings) : Backend :=
  let schema : Schema :=
    { tables := [("wordfreqs", ["form", "pos", "posx", "frequency", "frequencyx"])] }
  { catalog := .relational schema, schema, settings }

/-- A query for one form. -/
def oneForm : Query where
  predicates := [⟨"form", .equal, .text "on", false⟩]

/-- The statement for that query. -/
def oneFormStatement (limit : Nat) : Statement where
  select := {
    items := [{ expr := .of "w" "form" }, { expr := .of "w" "posx", aliasName := some "pos" },
      { expr := .of "w" "frequencyx", aliasName := some "frequency" }]
    sources := [{ table := { table := "wordfreqs" }, aliasName := some "w" }]
    condition := some (.binary (.of "w" "form") .eq (.value (.text "on")))
    order := [{ expr := .of "w" "frequencyx", direction := some .descending }]
    limit := some limit }
  indexHint := none
  limit := limit
  posx := true

/-- The default limit is doubled and can be read. -/
theorem limit_fits_iff_defaults :
    ({} : Settings).validate = .ok {} ∧
      (merging {}).compile oneForm = .ok (oneFormStatement 20000) ∧
      Database.limitFault? (oneFormStatement 20000).select = none ∧
      min 10000 Database.maxLimit ≤ 20000 := by
  have hvalid : ({} : Settings).validate = .ok {} := rfl
  have hcompile : (merging {}).compile oneForm = .ok (oneFormStatement 20000) := rfl
  obtain ⟨-, -, hle, hbound, hfault, -⟩ := limit_fits_iff hvalid rfl (.inl ⟨oneForm, hcompile⟩)
  exact ⟨hvalid, hcompile, hfault.mp (hbound.mpr (by decide)), hle⟩

/-- As many rows as a document can ask for. -/
def allRows : Settings where
  query := { rowLimit := 9223372036854775807 }

/-- **Limits of 64 bits.** A document with a limit that a database could read, and a statement with
one that none can. -/
theorem all_rows_refused :
    Settings.read "[query]\nrow_limit = 9223372036854775807\n" = .ok allRows ∧
      allRows.validate = .ok allRows ∧ allRows.query.rowLimit = Database.maxLimit ∧
      ∃ st, (merging allRows.query).compile oneForm = .ok st ∧
        st.sql = "SELECT w.form, w.posx AS pos, w.frequencyx AS frequency FROM wordfreqs w " ++
          "WHERE w.form = ? ORDER BY w.frequencyx DESC LIMIT 18446744073709551614" ∧
        ¬st.limit ≤ Database.maxLimit ∧ ∀ db : Database, ∃ e, db.select st.select = .error e :=
  ⟨rfl, rfl, rfl, oneFormStatement 18446744073709551614, rfl, rfl, by decide,
    Database.exists_select_eq_error rfl (by decide)⟩

end Backend

end CorpusQuery
