import CorpusQuery.Path
import CorpusQuery.QuerySettings
import CorpusQuery.Text.Blank
import CorpusQuery.Toml.Document

/-!
# Settings

The settings of a program that queries corpora say where the corpus is and how it is queried. They
are read from a TOML document with one section for each, and whatever the document leaves out has a
default. A section is a table without other keys, or an array of the first few settings in order.
-/

namespace CorpusQuery

/-- Where a corpus is found. -/
structure CorpusSettings where
  datadir : String := "."
  database : String := "wm2database.db"
  /-- The flat export of the corpus. -/
  flatFile : String := "wm2export.csv"
  delimiter : Char := ','
deriving DecidableEq, Repr

/-- All settings. -/
structure Settings where
  corpus : CorpusSettings := {}
  query : QuerySettings := {}
deriving DecidableEq, Repr

/-- Why settings cannot be used. -/
inductive SettingsError where
  /-- The file cannot be read. -/
  | unreadable
  /-- The document is not TOML, or has other keys or kinds of values. -/
  | malformed
  | noRows
  | noOrder
  | wideDelimiter (c : Char)
deriving DecidableEq, Repr

def SettingsError.message : SettingsError → String
  | unreadable => "Failed to read settings file"
  | malformed => "Failed to parse settings"
  | noRows => "Invalid setting 'row_limit': must be greater than zero"
  | noOrder => "Invalid setting 'order_by': must name a column"
  | wideDelimiter c =>
    "Invalid setting 'delimiter': '" ++ c.toString ++ "' is not a single-byte character"

namespace CorpusSettings

/-- The path of the database. -/
def databasePath (c : CorpusSettings) (home : String) : String :=
  Path.resolve home c.datadir c.database

/-- The path of the flat export. -/
def exportPath (c : CorpusSettings) (home : String) : String :=
  Path.resolve home c.datadir c.flatFile

end CorpusSettings

/-! ## Values of settings -/

namespace Toml

def toText? : Toml → Option String
  | text s => some s
  | _ => none

def toBool? : Toml → Option Bool
  | bool b => some b
  | _ => none

def toNat? : Toml → Option Nat
  | int n => if 0 ≤ n then some n.toNat else none
  | _ => none

/-- A text of one character. -/
def toChar? : Toml → Option Char
  | text s =>
    match s.toList with
    | [c] => some c
    | _ => none
  | _ => none

/-- Whether a value has no parts. -/
def isHollow : Toml → Bool
  | array _ [] | table _ [] => true
  | _ => false

/-- The name of a choice: a text, or the only key of a table, which has a hollow value. -/
def toChoice? : Toml → Option String
  | text s => some s
  | table _ [(name, v)] => if v.isHollow then some name else none
  | _ => none

end Toml

/-- The policy with a name. -/
def IndexPolicy.ofName? (name : String) : Option IndexPolicy :=
  [("auto", .auto), ("never", .never), ("always", .always)].lookup name

/-! ## Sections -/

/-- A setting of a section: its name, and how a value changes the section. -/
structure Setting (α : Type) where
  name : String
  put? : Toml → α → Option α

/-- Reads a section, starting from its defaults. -/
def readSection {α : Type} (known : List (Setting α)) (defaults : α) : Toml → Option α
  | .table _ entries =>
    entries.foldlM (fun a (name, v) ↦ do (← known.find? (·.name == name)).put? v a) defaults
  | .array _ items => (known.zip items).foldlM (fun a (setting, v) ↦ setting.put? v a) defaults
  | _ => none

/-- The settings of the section on the corpus, in order. -/
def CorpusSettings.known : List (Setting CorpusSettings) :=
  [⟨"datadir", fun v c ↦ v.toText?.map ({ c with datadir := · })⟩,
    ⟨"database", fun v c ↦ v.toText?.map ({ c with database := · })⟩,
    ⟨"export", fun v c ↦ v.toText?.map ({ c with flatFile := · })⟩,
    ⟨"delimiter", fun v c ↦ v.toChar?.map ({ c with delimiter := · })⟩]

/-- The settings of the section on queries, in order. -/
def QuerySettings.known : List (Setting QuerySettings) :=
  [⟨"row_limit", fun v q ↦ v.toNat?.map ({ q with rowLimit := · })⟩,
    ⟨"order_by", fun v q ↦ v.toText?.map ({ q with orderBy := · })⟩,
    ⟨"ascending", fun v q ↦ v.toBool?.map ({ q with ascending := · })⟩,
    ⟨"grams", fun v q ↦ v.toBool?.map ({ q with grams := · })⟩,
    ⟨"lemmas", fun v q ↦ v.toBool?.map ({ q with lemmas := · })⟩,
    ⟨"posx", fun v q ↦ v.toBool?.map ({ q with posx := · })⟩,
    ⟨"relative", fun v q ↦ v.toBool?.map ({ q with relative := · })⟩,
    ⟨"index_hint", fun v q ↦
      (v.toChoice?.bind IndexPolicy.ofName?).map ({ q with indexPolicy := · })⟩]

namespace Settings

/-- The sections. -/
def sections : List (Setting Settings) :=
  [⟨"corpus", fun v s ↦ (readSection CorpusSettings.known {} v).map ({ s with corpus := · })⟩,
    ⟨"query", fun v s ↦ (readSection QuerySettings.known {} v).map ({ s with query := · })⟩]

/-! ## Documents -/

/-- The first reason why settings cannot be used, if there is one. -/
def fault? (s : Settings) : Option SettingsError :=
  if s.query.rowLimit = 0 then some .noRows
  else if (Text.trimChars s.query.orderBy.toList).isEmpty then some .noOrder
  else if 128 ≤ s.corpus.delimiter.toNat then some (.wideDelimiter s.corpus.delimiter)
  else none

/-- Settings that can be used. -/
def validate (s : Settings) : Except SettingsError Settings :=
  match s.fault? with
  | some e => .error e
  | none => .ok s

/-- Reads the settings in a document. -/
def read (text : String) : Except SettingsError Settings :=
  match (Toml.read? text).bind fun entries ↦ readSection sections {} (.table .header entries) with
  | some s => s.validate
  | none => .error .malformed

/-- Reads the settings in a file; `content` is missing when it cannot be read. -/
def load (content : Option String) : Except SettingsError Settings :=
  match content with
  | some text => read text
  | none => .error .unreadable

/-! ## Lemmas -/

theorem validate_eq_ok_iff {s t : Settings} : s.validate = .ok t ↔ s = t ∧ s.fault? = none := by
  unfold validate
  split <;> simp_all

theorem rowLimit_pos_of_fault? {s : Settings} (h : s.fault? = none) : 0 < s.query.rowLimit := by
  refine Nat.pos_of_ne_zero fun hn ↦ ?_
  simp [fault?, hn] at h

end Settings

end CorpusQuery
