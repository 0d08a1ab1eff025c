import CorpusQuery.Text.Case

/-!
# Relational schemas

What is known of a database before it is queried: which tables there are, the columns of each in the
order of declaration, and the names of the indexes. Table names are exact, while the case of ASCII
letters in column names does not matter.
-/

namespace CorpusQuery

/-- Tables with their columns, and index names. -/
structure Schema where
  tables : List (String × List String) := []
  indexes : List String := []

namespace Schema

/-- The columns of a table; an unknown table has none. -/
def columns (s : Schema) (table : String) : List String := (s.tables.lookup table).getD []

def hasTable (s : Schema) (table : String) : Bool := (s.tables.lookup table).isSome

def hasColumn (s : Schema) (table column : String) : Bool :=
  (s.columns table).any (Text.sameIgnoringCase column)

def hasIndex (s : Schema) (name : String) : Bool := s.indexes.contains name

end Schema

end CorpusQuery
