import CorpusQuery.Comparator
import CorpusQuery.Relation
import CorpusQuery.Totals

/-!
# Fields

A field is a name that clauses can ask about. Its kind fixes the comparators it takes and how its
values are read; its backing says where it lives.
-/

namespace CorpusQuery

/-- The places in a word form that positional fields ask about. -/
inductive Position where
  | front
  | middle
  | back
deriving DecidableEq, Repr

/-- How a feature value meets a column: a column holds one value, or several joined by commas. -/
inductive FeatureMatch where
  | exact
  | anyOf
deriving DecidableEq, Repr

/-- The kinds of fields. -/
inductive FieldKind where
  | numeric
  | text
  | positional (position : Position)
  | feature (matching : FeatureMatch)
  | boolean
deriving DecidableEq, Repr

/-- The operator that a positional field stands for. -/
def Position.operator : Position → Operator
  | .front => .startsWith
  | .middle => .middle
  | .back => .endsWith

namespace FieldKind

/-- The comparators a field of this kind takes. -/
def comparators : FieldKind → List Comparator
  | .numeric => [.equal, .notEqual, .less, .greater, .atMost, .atLeast]
  | .positional _ => [.equal, .notEqual, .isIn, .notIn]
  | .text | .feature _ => [.equal, .notEqual, .like, .notLike, .isIn, .notIn]
  | .boolean => []

def isFeature : FieldKind → Bool
  | .feature _ => true
  | _ => false

/-- Whether results can be ordered by a field of this kind. -/
def isSortable : FieldKind → Bool
  | .numeric | .text | .feature _ => true
  | .positional _ | .boolean => false

end FieldKind

/-- What a field of relative counts rescales: an absolute field, by a total. -/
structure Relative where
  field : String
  total : TotalKind
deriving DecidableEq, Repr

/-- A field of a corpus. -/
structure Field where
  name : String
  kind : FieldKind
  /-- The table it lives in; fields of flat tables have none. -/
  relation : Option Relation
  /-- The column it lives in. -/
  column : String
  /-- A character that is left out of the column before comparing. -/
  strip : Option Char := none
  /-- The satellite with its single values. -/
  satellite : Option Relation := none
  relative : Option Relative := none
deriving DecidableEq, Repr

namespace Field

/-- Whether a clause may compare the field with this comparator. -/
def allows (f : Field) (c : Comparator) : Bool := f.kind.comparators.contains c

/-- Whether results can be ordered by the field. Relative counts order like the absolute ones and
are left to them. -/
def isSortable (f : Field) : Bool := f.kind.isSortable && f.relative.isNone

end Field

end CorpusQuery
