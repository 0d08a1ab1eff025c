import CorpusQuery.Catalog.Relational
import CorpusQuery.Catalog.Columnar
import CorpusQuery.Query.Reading
import CorpusQuery.Lexer
import CorpusQuery.RowFilter
import CorpusQuery.Table.Finish
import CorpusQuery.Statement
import CorpusQuery.Delimited
import CorpusQuery.Export
import CorpusQuery.Export.Totals
import CorpusQuery.FlatCorpus
import CorpusQuery.Path
import CorpusQuery.Settings
import CorpusQuery.Number.Embedded
import CorpusQuery.Number.Significant
import CorpusQuery.Sql.Affinity
import CorpusQuery.Sql.Pattern
import CorpusQuery.Database
import CorpusQuery.Database.Error
import CorpusQuery.Database.Selection
import CorpusQuery.Corpus
import CorpusQuery.Delimited.Writing
import CorpusQuery.Sample.Flat
import CorpusQuery.Sample.Relational
import CorpusQuery.Table.Identity
import CorpusQuery.Proofs.Lists
import CorpusQuery.Proofs.Traversals
import CorpusQuery.Proofs.Catalog.Closure
import CorpusQuery.Proofs.Query.Admission
import CorpusQuery.Proofs.Query.Compiling
import CorpusQuery.Proofs.Query.Composition
import CorpusQuery.Proofs.RowExpr.Connectives
import CorpusQuery.Proofs.Sql.Connectives
import CorpusQuery.Proofs.Sql.GlobPattern
import CorpusQuery.Proofs.Sql.LetterCase
import CorpusQuery.Proofs.Sql.StoredCell
import CorpusQuery.Proofs.Catalog.Twins
import CorpusQuery.Proofs.Query.Agreement
import CorpusQuery.Proofs.Sql.Masking
import CorpusQuery.Proofs.Statement.SameText
import CorpusQuery.Proofs.Selection.Combinations
import CorpusQuery.Proofs.Selection.Distinct
import CorpusQuery.Proofs.Selection.Layout
import CorpusQuery.Proofs.Sql.Columns
import CorpusQuery.Proofs.Statement.Aliases
import CorpusQuery.Proofs.Selection.Joined
import CorpusQuery.Proofs.Selection.Fanout
import CorpusQuery.Proofs.Query.Filtering
import CorpusQuery.Proofs.Catalog.Layout
import CorpusQuery.Proofs.Statement.Scoping
import CorpusQuery.Proofs.Statement.DeliveredNames
import CorpusQuery.Proofs.Sql.Tokens
import CorpusQuery.Proofs.Sql.Precedence
import CorpusQuery.Proofs.Sql.Canonical
import CorpusQuery.Proofs.Sql.Regrouping
import CorpusQuery.Proofs.Sql.Placeholders
import CorpusQuery.Proofs.Statement.ReadBack
import CorpusQuery.Proofs.Statement.Arguments
import CorpusQuery.Proofs.Statement.Respelling
import CorpusQuery.Proofs.Table.Finishing
import CorpusQuery.Proofs.Query.WordLists
import CorpusQuery.Proofs.Number.Exact
import CorpusQuery.Proofs.Number.Bits
import CorpusQuery.Proofs.Table.Distinct
import CorpusQuery.Proofs.Query.MergedForms
import CorpusQuery.Proofs.Table.Top
import CorpusQuery.Proofs.Query.FlatScan
import CorpusQuery.Proofs.Table.ConsistentOrder
import CorpusQuery.Proofs.Query.TopRows
import CorpusQuery.Proofs.Query.RawCells
import CorpusQuery.Proofs.Number.Whole
import CorpusQuery.Proofs.Sql.StoredNumber
import CorpusQuery.Proofs.Table.Identity
import CorpusQuery.Proofs.Sql.LikePattern
import CorpusQuery.Proofs.Query.SameRows
import CorpusQuery.Proofs.Table.Ranking
import CorpusQuery.Proofs.Query.ShownWords
import CorpusQuery.Proofs.Query.SameOrder
import CorpusQuery.Proofs.Clause.Matching
import CorpusQuery.Proofs.Clause.Recovery
import CorpusQuery.Proofs.Clause.Words
import CorpusQuery.Proofs.RowExpr.Knownness
import CorpusQuery.Proofs.Query.Partition
import CorpusQuery.Proofs.Query.Negation
import CorpusQuery.Proofs.Query.ClauseOrder
import CorpusQuery.Proofs.Table.Processing
import CorpusQuery.Proofs.Query.HeaderNames
import CorpusQuery.Proofs.Query.Pushdown
import CorpusQuery.Proofs.Query.JoinedValues
import CorpusQuery.Proofs.Query.OneClause
import CorpusQuery.Proofs.Query.SingletonSets
import CorpusQuery.Proofs.Query.Spellings
import CorpusQuery.Proofs.Query.OwnNames
import CorpusQuery.Proofs.Query.OrderColumns
import CorpusQuery.Proofs.Sql.Names
import CorpusQuery.Proofs.RowExpr.Formulas
import CorpusQuery.Proofs.Statement.IndexHints
import CorpusQuery.Proofs.Statement.LiteralTexts
import CorpusQuery.Proofs.Table.Anchoring
import CorpusQuery.Proofs.Table.Relatives
import CorpusQuery.Proofs.Table.LastRows
import CorpusQuery.Proofs.Table.BestRows
import CorpusQuery.Proofs.Table.Sorting
import CorpusQuery.Proofs.Export.ColumnKinds
import CorpusQuery.Proofs.Export.CountedTotals
import CorpusQuery.Proofs.Statement.RowLimits
import CorpusQuery.Proofs.RowExpr.Reads
import CorpusQuery.Proofs.RowExpr.WildcardRange
import CorpusQuery.Proofs.Database.Messages
