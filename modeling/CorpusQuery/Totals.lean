/-!
# Corpus totals

A corpus has five token totals. Each relates an absolute count to a count per million tokens, except
that word bigrams are counted per thousand.
-/

namespace CorpusQuery

/-- The counts a corpus keeps a total of. -/
inductive TotalKind where
  | frequency
  | lemmaFrequency
  | initGram
  | finGram
  | bigram
deriving DecidableEq, Repr

namespace TotalKind

/-- All kinds, in the order in which totals are gathered. -/
def all : List TotalKind := [.frequency, .lemmaFrequency, .initGram, .finGram, .bigram]

/-- The name under which the total is stored. -/
def key : TotalKind → String
  | .frequency => "frequency"
  | .lemmaFrequency => "lemmafreq"
  | .initGram => "initgramfreq"
  | .finGram => "fingramfreq"
  | .bigram => "bigramfreq"

/-- The kind stored under a name. -/
def ofKey? (key : String) : Option TotalKind := all.find? (·.key == key)

/-- The number of tokens that a relative count refers to. -/
def scale : TotalKind → Float
  | .bigram => 1000.0
  | _ => 1000000.0

end TotalKind

/-- The totals of a corpus. -/
structure Totals where
  frequency : Float := 0.0
  lemmaFrequency : Float := 0.0
  initGram : Float := 0.0
  finGram : Float := 0.0
  bigram : Float := 0.0

namespace Totals

/-- The total of one kind. -/
def get (t : Totals) : TotalKind → Float
  | .frequency => t.frequency
  | .lemmaFrequency => t.lemmaFrequency
  | .initGram => t.initGram
  | .finGram => t.finGram
  | .bigram => t.bigram

/-- The totals with one kind changed. -/
def set (t : Totals) (kind : TotalKind) (x : Float) : Totals :=
  match kind with
  | .frequency => { t with frequency := x }
  | .lemmaFrequency => { t with lemmaFrequency := x }
  | .initGram => { t with initGram := x }
  | .finGram => { t with finGram := x }
  | .bigram => { t with bigram := x }

/-- The absolute count that a relative one stands for. -/
def toAbsolute (t : Totals) (kind : TotalKind) (relative : Float) : Float :=
  relative / kind.scale * t.get kind

/-- The relative count of an absolute one; an empty corpus has none but zero. -/
def toRelative (t : Totals) (kind : TotalKind) (absolute : Float) : Float :=
  if t.get kind == 0.0 then 0.0 else absolute / t.get kind * kind.scale

@[simp] theorem get_set_self (t : Totals) (kind : TotalKind) (x : Float) :
    (t.set kind x).get kind = x := by
  cases kind <;> rfl

theorem get_set_of_ne (t : Totals) {kind other : TotalKind} (x : Float) (h : other ≠ kind) :
    (t.set kind x).get other = t.get other := by
  cases kind <;> cases other <;> first | rfl | exact absurd rfl h

end Totals

end CorpusQuery
