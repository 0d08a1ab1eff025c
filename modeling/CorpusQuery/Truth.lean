/-!
# Three-valued truth

A test on a missing value is neither true nor false. Unknown truth is propagated by the strong
Kleene tables: an operand that decides the result alone does so whatever the other one is. A row is
kept only when its test is true, so an unknown test drops it just as a false one does.
-/

namespace CorpusQuery

/-- True, false or unknown. -/
abbrev Truth := Option Bool

namespace Truth

/-- False as soon as one side is, true only when both are. -/
def and : Truth → Truth → Truth
  | some false, _ | _, some false => some false
  | some true, some true => some true
  | _, _ => none

/-- True as soon as one side is, false only when both are. -/
def or : Truth → Truth → Truth
  | some true, _ | _, some true => some true
  | some false, some false => some false
  | _, _ => none

/-- Unknown stays unknown. -/
def not : Truth → Truth
  | some b => some !b
  | none => none

/-- Whether the test keeps a row. -/
def holds (t : Truth) : Bool := t == some true

/-- The conjunction of all. -/
def all (ts : List Truth) : Truth := ts.foldr and (some true)

@[simp] theorem not_not (t : Truth) : not (not t) = t := by
  rcases t with _ | _ | _ <;> rfl

theorem and_assoc (r s t : Truth) : and (and r s) t = and r (and s t) := by
  rcases r with _ | _ | _ <;> rcases s with _ | _ | _ <;> rcases t with _ | _ | _ <;> rfl

theorem or_assoc (r s t : Truth) : or (or r s) t = or r (or s t) := by
  rcases r with _ | _ | _ <;> rcases s with _ | _ | _ <;> rcases t with _ | _ | _ <;> rfl

theorem holds_and (s t : Truth) : holds (and s t) = (holds s && holds t) := by
  rcases s with _ | _ | _ <;> rcases t with _ | _ | _ <;> rfl

end Truth

end CorpusQuery
