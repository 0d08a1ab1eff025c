import CorpusQuery.Sql.Select

/-!
# Values in statements are only bound

The text of a statement has a placeholder where a value is bound, so it cannot tell one value from
another. To say this of whole statements the values are masked: every one is replaced by a missing
value, which leaves the text and the number of arguments alone. Two statements that are equal once
masked therefore have the same text, and it remains to show that compiling commutes with masking.

The shape of an expression decides where parentheses go, so it has to survive. A mask that works on
expressions, and not only on their fragments, keeps it.
-/

namespace CorpusQuery.Sql

/-! ## Fragments -/

/-- The piece with its value forgotten. -/
def Piece.mask : Piece → Piece
  | .bound _ => .bound .null
  | .text s => .text s
  | .column c => .column c

namespace Fragment

/-- The fragment with its values forgotten. -/
def mask (f : Fragment) : Fragment := f.map Piece.mask

theorem sql_mask (f : Fragment) : sql (mask f) = sql f := by
  have hpiece : Piece.sql ∘ Piece.mask = Piece.sql := by
    funext p
    cases p <;> rfl
  rw [sql, mask, List.map_map, hpiece, ← sql]

theorem length_args_mask (f : Fragment) : (args (mask f)).length = (args f).length := by
  induction f with
  | nil => rfl
  | cons p f ih =>
    cases p with
    | text s => exact ih
    | column c => exact ih
    | bound v => exact congrArg (· + 1) ih

theorem mask_mask (f : Fragment) : mask (mask f) = mask f := by
  have hpiece : Piece.mask ∘ Piece.mask = Piece.mask := by
    funext p
    cases p <;> rfl
  rw [mask, mask, List.map_map, hpiece]

theorem mask_append (f g : Fragment) : mask (f ++ g) = mask f ++ mask g := List.map_append

theorem mask_text (s : String) : mask (text s) = text s := rfl

theorem mask_parens (f : Fragment) : mask (parens f) = parens (mask f) := by
  rw [parens, mask_append, mask_append, mask_text, mask_text, ← parens]

theorem mask_commas (fs : List Fragment) : mask (commas fs) = commas (fs.map mask) := by
  induction fs with
  | nil => rfl
  | cons f fs ih =>
    cases fs with
    | nil => rfl
    | cons g fs =>
      change mask (f ++ text ", " ++ commas (g :: fs)) = _
      rw [mask_append, mask_append, mask_text, ih]
      rfl

theorem sql_eq_of_mask_eq {f g : Fragment} (h : mask f = mask g) : sql f = sql g := by
  rw [← sql_mask, h, sql_mask]

theorem length_args_eq_of_mask_eq {f g : Fragment} (h : mask f = mask g) :
    (args f).length = (args g).length := by
  rw [← length_args_mask, h, length_args_mask]

end Fragment

/-! ## Expressions -/

namespace Expr

mutual

/-- The expression with its values forgotten. -/
def mask : Expr → Expr
  | .column qualifier name => .column qualifier name
  | .value _ => .value .null
  | .binary l op r => .binary l.mask op r.mask
  | .inList e items negated => .inList e.mask (maskAll items) negated
  | .call function args => .call function (maskAll args)
  | .not e => .not e.mask
  | .group e => .group e.mask

/-- The expressions with their values forgotten. -/
def maskAll : List Expr → List Expr
  | [] => []
  | e :: es => e.mask :: maskAll es

end

theorem maskAll_eq_map (es : List Expr) : maskAll es = es.map mask := by
  induction es with
  | nil => rfl
  | cons e es ih => rw [maskAll, ih, List.map_cons]

theorem underAnd_mask (op : BinaryOp) (e : Expr) (f : Fragment) :
    underAnd op e.mask (Fragment.mask f) = Fragment.mask (underAnd op e f) := by
  cases op with
  | and =>
    cases e with
    | binary l op r => cases op <;> first | rfl | exact (Fragment.mask_parens f).symm
    | column | value | inList | call | not | group => rfl
  | eq | ne | lt | gt | le | ge | or | like | notLike | glob => rfl

theorem underNot_mask (e : Expr) (f : Fragment) :
    underNot e.mask (Fragment.mask f) = Fragment.mask (underNot e f) := by
  cases e with
  | group e => rfl
  | column | value | binary | inList | call | not => exact (Fragment.mask_parens f).symm

mutual

/-- **Masking and writing.** The fragment of a masked expression is the masked fragment. -/
theorem fragment_mask : (e : Expr) → e.mask.fragment = Fragment.mask e.fragment
  | .column _ _ => rfl
  | .value _ => rfl
  | .binary l op r => by
    rw [mask, fragment, fragment, fragment_mask l, fragment_mask r, underAnd_mask, underAnd_mask,
      Fragment.mask_append, Fragment.mask_append]
    rfl
  | .inList e items negated => by
    rw [mask, fragment, fragment, fragment_mask e, fragments_maskAll items, Fragment.mask_append,
      Fragment.mask_append, Fragment.mask_append, Fragment.mask_commas]
    rfl
  | .call function args => by
    rw [mask, fragment, fragment, fragments_maskAll args, Fragment.mask_append,
      Fragment.mask_parens, Fragment.mask_commas]
    rfl
  | .not e => by
    rw [mask, fragment, fragment, fragment_mask e, underNot_mask, Fragment.mask_append]
    rfl
  | .group e => by
    rw [mask, fragment, fragment, fragment_mask e, Fragment.mask_parens]

theorem fragments_maskAll : (es : List Expr) →
    fragments (maskAll es) = (fragments es).map Fragment.mask
  | [] => rfl
  | e :: es => by
    rw [maskAll, fragments, fragments, fragment_mask e, fragments_maskAll es, List.map_cons]

end

theorem mask_negate (e : Expr) : e.negate.mask = e.mask.negate := by
  cases e with
  | binary l op r => cases op <;> rfl
  | column | value | inList | call | not | group => rfl

theorem mask_foldl (op : BinaryOp) (e : Expr) (es : List Expr) :
    (es.foldl (.binary · op ·) e).mask = (es.map mask).foldl (.binary · op ·) e.mask := by
  induction es generalizing e with
  | nil => rfl
  | cons next es ih => exact ih (.binary e op next)

theorem andAll?_map_mask (es : List Expr) : andAll? (es.map mask) = (andAll? es).map mask := by
  cases es with
  | nil => rfl
  | cons e es => exact congrArg some (mask_foldl .and e es).symm

theorem orAll?_map_mask (es : List Expr) : orAll? (es.map mask) = (orAll? es).map mask := by
  cases es with
  | nil => rfl
  | cons e es =>
    cases es with
    | nil => rfl
    | cons next es => exact congrArg (some ∘ group) (mask_foldl .or (.binary e .or next) es).symm

end Expr

/-! ## Select statements -/

namespace Select

/-- The statement with the values of its condition forgotten. -/
def mask (s : Select) : Select := { s with condition := s.condition.map Expr.mask }

theorem conditionFragment_mask (s : Select) :
    s.mask.conditionFragment = Fragment.mask s.conditionFragment := by
  rw [conditionFragment, conditionFragment, mask]
  cases s.condition with
  | none => rfl
  | some e => exact Expr.fragment_mask e

theorem mask_conditionPart (s : Select) :
    Fragment.mask s.mask.conditionPart = Fragment.mask s.conditionPart := by
  -- A part without a condition is left out, and masking leaves conditions where they are.
  have hnone : s.mask.condition.isNone = s.condition.isNone := by
    rw [mask]
    cases s.condition <;> rfl
  rw [conditionPart, conditionPart, hnone, conditionFragment_mask]
  split
  · rfl
  · rw [Fragment.mask_append, Fragment.mask_append, Fragment.mask_mask]

theorem mask_fragment (s : Select) : Fragment.mask s.mask.fragment = Fragment.mask s.fragment := by
  rw [fragment, fragment]
  simp only [Fragment.mask_append, mask_conditionPart]
  rfl

end Select

end CorpusQuery.Sql
