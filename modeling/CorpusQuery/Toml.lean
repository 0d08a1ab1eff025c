/-!
# TOML values

A document is a tree of tables. While it is read, a table remembers how it came to be, because that
decides who may still add to it: a table written in braces is complete, one that only stands on the
way to a header may get a header of its own, and one made by a dotted key grows by dotted keys only.
-/

namespace CorpusQuery

/-- How a table came to be. -/
inductive TableOrigin where
  /-- Written in braces. -/
  | braces
  /-- Opened by a header. -/
  | header
  /-- Stands on the way to the table of a header. -/
  | implied
  /-- Stands on the way to the value of a dotted key. -/
  | dotted
deriving DecidableEq, Repr

/-- A value of a document. -/
inductive Toml where
  | text (s : String)
  | int (n : Int)
  | real (x : Float)
  | bool (b : Bool)
  /-- A date, a time or both. -/
  | moment
  /-- An array; one that grows by headers is a sequence of tables. -/
  | array (grows : Bool) (items : List Toml)
  | table (origin : TableOrigin) (entries : List (String × Toml))

namespace Toml

/-! ## Tables as they are read -/

/-- The keys and values of a table, in the order of their first mention. -/
abbrev Entries := List (String × Toml)

/-- The entries with the value of a key changed or added. -/
def put (key : String) (v : Toml) : Entries → Entries
  | [] => [(key, v)]
  | (k, w) :: es => if k == key then (k, v) :: es else (k, w) :: put key v es

/-- A table on the way to somewhere else: how it came to be, its entries, and what they are put
back into. -/
structure Passage where
  origin : TableOrigin
  entries : Entries
  close : Entries → Toml

/-- The array with its last table changed. -/
def closeLast (items : List Toml) (origin : TableOrigin) (entries : Entries) : Toml :=
  .array true (items.dropLast ++ [.table origin entries])

/-- The way through the value of a key. A missing table is made; dotted keys cannot pass through a
table that has a header. -/
def pass? (dotted : Bool) : Option Toml → Option Passage
  | none =>
    let origin : TableOrigin := if dotted then .dotted else .implied
    some ⟨origin, [], .table origin⟩
  | some (.table .braces _) => none
  | some (.table .header entries) =>
    if dotted then none else some ⟨.header, entries, .table .header⟩
  | some (.table origin entries) => some ⟨origin, entries, .table origin⟩
  | some (.array true items) =>
    match items.getLast? with
    | some (.table origin entries) => some ⟨origin, entries, closeLast items origin⟩
    | _ => none
  | some _ => none

/-- Changes the table at the end of a path. -/
def editAt (dotted : Bool) (f : TableOrigin → Entries → Option Entries) :
    List String → TableOrigin → Entries → Option Entries
  | [], origin, entries => f origin entries
  | key :: path, _, entries => do
    let way ← pass? dotted (entries.lookup key)
    let inner ← editAt dotted f path way.origin way.entries
    return put key (way.close inner) entries

/-- Adds the value of a key that is dotted behind a path. A key has one value, and dotted keys add
only to tables that dotted keys have made. -/
def assign (path : List String) (key : String) (v : Toml) (origin : TableOrigin)
    (entries : Entries) : Option Entries :=
  editAt true (fun origin entries ↦
    if (origin == .dotted) == path.isEmpty || (entries.lookup key).isSome then none
    else some (entries ++ [(key, v)])) path origin entries

/-- Opens the table of a header, which may have been implied before. -/
def openTable (key : String) (entries : Entries) : Option Entries :=
  match entries.lookup key with
  | none => some (entries ++ [(key, .table .header [])])
  | some (.table .implied inner) => some (put key (.table .header inner) entries)
  | some _ => none

/-- Opens one more table of an array. -/
def openItem (key : String) (entries : Entries) : Option Entries :=
  match entries.lookup key with
  | none => some (entries ++ [(key, .array true [.table .header []])])
  | some (.array true items) =>
    some (put key (.array true (items ++ [.table .header []])) entries)
  | some _ => none

/-! ## Lemmas -/

@[simp] theorem lookup_put (key key' : String) (v : Toml) (entries : Entries) :
    (put key v entries).lookup key' = if key' == key then some v else entries.lookup key' := by
  induction entries with
  | nil => simp only [put, List.lookup_cons, List.lookup_nil]; split <;> simp_all
  | cons e es ih =>
    obtain ⟨k, w⟩ := e
    rw [put]
    by_cases hk : k = key
    · subst hk
      simp only [beq_self_eq_true, if_true, List.lookup_cons]
      split <;> simp_all
    · have : (k == key) = false := by simpa using hk
      simp only [this, Bool.false_eq_true, if_false, List.lookup_cons, ih]
      by_cases hk' : key' = k
      · subst hk'; simp [hk]
      · have : (key' == k) = false := by simpa using hk'
        simp [this]

end Toml

end CorpusQuery
