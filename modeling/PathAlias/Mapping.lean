import PathAlias.Path.Route
import PathAlias.Pattern

/-!
# Path tables and compiled entries

A path table lists patterns with the targets to try for them, in the order of declaration, each
pattern once. Compiling it resolves the targets against a base directory and orders the patterns
from the most specific to the least: the longer the literal text before the wildcard, the earlier,
and among equals the one declared first.
-/

namespace PathAlias

/-- Patterns with their targets in the order of declaration. -/
structure PathTable where
  /-- Each pattern with its targets, first declared first. -/
  rows : List (Text × List Text) := []
  nodup : (rows.map Prod.fst).Nodup := by simp

namespace PathTable

instance : Inhabited PathTable := ⟨{}⟩

def patterns (table : PathTable) : List Text := table.rows.map Prod.fst

/-- The rows with the targets of `pattern` replaced. -/
def replaceTargets (pattern : Text) (targets : List Text) (rows : List (Text × List Text)) :
    List (Text × List Text) :=
  rows.map fun row => if row.1 = pattern then (row.1, targets) else row

theorem map_fst_replaceTargets (pattern : Text) (targets : List Text)
    (rows : List (Text × List Text)) :
    (replaceTargets pattern targets rows).map Prod.fst = rows.map Prod.fst := by
  rw [replaceTargets, List.map_map]
  apply List.map_congr_left
  intro row _
  simp only [Function.comp]
  split <;> rfl

/-- Declares the targets of a pattern. A pattern that is there already keeps its place. -/
def insert (table : PathTable) (pattern : Text) (targets : List Text) : PathTable :=
  if h : pattern ∈ table.rows.map Prod.fst then
    { rows := replaceTargets pattern targets table.rows
      nodup := by rw [map_fst_replaceTargets]; exact table.nodup }
  else
    { rows := table.rows ++ [(pattern, targets)]
      nodup := by
        rw [List.map_append, List.nodup_append]
        refine ⟨table.nodup, by simp, ?_⟩
        intro a ha b hb
        simp only [List.map_cons, List.map_nil, List.mem_singleton] at hb
        subst hb
        exact fun hab => h (hab ▸ ha) }

/-- The table of these declarations, made one after the other. -/
def ofList (declarations : List (Text × List Text)) : PathTable :=
  declarations.foldl (fun table row => table.insert row.1 row.2) {}

end PathTable

/-- A pattern with the absolute templates to try for it, in order. -/
structure Entry where
  pattern : Text
  /-- Where the files may be; a template may hold a wildcard. -/
  targets : List Text
  deriving DecidableEq, Inhabited

def Entry.rank (entry : Entry) : Nat := prefixLength entry.pattern

/-- Puts an entry behind all entries that are at least as specific. -/
def place (entry : Entry) : List Entry → List Entry
  | [] => [entry]
  | first :: rest =>
      if entry.rank ≤ first.rank then first :: place entry rest else entry :: first :: rest

/-- The entries from the most specific to the least; equals stay in order. -/
def bySpecificity (entries : List Entry) : List Entry :=
  entries.foldl (fun placed entry => place entry placed) []

/-- The entries of the declared patterns, in the order of declaration. -/
def declaredEntries (base : Text) (table : PathTable) : List Entry :=
  table.rows.map fun row => { pattern := row.1, targets := row.2.map (resolve base) }

/-- The entry that maps every request below the base directory. -/
def catchAll (base : Text) : Entry := { pattern := [wildcard], targets := [join base [wildcard]] }

/-- The entries of a table, most specific first. With `matchAll`, a table that does not declare
the bare wildcard ends with the entry that maps everything below `base`. -/
def compile (base : Text) (table : PathTable) (matchAll : Bool) : List Entry :=
  let declared := bySpecificity (declaredEntries base table)
  if matchAll && !([wildcard] ∈ table.patterns) then declared ++ [catchAll base] else declared

end PathAlias
