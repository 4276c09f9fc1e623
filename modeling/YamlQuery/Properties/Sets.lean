import YamlQuery.Properties.Basic
import YamlQuery.Substitute

/-!
# Properties.Sets — named sets of properties

A property is looked up in the sets in order; the first that has it wins.  The set `batch` is always
there and comes first.  `set`, `unset` and `restore` change that set alone.
-/

namespace YamlQuery

/-- The name of the set that comes first. -/
def PropertySets.own : String := "batch"

/-- Sets of properties by name, in the order in which the names came in. -/
structure PropertySets where
  sets : Entries Properties := [(PropertySets.own, [])]
deriving DecidableEq

namespace PropertySets

/-- The names of the sets in order. -/
def names (s : PropertySets) : List String := s.sets.keys

/-- Adds a set.  A set with a name that is there takes the place of the old one. -/
def insert (name : String) (ps : Properties) (s : PropertySets) : PropertySets where
  sets := s.sets.put name ps

/-- The properties of the set `batch`. -/
def ownSet (s : PropertySets) : Properties := (s.sets.get? own).getD []

/-- Sets a property of the set `batch`. -/
def set (key value : String) (s : PropertySets) : PropertySets :=
  s.insert own (s.ownSet.put key value)

/-- Removes a property from the set `batch`. -/
def unset (key : String) (s : PropertySets) : PropertySets := s.insert own (s.ownSet.erase key)

/-- Sets a property of the set `batch` to an earlier value, or removes it if it had none. -/
def restore (key : String) (value : Option String) (s : PropertySets) : PropertySets :=
  match value with
  | some v => s.set key v
  | none => s.unset key

/-- The properties of all sets: of the sets that have one, the first counts. -/
def lookup (s : PropertySets) : Lookup := .ofSets s.sets.values

/-- The value of a property. -/
def get? (name : String) (s : PropertySets) : Option String := s.lookup name

end PropertySets

end YamlQuery
