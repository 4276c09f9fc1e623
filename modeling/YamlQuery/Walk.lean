import YamlQuery.Document.Address
import YamlQuery.KeyPath.Basic

/-!
# Walk — the search for the keys that a path matches

A walk goes through the mappings of a document, depth first and in order.  Each key of a mapping is
matched with the segment of the path that belongs to its depth; a sequence is passed through to the
mappings in it, without a segment of its own.  What it meets is a list of events: keys that match
and lead on (`partly`), keys that match to the end of the path or have a scalar as value (`fully`),
and places where nothing matches (`miss`).

A strict walk stops at an element of a sequence that is no mapping.
-/

namespace YamlQuery

/-- A key that matches: the mapping it is in, its value, the path with its cursor at the segment,
and the keys on the way, this one included. -/
structure Site where
  parent : Address
  key : String
  value : Value
  path : KeyPath
  trail : List String

/-- A place without a match: a key of a mapping, an empty mapping, or an element of a sequence that
is no mapping. -/
structure Gap where
  parent : Address
  key : Option String
  path : KeyPath
  trail : List String

inductive Event
  | partly (site : Site)
  | fully (site : Site)
  | miss (gap : Gap)

/-- The element of a sequence at which a strict walk stopped. -/
structure Obstacle where
  place : Address
  kind : String
  path : KeyPath

/-- A walk: its events, whether a key matched fully, and where it stopped, if it did. -/
structure Walk where
  events : List Event := []
  matched : Bool := false
  stop : Option Obstacle := none

namespace Walk

/-- Goes on with another walk, unless the first has stopped. -/
def andThen (a b : Walk) : Walk :=
  if a.stop.isSome then a
  else { events := a.events ++ b.events, matched := a.matched || b.matched, stop := b.stop }

/-- The walk of one event. -/
def single (e : Event) : Walk := { events := [e] }

/-- A key that does not match the path. -/
def missKey (path : KeyPath) (parent : Address) (trail : List String) (key : String) : Walk :=
  single (.miss ⟨parent, some key, path, trail⟩)

/-- An empty mapping. -/
def missMapping (path : KeyPath) (parent : Address) (trail : List String) : Walk :=
  single (.miss ⟨parent, none, path, trail⟩)

/-- An element of a sequence that is no mapping. -/
def missItem (strict : Bool) (path : KeyPath) (place : Address) (trail : List String)
    (item : Value) : Walk where
  events := [.miss ⟨place, none, path, trail⟩]
  stop := if strict then some ⟨place, item.kind, path⟩ else none

mutual

/-- The walk below a container at an address; nothing below a scalar. -/
def below (strict : Bool) (path : KeyPath) (parent : Address) (trail : List String) :
    Value → Walk
  | .mapping [] => missMapping path parent trail
  | .mapping (e :: es) => entries strict path parent trail (e :: es)
  | .sequence items => elements strict path parent trail 0 items
  | _ => {}

/-- The walk through the entries of a mapping. -/
def entries (strict : Bool) (path : KeyPath) (parent : Address) (trail : List String) :
    List (String × Value) → Walk
  | [] => {}
  | (key, value) :: es =>
    let here :=
      if !path.isMatch key then missKey path parent trail key
      else
        let site : Site := ⟨parent, key, value, path, trail ++ [key]⟩
        if value.isContainer && path.advanced.hasNext then
          (single (.partly site)).andThen
            (below strict path.advanced (parent.child (.key key)) (trail ++ [key]) value)
        else { events := [.fully site], matched := true }
    here.andThen (entries strict path parent trail es)

/-- The walk through the elements of a sequence from an index on. -/
def elements (strict : Bool) (path : KeyPath) (parent : Address) (trail : List String)
    (index : Nat) : List Value → Walk
  | [] => {}
  | item :: items =>
    let place := parent.child (.index index)
    let here :=
      if item.isMapping then below strict path place trail item
      else missItem strict path place trail item
    here.andThen (elements strict path parent trail (index + 1) items)

end

end Walk

/-- The walk through a document along a path. -/
def Value.walk (strict : Bool) (path : KeyPath) (doc : Value) : Walk :=
  Walk.below strict path .root [] doc

end YamlQuery
