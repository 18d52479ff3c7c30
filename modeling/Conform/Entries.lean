/-! Mappings that keep the order of insertion. -/

namespace Conform

/-- Keys with their values, in order of insertion. A mapping holds no key twice. -/
abbrev Entries (α : Type) := List (String × α)

namespace Entries

variable {α : Type}

def keys (entries : Entries α) : List String := entries.map Prod.fst

def get? (entries : Entries α) (key : String) : Option α := entries.lookup key

def contains (entries : Entries α) (key : String) : Bool := (entries.get? key).isSome

/-- A new key goes to the end; a known key keeps its place and gets the new value. -/
def insert : Entries α → String → α → Entries α
  | [], key, value => [(key, value)]
  | (k, v) :: rest, key, value =>
    if k = key then (k, value) :: rest else (k, v) :: insert rest key value

def ofList (pairs : List (String × α)) : Entries α :=
  pairs.foldl (fun entries pair => entries.insert pair.1 pair.2) []

end Entries

end Conform
