import Diagnosis.Error
import Diagnosis.Text.Order

/-!
# Catalogues

A catalogue finds components by category and name. Categories and names keep the order in which
they were first entered; a component that replaces another takes its place. A category that was
entered once stays, also when it has no names left.
-/

namespace Diagnosis

variable {α : Type}

/-- Components by category and name, in the order of entry. -/
structure Catalogue (α : Type) where
  buckets : List (String × List (String × α)) := []
  deriving Repr, Inhabited

namespace Catalogue

/-- The entries with a value put under a key: in the place of the old value, else at the end. -/
def put {β : Type} (key : String) (value : β) : List (String × β) → List (String × β)
  | [] => [(key, value)]
  | (k, v) :: rest => if k = key then (key, value) :: rest else (k, v) :: put key value rest

/-- The category that components belong to unless told otherwise. -/
def defaultCategory : String := "default"

/-- The names of a category with their components. -/
def entries (c : Catalogue α) (category : String) : List (String × α) :=
  (c.buckets.lookup category).getD []

/-- The component of a name in a category. -/
def find? (c : Catalogue α) (name category : String) : Option α :=
  (c.entries category).lookup name

/-- Enters a component. A name that is taken is an error, unless it is to be overridden. -/
def register (c : Catalogue α) (name : String) (component : α)
    (category : String := defaultCategory) (override : Bool := false) :
    Except Error (Catalogue α) :=
  if (c.find? name category).isSome && !override then .error (.nameTaken name category)
  else .ok { buckets := put category (put name component (c.entries category)) c.buckets }

/-- Removes a name from a category, if it is there. -/
def unregister (c : Catalogue α) (name : String) (category : String := defaultCategory) :
    Catalogue α :=
  { buckets := c.buckets.map fun (key, bucket) =>
      (key, if key = category then bucket.filter (·.1 != name) else bucket) }

/-- The names of a category in ascending order. -/
def names (c : Catalogue α) (category : String) : List String :=
  Text.sorted ((c.entries category).map Prod.fst)

/-- The component of a name in a category, or the error that tells the names there are. -/
def get (c : Catalogue α) (name : String) (category : String := defaultCategory) :
    Except Error α :=
  match c.find? name category with
  | some component => .ok component
  | none => .error (.unknownName name category (c.names category))

/-- What a catalogue shows of itself. -/
inductive Listing (α : Type) where
  /-- The entries of one category. -/
  | category (entries : List (String × α))
  /-- All categories with their names in ascending order. -/
  | overview (names : List (String × List String))

/-- Lists a category, or all of them if none is named. An empty name names none. -/
def list (c : Catalogue α) (category : Option String := none) : Listing α :=
  match category with
  | some category => if category.isEmpty then overview else .category (c.entries category)
  | none => overview
where
  /-- The categories with their names. -/
  overview : Listing α :=
    .overview (c.buckets.map fun (category, bucket) =>
      (category, Text.sorted (bucket.map Prod.fst)))

/-- The catalogue of one category with the given entries. -/
def ofEntries (category : String) (entries : List (String × α)) : Catalogue α :=
  { buckets := [(category, entries)] }

end Catalogue

end Diagnosis
