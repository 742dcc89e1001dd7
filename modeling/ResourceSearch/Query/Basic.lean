/-!
The search language's data.  A search is a list of free words and a list of property filters; a word
stands for a substring of any property, a filter for one property and the values it may have.
-/

namespace ResourceSearch

/-- One `property:value,value` condition. -/
structure Filter where
  property : String
  values : List String
  deriving DecidableEq, Repr, Inhabited

/-- A compiled search.  The same property may be filtered more than once. -/
structure Query where
  keywords : List String := []
  filters : List Filter := []
  deriving DecidableEq, Repr, Inhabited

namespace Query

/-- The relations a user may type right after `property:`.  A filter whose first value is one of
them has not been given a value yet. -/
def operators : List String := ["=", "<", ">", "<=", ">=", "!=", "!"]

def isOperator (value : String) : Bool := operators.contains value

def isEmpty (q : Query) : Bool := q.keywords.isEmpty && q.filters.isEmpty

def withoutProperty (q : Query) (property : String) : Query :=
  { q with filters := q.filters.filter (·.property ≠ property) }

def valuesFor (q : Query) (property : String) : List String :=
  (q.filters.filter (·.property = property)).flatMap (·.values)

def allValues (q : Query) : List String := q.filters.flatMap (·.values)

/-- The words and filters of one search followed by those of another. -/
def append (q r : Query) : Query := ⟨q.keywords ++ r.keywords, q.filters ++ r.filters⟩

instance : Append Query := ⟨append⟩

theorem isEmpty_iff {q : Query} : q.isEmpty = true ↔ q = {} := by
  cases q with
  | mk ks fs => simp [isEmpty]

end Query
end ResourceSearch
