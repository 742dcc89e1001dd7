import ResourceSearch.Query.Basic
import ResourceSearch.Text.Split

/-!
Search text and searches.  Text is a run of tokens between spaces; a token with a colon is a filter,
any other a word.  `compile` never fails: a filter that stops at an operator is still being typed
and is left out.  `serialize` writes the words and then the filters.
-/

namespace ResourceSearch
namespace Query

inductive Token where
  | keyword (word : List Char)
  | filter (property values : List Char)
  deriving DecidableEq, Repr

namespace Token

/-- A token with a colon is a filter on what stands before the first one. -/
def ofChars (cs : List Char) : Token :=
  match Text.cut ':' cs with
  | some (property, values) => .filter property values
  | none => .keyword cs

def keyword? : Token → Option String
  | .keyword word => some (String.ofList word)
  | .filter _ _ => none

/-- The filter of a filter token, unless its first value is a bare operator. -/
def filter? : Token → Option Filter
  | .keyword _ => none
  | .filter property values =>
    let values := (Text.split ',' values).map String.ofList
    if values.head?.any isOperator then none else some ⟨String.ofList property, values⟩

end Token

/-- The tokens of search text.  Repeated spaces make no tokens. -/
def tokens (text : List Char) : List Token :=
  ((Text.split ' ' text).filter (· ≠ [])).map Token.ofChars

def ofTokens (ts : List Token) : Query :=
  { keywords := ts.filterMap Token.keyword?, filters := ts.filterMap Token.filter? }

def compile (text : String) : Query := ofTokens (tokens text.toList)

def writeFilter (f : Filter) : List Char :=
  f.property.toList ++ ':' :: Text.join ',' (f.values.map String.toList)

/-- The text of a search: its words and then its filters, one space apart. -/
def serialize (q : Query) : String :=
  String.ofList (Text.join ' ' (q.keywords.map String.toList ++ q.filters.map writeFilter))

end Query
end ResourceSearch
