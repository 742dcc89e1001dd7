import ResourceSearch.Query.Syntax

/-!
What the search bar offers next.  Text that ends with a colon or an operator asks for values of the
property in its last token, any other text for property names.
-/

namespace ResourceSearch

inductive CompletionMode where
  | property
  | value
  deriving DecidableEq, Repr, Inhabited

/-- The mode of partly typed text and, in value mode, the property that is being given a value. -/
structure Completion where
  mode : CompletionMode
  target? : Option String := none
  deriving DecidableEq, Repr, Inhabited

/-- The question that the search bar puts to the search service. -/
inductive CompletionRequest where
  | schema
  /-- The values of one property among the resources that a search finds. -/
  | values (property : String) (query : Query)
  deriving DecidableEq, Repr, Inhabited

namespace Query

/-- Whether text ends with a colon or an operator. -/
def asksForValue (text : List Char) : Bool :=
  (":" :: operators).any fun op => op.toList.isSuffixOf text

/-- The last token without its trailing colon.  An operator at its end stays. -/
def target (text : List Char) : List Char := Text.dropLastIf ':' (Text.afterLast ' ' text)

def detect (text : String) : Completion :=
  if asksForValue text.toList then ⟨.value, some (String.ofList (target text.toList))⟩
  else ⟨.property, none⟩

/-- The request for partly typed text.  The property being edited does not narrow its own values, so
its filters are left out of the search. -/
def completionRequest (text : String) : CompletionRequest :=
  match (detect text).target? with
  | some property => .values property ((compile text).withoutProperty property)
  | none => .schema

end Query
end ResourceSearch
