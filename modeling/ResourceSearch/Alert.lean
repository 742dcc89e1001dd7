import ResourceSearch.Json.Decoder
import ResourceSearch.Text.Split

/-!
The banners that show failures of the search service and of a delete.
-/

namespace ResourceSearch

open Json

inductive AlertVariant where
  | info
  | danger
  deriving DecidableEq, Repr, Inhabited

structure Alert where
  variant : AlertVariant
  title : String
  subtitle? : Option String := none
  deriving DecidableEq, Repr, Inhabited

namespace AlertVariant

def names : List (String × AlertVariant) := [("info", .info), ("danger", .danger)]

def name : AlertVariant → String
  | .info => "info"
  | .danger => "danger"

def decoder : Decoder AlertVariant := .choice names

end AlertVariant

namespace Alert

def danger (title : String) : Alert := { variant := .danger, title }

/-- The alert for a message of the search service.  A search that is switched off is no danger. -/
def ofServiceError (message : String) : Alert :=
  if Text.occurs "not enabled".toList message.toList then
    { variant := .info, title := "Search is not enabled", subtitle? := some message }
  else
    { variant := .danger, title := "Error occurred while contacting the search service",
      subtitle? := some message }

def toJson (a : Alert) : Json :=
  .object ([("variant", .string a.variant.name), ("title", .string a.title)] ++
    (a.subtitle?.map fun s => ("subtitle", Json.string s)).toList)

structure Draft where
  variant : Option AlertVariant := none
  title : Option String := none
  subtitle : Option (Option String) := none

def record : Record Draft Alert where
  title := "struct Alert"
  fields := [
    .of "variant" Draft.variant (fun d v => { d with variant := some v }) AlertVariant.decoder,
    .of "title" Draft.title (fun d v => { d with title := some v }) Decoder.string,
    .of "subtitle" Draft.subtitle (fun d v => { d with subtitle := some v }) (.optional .string)]
  start := {}
  finish d _ := do
    return {
      variant := ← required "variant" d.variant
      title := ← required "title" d.title
      subtitle? := d.subtitle.getD none }

def decoder : Decoder Alert := record.decoder

end Alert
end ResourceSearch
