import ResourceSearch.Cache.Reconcile
import ResourceSearch.Failure
import ResourceSearch.File.Access
import ResourceSearch.Format
import ResourceSearch.Query.Form
import ResourceSearch.Toml.Reader

/-!
The user's settings.  They stand in a TOML file; what the file does not say has its usual value, and
so does everything when there is no file.
-/

namespace ResourceSearch

open Json Cache

structure Config where
  suggestions : SuggestionOptions := {}
  matchRule : MatchRule := .uidAndName
  /-- The snapshot file of commands that are not given one. -/
  cachePath? : Option String := none
  deriving DecidableEq, Repr, Inhabited

namespace Config

/-! ## As JSON -/

def toJson (c : Config) : Json :=
  .object [("suggestions", c.suggestions.toJson),
    ("reconcile", .object [("match_rule", .string c.matchRule.name)]),
    ("cache", .object [("path", (c.cachePath?.map Json.string).getD .null)])]

/-- The settings without those that are absent. -/
def settings (c : Config) : Json :=
  .object [("suggestions", c.suggestions.toJson),
    ("reconcile", .object [("match_rule", .string c.matchRule.name)]),
    ("cache", .object (c.cachePath?.map fun path => ("path", Json.string path)).toList)]

/-- The text of the settings.  TOML leaves out what is absent, as it has no word for it. -/
def render (format : Format) (c : Config) : Except Failure String :=
  format.render (if format = .toml then c.settings else c.toJson)

def reconcileRecord : Record (Option MatchRule) MatchRule where
  title := "struct ReconcileConfig"
  fields := [.of "match_rule" id (fun _ v => some v) MatchRule.decoder true]
  start := none
  finish d _ := .ok (d.getD .uidAndName)

/-- A path is a string under a name of its own. -/
def pathDecoder : Decoder String where
  read _ := readText "path string"
  decode _
    | .string s => .ok s
    | j => .error (.invalidType (.of j) "path string")

def cacheRecord : Record (Option (Option String)) (Option String) where
  title := "struct CacheConfig"
  fields := [.of "path" id (fun _ v => some v) (.optional pathDecoder) true]
  start := none
  finish d _ := .ok (d.getD none)

structure Draft where
  suggestions : Option SuggestionOptions := none
  matchRule : Option MatchRule := none
  cachePath : Option (Option String) := none

def record : Record Draft Config where
  title := "struct Config"
  fields := [
    .of "suggestions" Draft.suggestions (fun d v => { d with suggestions := some v })
      SuggestionOptions.decoder true,
    .of "reconcile" Draft.matchRule (fun d v => { d with matchRule := some v })
      reconcileRecord.decoder true,
    .of "cache" Draft.cachePath (fun d v => { d with cachePath := some v }) cacheRecord.decoder
      true]
  start := {}
  finish d _ := .ok {
    suggestions := d.suggestions.getD {}
    matchRule := d.matchRule.getD .uidAndName
    cachePath? := d.cachePath.getD none }

def decoder : Decoder Config := record.decoder

/-! ## From TOML -/

open Toml (Value)

/-- A field of a record, if it is there.  A record is a table, or an array of its fields in order; a
date has no field that anyone knows. -/
def field? (index : Nat) (name : String) : Value → Option (Option Value)
  | .table _ es => some (es.lookup name)
  | .array vs => some vs[index]?
  | .tables elements => some (elements[index]?.map (Value.table .header))
  | .moment _ => some none
  | _ => none

def fieldOr {α : Type} (usual : α) (read : Value → Option α) : Option Value → Option α
  | none => some usual
  | some v => read v

def readBool : Value → Option Bool
  | .bool b => some b
  | _ => none

def readString : Value → Option String
  | .string s => some s
  | _ => none

/-- Whether a value is a table or an array without anything in it. -/
def isEmpty : Value → Bool
  | .table _ es => es.isEmpty
  | .array vs => vs.isEmpty
  | .tables elements => elements.isEmpty
  | _ => false

/-- A match rule is given by its name, or by a table with the name for its only key. -/
def readMatchRule : Value → Option MatchRule
  | .string name => MatchRule.names.lookup name
  | .table _ [(name, v)] => if isEmpty v then MatchRule.names.lookup name else none
  | _ => none

def readSuggestions (v : Value) : Option SuggestionOptions := do
  let dedupe ← fieldOr false readBool (← field? 0 "dedupe_selected_values" v)
  return { dedupe }

def ofToml? (text : String) : Option Config := do
  let top := Value.table .header (← Toml.parse? text)
  let suggestions ← fieldOr {} readSuggestions (← field? 0 "suggestions" top)
  let matchRule ← fieldOr .uidAndName
    (fun v => do fieldOr .uidAndName readMatchRule (← field? 0 "match_rule" v))
    (← field? 1 "reconcile" top)
  let cachePath? ← fieldOr none
    (fun v => do fieldOr none (fun v => (readString v).map some) (← field? 0 "path" v))
    (← field? 2 "cache" top)
  return { suggestions, matchRule, cachePath? }

/-- The settings in a file of some bytes.  The path is for messages. -/
def ofBytes (path : String) (contents : List UInt8) : Except Failure Config :=
  match Text.ofBytes? contents with
  | none => .error (.config ("Failed to read " ++ path ++ ": stream did not contain valid UTF-8"))
  | some text =>
    match ofToml? text with
    | some c => .ok c
    | none => .error .tomlInput

/-- Loads the settings of a file.  A missing file leaves everything as usual. -/
def load {m : Type → Type} [Monad m] (files : Files m) (path : String) :
    m (Except Failure Config) := do
  if ← files.isThere path then
    match ← files.read path with
    | .error e => return .error (.config ("Failed to read " ++ path ++ ": " ++ e.message))
    | .ok contents => return ofBytes path contents
  else return .ok {}

end Config
end ResourceSearch
