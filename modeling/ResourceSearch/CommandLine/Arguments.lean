import ResourceSearch.Cache.Reconcile
import ResourceSearch.CommandLine.Grammar
import ResourceSearch.Format
import ResourceSearch.Query.Link

/-!
What a command line asks for.  Options for every command may stand before the command and after it;
what stands after it wins, and of several formats YAML wins over TOML and TOML over JSON.
-/

namespace ResourceSearch
namespace CommandLine

open Cache

structure ReconcileRequest where
  /-- The snapshot file, unless it is the one in the settings. -/
  cache? : Option String := none
  text : String := ""
  /-- The deleted resource as JSON. -/
  resource : String
  origin : Cache.Origin := .results
  /-- The match rule, unless it is the one in the settings. -/
  rule? : Option MatchRule := none
  dryRun : Bool := false
  deriving DecidableEq, Repr, Inhabited

/-- A command whose answer hangs on its words and the settings alone. -/
inductive Question where
  | compile (text : String)
  /-- The query is JSON. -/
  | serialize (query : String)
  | detect (text : String)
  | complete (text : String)
  | suggest (values : List String) (kind : SuggestionKind) (typed : String) (dedupe : Bool)
  | encodeLink (link : Link)
  | decodeLink (address : String)
  | alert (message : String)
  deriving DecidableEq, Repr, Inhabited

inductive Command where
  | ask (question : Question)
  | reconcile (request : ReconcileRequest)
  deriving DecidableEq, Repr, Inhabited

structure Options where
  config? : Option String := none
  format : Format := .json
  quiet : Bool := false
  deriving DecidableEq, Repr, Inhabited

inductive Invocation where
  | run (options : Options) (command : Command)
  | help
  | version
  deriving DecidableEq, Repr, Inhabited

/-! ## The options and operands there are -/

def valueOf (name : String) (anything : Bool) : Parameter :=
  { name, kind := .value (fun _ => true) false anything }

def pathOf (name : String) : Parameter := { name, kind := .value (· ≠ "") false false }

def choiceOf (name : String) (choices : List String) : Parameter :=
  { name, kind := .value (choices.contains ·) false false }

def flag (name : String) : Parameter := { name, kind := .flag }

def sharedParameters : List Parameter :=
  [pathOf "config", flag "json", flag "yaml", flag "toml",
    { name := "quiet", letter? := some 'q', kind := .flag },
    { name := "verbose", letter? := some 'v', kind := .counter },
    { name := "help", letter? := some 'h', kind := .help }]

def suggestionKinds : List (String × SuggestionKind) := [("property", .filter), ("value", .value)]

def matchRules : List (String × MatchRule) :=
  [("uid-and-name", .uidAndName), ("composite", .composite)]

/-- The text of a search, which may look like an option. -/
def searchText : Grammar := { parameters := sharedParameters, operands := .one true }

def oneOperand : Grammar := { parameters := sharedParameters, operands := .one false }

def suggestGrammar : Grammar where
  parameters := sharedParameters ++
    [choiceOf "kind" (suggestionKinds.map (·.1)), valueOf "typed" true, flag "dedupe"]
  operands := .any

def encodeGrammar : Grammar where
  parameters := sharedParameters ++
    [{ name := "related", kind := .value (fun _ => true) true false }]
  operands := .one true

def reconcileGrammar : Grammar where
  parameters := sharedParameters ++
    [pathOf "cache", valueOf "query" true, valueOf "resource" false, flag "related",
      choiceOf "match-rule" (matchRules.map (·.1)), flag "dry-run"]

def aboutOperand (make : String → Question) (f : Found) : Option Command :=
  match f.operands with
  | [word] => some (.ask (make word))
  | _ => none

def suggestQuestion (f : Found) : Question :=
  let kind? := (f.value? "kind").bind fun name => suggestionKinds.lookup name
  .suggest f.operands (kind?.getD .filter) ((f.value? "typed").getD "") (f.hasFlag "dedupe")

def reconcileCommand (f : Found) : Option Command := do
  return .reconcile {
    cache? := f.value? "cache"
    text := (f.value? "query").getD ""
    resource := ← f.value? "resource"
    origin := if f.hasFlag "related" then .related else .results
    rule? := (f.value? "match-rule").bind fun name => matchRules.lookup name
    dryRun := f.hasFlag "dry-run" }

/-- The commands, with what may follow each and how to read it. -/
def commands : List (String × Grammar × (Found → Option Command)) :=
  [("compile", searchText, aboutOperand .compile),
    ("serialize", oneOperand, aboutOperand .serialize),
    ("detect", searchText, aboutOperand .detect),
    ("complete", searchText, aboutOperand .complete),
    ("suggest", suggestGrammar, fun f => some (.ask (suggestQuestion f))),
    ("encode-url", encodeGrammar,
      fun f => aboutOperand (fun text => .encodeLink { text, related := f.valuesOf "related" }) f),
    ("decode-url", oneOperand, aboutOperand .decodeLink),
    ("reconcile", reconcileGrammar, reconcileCommand),
    ("alert", oneOperand, aboutOperand .alert)]

def topGrammar : Grammar where
  parameters := sharedParameters ++ [{ name := "version", letter? := some 'V', kind := .version }]
  commands := "help" :: commands.map (·.1)

/-! ## Reading a command line -/

/-- Whether at most one format is asked for on one side of the command. -/
def agrees (f : Found) : Bool := (["json", "yaml", "toml"].filter f.hasFlag).length ≤ 1

def options (before after : Found) : Options :=
  let either (name : String) := before.hasFlag name || after.hasFlag name
  { config? := (after.value? "config").or (before.value? "config")
    format := if either "yaml" then .yaml else if either "toml" then .toml else .json
    quiet := either "quiet" }

def readCommand (name : String) (words : List String) (before : Found) : Option Invocation := do
  let (grammar, make) ← commands.lookup name
  match grammar.scan none {} words with
  | .finished after => do
    let command ← make after
    if agrees before && agrees after then return .run (options before after) command else none
  | .help => some .help
  | .version => some .version
  | .command .. => none
  | .refused => none

/-- What the words of a command line ask for, unless they break a rule. -/
def parse? (words : List String) : Option Invocation :=
  match topGrammar.scan none {} words with
  | .command "help" rest _ =>
    match rest with
    | [] => some .help
    | [name] => if name ∈ topGrammar.commands then some .help else none
    | _ => none
  | .command name rest before => readCommand name rest before
  | .help => some .help
  | .version => some .version
  | .finished _ => none
  | .refused => none

end CommandLine
end ResourceSearch
