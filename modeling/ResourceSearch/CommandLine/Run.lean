import ResourceSearch.Alert
import ResourceSearch.Cache.Snapshot
import ResourceSearch.CommandLine.Arguments
import ResourceSearch.CommandLine.Output
import ResourceSearch.Config

/-!
Running a command line.  The settings are loaded first; then the command's answer is printed in the
format that was asked for, or the message of what went wrong.  A program that cannot print one of
them ends with a code of its own, whatever it has done by then.
-/

namespace ResourceSearch
namespace CommandLine

open Cache

/-- The answer of a command, and what it says beside it. -/
structure Answer where
  value : Json
  note? : Option String := none

/-- The file and the delete that a request to patch means. -/
def resolve (r : ReconcileRequest) (c : Config) : Except Failure (String × Deletion) := do
  let some path := r.cache?.or c.cachePath?
    | .error (.invalidInput "No cache snapshot given; pass --cache or set [cache] path")
  match Resource.decoder.parse r.resource with
  | .error refusal => .error (.invalidInput ("Invalid resource: " ++ refusal.message))
  | .ok resource =>
    let rule := r.rule?.getD c.matchRule
    return (path, { rule, origin := r.origin, text := r.text, resource })

def dryRunAnswer (path : String) (report : Report) : Json :=
  .object [("action", .string "reconcile"), ("path", .string path), ("changes", report.toJson)]

def reconcileAnswer (path : String) (origin : Cache.Origin) (report : Report) : Json :=
  .object [("cache", .string path), ("origin", .string origin.name), ("report", report.toJson)]

def answer (c : Config) : Question → Except Failure Json
  | .compile text =>
    .ok (.object [("text", .string text), ("query", (Query.compile text).toJson)])
  | .serialize query =>
    match Query.decoder.parse query with
    | .error refusal => .error (.invalidInput ("Invalid structured query: " ++ refusal.message))
    | .ok q => .ok (.object [("text", .string q.serialize)])
  | .detect text => .ok (Query.detect text).toJson
  | .complete text =>
    .ok (.object ((Query.detect text).members ++
      [("request", (Query.completionRequest text).toJson)]))
  | .suggest values kind typed dedupe =>
    let suggestions :=
      Suggestion.list values kind typed { dedupe := dedupe || c.suggestions.dedupe }
    .ok (.object [("suggestions", .array (suggestions.map Suggestion.toJson)),
      ("total", Json.count (suggestions.filter (!·.disabled)).length)])
  | .encodeLink link => .ok (.object [("url", .string link.encode)])
  | .decodeLink address =>
    let link := Link.decode address
    .ok (.object (link.members ++ [("view", .string link.view.name)]))
  | .alert message => .ok (Alert.ofServiceError message).toJson

variable {m : Type → Type} [Monad m]

def reconcileFile (files : Files m) (process : Nat) (c : Config) (r : ReconcileRequest) :
    m (Except Failure Answer) := do
  match resolve r c with
  | .error failure => return .error failure
  | .ok (path, deletion) =>
    if r.dryRun then
      match ← Snapshot.loadOrEmpty files path with
      | .error failure => return .error failure
      | .ok s => return .ok ⟨dryRunAnswer path (reconcile deletion s.stores).1, none⟩
    else
      match ← Snapshot.update files process path fun stores => return reconcile deletion stores with
      | .error failure => return .error failure
      | .ok report =>
        return .ok ⟨reconcileAnswer path r.origin report, some ("Reconciled " ++ path)⟩

def execute (files : Files m) (process : Nat) (c : Config) : Command → m (Except Failure Answer)
  | .ask question => return (answer c question).map fun value => { value }
  | .reconcile r => reconcileFile files process c r

def failed (quiet : Bool) (stderr : String) (failure : Failure) : Output :=
  { code := failure.exitCode.code
    stderr := if quiet then stderr else stderr ++ "Error: " ++ failure.message ++ "\n" }

def printed (o : Options) (a : Answer) : Output :=
  let stderr := if o.quiet then "" else (a.note?.map (· ++ "\n")).getD ""
  match o.format.render a.value with
  | .ok text => { stdout := text ++ "\n", stderr }
  | .error failure => failed o.quiet stderr failure

/-- The settings of a run: those in the file that was named, or in the usual one if there is such.
-/
def settings (files : Files m) (usual? : Option String) (o : Options) : m (Except Failure Config) :=
  match o.config?.or usual? with
  | some path => Config.load files path
  | none => return .ok {}

def usage : String :=
  "Cluster search query tools\n\nUsage: clustersearch [OPTIONS] <COMMAND>\n\nCommands:\n" ++
    String.join ((commands.map fun (name, _) => "  " ++ name ++ "\n") ++ ["  help\n"])

/-- Runs a command line, up to what is to be printed.  `usual?` is the settings file for when none
is named. -/
def run (files : Files m) (process : Nat) (usual? : Option String) (words : List String) :
    m Output := do
  match parse? words with
  | none => return { code := 2, stderr := usage }
  | some .help => return { stdout := usage }
  | some .version => return { stdout := "clustersearch 0.1.0\n" }
  | some (.run o command) =>
    match ← settings files usual? o with
    | .error failure => return failed o.quiet "" failure
    | .ok c =>
      match ← execute files process c command with
      | .error failure => return failed o.quiet "" failure
      | .ok a => return printed o a

/-- The code of a program that stops because a stream refused what it had to print. -/
def refusedCode : Nat := 101

/-- Runs a command line on streams, and comes to the code that the program ends with.  What is to be
said about the words themselves may be lost. -/
def runOn (files : Files m) (streams : Streams m) (process : Nat) (usual? : Option String)
    (words : List String) : m Nat := do
  let output ← run files process usual? words
  let taken ← output.print streams
  match parse? words with
  | some (.run ..) => return if taken then output.code else refusedCode
  | _ => return output.code

end CommandLine
end ResourceSearch
