import ResourceSearch.Json.Fault

/-!
What can go wrong apart from reading search text, which always succeeds: the delete flow,
configuration, snapshots and rendering.  Every failure has a message and an exit code.
-/

namespace ResourceSearch

inductive Failure where
  | unauthorized
  | accessPending (kind name : String)
  | deleteInFlight (kind name : String)
  | deleteNotStarted (kind name : String)
  | dialogClosed (kind name : String)
  | deleteFailed (message : String)
  | invalidInput (message : String)
  | config (message : String)
  | cache (message : String)
  | snapshotNotFound (path : String)
  | system (message : String)
  | yaml (message : String)
  | json (refusal : Json.Refusal)
  | tomlInput
  | tomlOutput (message : String)
  deriving DecidableEq, Repr

namespace Failure

def subject (kind name : String) : String := kind ++ " '" ++ name ++ "'"

def message : Failure → String
  | .unauthorized => "You are not authorized to delete this resource."
  | .accessPending kind name => "Access review for " ++ subject kind name ++ " is still loading"
  | .deleteInFlight kind name => "A delete is already in progress for " ++ subject kind name
  | .deleteNotStarted kind name => "No delete is in progress for " ++ subject kind name
  | .dialogClosed kind name => "Delete dialog for " ++ subject kind name ++ " is closed"
  | .deleteFailed message => "Delete failed: " ++ message
  | .invalidInput message => "Invalid input: " ++ message
  | .config message => "Config error: " ++ message
  | .cache message => "Cache error: " ++ message
  | .snapshotNotFound path => "Cache snapshot not found: " ++ path
  | .system message => "IO error: " ++ message
  | .yaml message => "YAML error: " ++ message
  | .json refusal => "JSON error: " ++ refusal.message
  | .tomlInput => "TOML parse error"
  | .tomlOutput message => "TOML serialize error: " ++ message

end Failure

inductive ExitCode where
  | success
  | generalError
  | unauthorized
  | deleteFailed
  | invalidInput
  deriving DecidableEq, Repr

def ExitCode.code : ExitCode → Nat
  | .success => 0
  | .generalError => 1
  | .unauthorized => 2
  | .deleteFailed => 3
  | .invalidInput => 4

def Failure.exitCode : Failure → ExitCode
  | .unauthorized | .accessPending .. => .unauthorized
  | .deleteFailed _ | .deleteInFlight .. | .deleteNotStarted .. | .dialogClosed .. => .deleteFailed
  | .invalidInput _ | .json _ => .invalidInput
  | _ => .generalError

end ResourceSearch
