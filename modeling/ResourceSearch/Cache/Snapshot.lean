import ResourceSearch.Cache.Reconcile
import ResourceSearch.Failure
import ResourceSearch.File.Access
import ResourceSearch.File.Path

/-!
Both stores in a file.  A writer holds a lock beside the file while it reads, patches and writes, so
two writers cannot lose each other's changes; the file is replaced as a whole, and only if the patch
changed a store.  The lock and the temporary file are gone when the writer is done, however it ends.
-/

namespace ResourceSearch
namespace Cache

open Json

structure Snapshot where
  version : UInt32
  items : List Record := []
  related : List Record := []
  deriving Inhabited

namespace Snapshot

/-- The version that is written, and the only one that is understood. -/
def currentVersion : UInt32 := 1

def empty : Snapshot := { version := currentVersion }

def ofStores (s : Stores) : Snapshot :=
  { version := currentVersion, items := s.items.records, related := s.related.records }

def stores (s : Snapshot) : Stores :=
  { items := .ofList s.items, related := .ofList s.related }

def toJson (s : Snapshot) : Json :=
  .object [("version", Json.count s.version.toNat), ("items", .array (s.items.map Record.toJson)),
    ("related", .array (s.related.map Record.toJson))]

structure Draft where
  version : Option UInt32 := none
  items : Option (List Record) := none
  related : Option (List Record) := none

def record : Json.Record Draft Snapshot where
  title := "struct CacheSnapshot"
  fields := [
    .of "version" Draft.version (fun d v => { d with version := some v })
      (.map UInt32.ofNat (.count UInt32.size "u32")),
    .of "items" Draft.items (fun d v => { d with items := some v }) (.list Record.decoder) true,
    .of "related" Draft.related (fun d v => { d with related := some v }) (.list Record.decoder)
      true]
  start := {}
  finish d _ := do
    return {
      version := ← required "version" d.version
      items := d.items.getD []
      related := d.related.getD [] }

def decoder : Decoder Snapshot := record.decoder

def bytes (s : Snapshot) : List UInt8 := Text.bytes s.toJson.pretty.toList

/-- A snapshot as it is understood: another version is as good as nothing. -/
def current (s : Snapshot) : Snapshot := if s.version = currentVersion then s else empty

/-- What a snapshot file of some bytes says.  The path is for messages. -/
def ofBytes (path : String) (contents : List UInt8) : Except Failure Snapshot :=
  match Text.ofBytes? contents with
  | none => .error (.cache ("Failed to read " ++ path ++ ": stream did not contain valid UTF-8"))
  | some text =>
    match decoder.parse text with
    | .error refusal => .error (.cache ("Failed to parse " ++ path ++ ": " ++ refusal.message))
    | .ok s => .ok s.current

variable {m : Type → Type} [Monad m]

def load (files : Files m) (path : String) : m (Except Failure Snapshot) := do
  if ← files.isThere path then
    match ← files.read path with
    | .error e => return .error (.cache ("Failed to read " ++ path ++ ": " ++ e.message))
    | .ok contents => return ofBytes path contents
  else return .error (.snapshotNotFound path)

/-- Loads a snapshot.  A missing file is two empty stores. -/
def loadOrEmpty (files : Files m) (path : String) : m (Except Failure Snapshot) := do
  match ← load files path with
  | .error (.snapshotNotFound _) => return .ok empty
  | other => return other

/-- The file whose presence says that a writer is at work. -/
def lockPath (path : String) : String := Path.sibling path ".lock"

/-- The file that a process writes before it takes the place of the snapshot. -/
def temporaryPath (process : Nat) (path : String) : String :=
  Path.sibling path (".tmp." ++ toString process)

def lock (files : Files m) (process : Nat) (path : String) : m (Except Failure Unit) := do
  match ← files.create (lockPath path) (Text.bytes (toString process ++ "\n").toList) with
  | .ok () => return .ok ()
  | .error .alreadyExists =>
    return .error (.cache ("Snapshot " ++ path ++ " is locked by another process"))
  | .error e => return .error (.cache ("Failed to lock " ++ path ++ ": " ++ e.message))

def locked {α : Type} (files : Files m) (process : Nat) (path : String)
    (act : m (Except Failure α)) : m (Except Failure α) := do
  match ← lock files process path with
  | .error failure => return .error failure
  | .ok () => do
    let result ← act
    let _ ← files.remove (lockPath path)
    return result

def replace (files : Files m) (process : Nat) (path : String) (contents : List UInt8) :
    m (Except Failure Unit) := do
  let temporary := temporaryPath process path
  match ← files.write temporary contents with
  | .error e => return .error (.cache ("Failed to write " ++ temporary ++ ": " ++ e.message))
  | .ok () =>
    match ← files.rename temporary path with
    | .ok () => return .ok ()
    | .error e => do
      let _ ← files.remove temporary
      return .error (.cache ("Failed to replace " ++ path ++ ": " ++ e.message))

def save (files : Files m) (process : Nat) (path : String) (s : Snapshot) :
    m (Except Failure Unit) :=
  locked files process path (replace files process path s.bytes)

/-- Patches the stores of a snapshot file.  A missing file is two empty stores. -/
def update {α : Type} (files : Files m) (process : Nat) (path : String)
    (patch : Stores → m (α × Stores)) : m (Except Failure α) :=
  locked files process path do
    match ← loadOrEmpty files path with
    | .error failure => return .error failure
    | .ok s => do
      let (result, after) ← patch s.stores
      if after.same s.stores then return .ok result
      else
        match ← replace files process path (ofStores after).bytes with
        | .error failure => return .error failure
        | .ok () => return .ok result

end Snapshot
end Cache
end ResourceSearch
