import ResourceSearch.File.Access
import ResourceSearch.File.Path

/-!
A file system that is a value: the files and folders below a working folder.  It refuses what a real
one refuses for what is there, and whatever else it is told to refuse.
-/

namespace ResourceSearch

inductive Node where
  | file (contents : List UInt8)
  | folder
  deriving DecidableEq, Repr

inductive FileRequest where
  | read (path : String)
  | create (path : String)
  | write (path : String)
  | rename (source target : String)
  | remove (path : String)
  deriving DecidableEq, Repr

structure Disk where
  entries : List (Path.Location × Node) := []
  /-- What is refused whatever is there, for reasons of the system. -/
  refusal : FileRequest → Option FileError := fun _ => none

namespace Disk

instance : Inhabited Disk := ⟨{}⟩

/-- What stands at a location.  Where paths lead from, and what is above, there are folders. -/
def node? (d : Disk) (place : Path.Location) : Option Node :=
  if place.names = [] then some .folder else d.entries.lookup place

/-- Goes on from a place to a name in it.  Only a folder has names in it, `.` and `..` as well. -/
def step (d : Disk) (place : Path.Location) (name : String) : Except FileError Path.Location :=
  match d.node? place with
  | none => .error .notFound
  | some (.file _) => .error .notFolder
  | some .folder =>
    if Path.maxNameSize < name.utf8ByteSize then .error .nameTooLong else .ok (place.enter name)

/-- The location of a path, if there are folders on the way to its last name. -/
def reach (d : Disk) (path : String) : Except FileError Path.Location :=
  if path = "" then .error .notFound
  else if path.toList.contains '\x00' then .error .zeroByte
  else if Path.maxSize < path.utf8ByteSize then .error .nameTooLong
  else (Path.names path).foldlM d.step (Path.start path)

/-- Puts something at a location, over what stands there. -/
def put (place : Path.Location) (n : Node) :
    List (Path.Location × Node) → List (Path.Location × Node)
  | [] => [(place, n)]
  | (other, old) :: rest =>
    if other = place then (place, n) :: rest else (other, old) :: put place n rest

def isThere (d : Disk) (path : String) : Bool :=
  match d.reach path with
  | .error _ => false
  | .ok place =>
    match d.node? place with
    | none => false
    | some .folder => true
    | some (.file _) => !Path.endsInSlash path

/-- What the system refuses for reasons of its own. -/
def permit (d : Disk) (r : FileRequest) : Except FileError Unit :=
  match d.refusal r with
  | some e => .error e
  | none => .ok ()

def read (d : Disk) (path : String) : Except FileError (List UInt8) := do
  let place ← d.reach path
  d.permit (.read path)
  match d.node? place with
  | none => .error .notFound
  | some .folder => .error .isFolder
  | some (.file contents) => if Path.endsInSlash path then .error .notFolder else .ok contents

def create (d : Disk) (path : String) (contents : List UInt8) : Except FileError Disk := do
  let place ← d.reach path
  if Path.endsInSlash path then .error .isFolder
  else
    match d.node? place with
    | some _ => .error .alreadyExists
    | none => do
      d.permit (.create path)
      return { d with entries := put place (.file contents) d.entries }

def write (d : Disk) (path : String) (contents : List UInt8) : Except FileError Disk := do
  let place ← d.reach path
  if d.node? place = some .folder ∨ Path.endsInSlash path then .error .isFolder
  else do
    d.permit (.write path)
    return { d with entries := put place (.file contents) d.entries }

def rename (d : Disk) (source target : String) : Except FileError Disk := do
  let start ← d.reach source
  let stop ← d.reach target
  if Path.endsAtDots target then .error .busy
  else
    match d.node? start with
    | none => .error .notFound
    | some .folder => .error .isFolder
    | some (.file contents) =>
      if Path.endsInSlash target then .error .notFolder
      else if d.node? stop = some .folder then .error .isFolder
      else do
        d.permit (.rename source target)
        let left := d.entries.eraseP fun e => e.1 = start
        return { d with entries := put stop (.file contents) left }

def remove (d : Disk) (path : String) : Except FileError Disk := do
  let place ← d.reach path
  match d.node? place with
  | none => .error .notFound
  | some .folder => .error .isFolder
  | some (.file _) => do
    d.permit (.remove path)
    return { d with entries := d.entries.eraseP fun e => e.1 = place }

def change {m : Type → Type} [Monad m] [MonadStateOf Disk m] (f : Disk → Except FileError Disk) :
    m (Except FileError Unit) := do
  match f (← get) with
  | .error e => return .error e
  | .ok d => do
    set d
    return .ok ()

def files {m : Type → Type} [Monad m] [MonadStateOf Disk m] : Files m where
  isThere path := do return (← get).isThere path
  read path := do return (← get).read path
  create path contents := change (·.create path contents)
  write path contents := change (·.write path contents)
  rename source target := change (·.rename source target)
  remove path := change (·.remove path)

end Disk
end ResourceSearch
