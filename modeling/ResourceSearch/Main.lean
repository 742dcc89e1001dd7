import ResourceSearch.CommandLine.Run

/-!
The program: the command line over the file system and the streams of the machine.
-/

namespace ResourceSearch

def systemRefusal (code : UInt32) (details : String) : FileError :=
  match code.toNat with
  | 2 => .notFound
  | 16 => .busy
  | 17 => .alreadyExists
  | 20 => .notFolder
  | 21 => .isFolder
  | 36 => .nameTooLong
  | n => .other (details ++ " (os error " ++ toString n ++ ")")

def FileError.ofSystem : IO.Error → FileError
  | .alreadyExists _ code details => systemRefusal code details
  | .otherError code details => systemRefusal code details
  | .resourceBusy code details => systemRefusal code details
  | .resourceVanished code details => systemRefusal code details
  | .unsupportedOperation code details => systemRefusal code details
  | .hardwareFault code details => systemRefusal code details
  | .unsatisfiedConstraints code details => systemRefusal code details
  | .illegalOperation code details => systemRefusal code details
  | .protocolError code details => systemRefusal code details
  | .timeExpired code details => systemRefusal code details
  | .interrupted _ code details => systemRefusal code details
  | .noFileOrDirectory _ code details => systemRefusal code details
  | .invalidArgument _ code details => systemRefusal code details
  | .permissionDenied _ code details => systemRefusal code details
  | .resourceExhausted _ code details => systemRefusal code details
  | .inappropriateType _ code details => systemRefusal code details
  | .noSuchThing _ code details => systemRefusal code details
  | .unexpectedEof => .other "unexpected end of file"
  | .userError text => .other text

def attempt {α : Type} (act : IO α) : IO (Except FileError α) := do
  try return .ok (← act)
  catch e => return .error (.ofSystem e)

/-- Creates a file that is not there.  One that is there may go away, so this is tried several
times. -/
def createFile (path : String) (contents : List UInt8) : Nat → IO (Except FileError Unit)
  | 0 => return .error .alreadyExists
  | attempts + 1 => do
    match ← attempt (IO.FS.Handle.mk path .writeNew) with
    | .ok handle =>
      let _ ← attempt (handle.write contents.toByteArray)
      return .ok ()
    | .error .alreadyExists =>
      IO.sleep 100
      createFile path contents attempts
    | .error e => return .error e

def machineFiles : Files IO where
  isThere path := do
    match ← attempt (IO.FS.Handle.mk path .read) with
    | .error .notFound => return false
    | .error .notFolder => return false
    | .error .nameTooLong => return false
    | _ => return true
  read path := do
    return (← attempt (IO.FS.readBinFile path)).map ByteArray.toList
  create path contents := createFile path contents 50
  write path contents := attempt (IO.FS.writeBinFile path contents.toByteArray)
  rename source target := attempt (IO.FS.rename source target)
  remove path := attempt (IO.FS.removeFile path)

/-- Writes a text to a stream of the machine at once. -/
def writeText (stream : IO.FS.Stream) (text : String) : IO Bool := do
  let written ← attempt do
    stream.putStr text
    stream.flush
  return written.isOk

def machineStreams : CommandLine.Streams IO where
  stdout text := do writeText (← IO.getStdout) text
  stderr text := do writeText (← IO.getStderr) text

/-- The settings file for when none is named: the one that the environment names, or the one in the
user's folder for settings. -/
def usualSettings : IO (Option String) := do
  match ← IO.getEnv "CLUSTERSEARCH_CONFIG" with
  | some path => return some path
  | none =>
    match ← IO.getEnv "XDG_CONFIG_HOME", ← IO.getEnv "HOME" with
    | some folder, _ => return some (folder ++ "/clustersearch/config.toml")
    | none, some home => return some (home ++ "/.config/clustersearch/config.toml")
    | none, none => return none

end ResourceSearch

/-- Runs the command line that the program was started with. -/
def main (words : List String) : IO UInt32 := do
  let usual? ← ResourceSearch.usualSettings
  let code ← ResourceSearch.CommandLine.runOn ResourceSearch.machineFiles
    ResourceSearch.machineStreams (← IO.monoNanosNow) usual? words
  return code.toUInt32
