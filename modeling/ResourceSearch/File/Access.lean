/-!
What the program asks of a file system.  A file system works in a monad of its own, so the same code
runs on a real one and on one that is a value.
-/

namespace ResourceSearch

inductive FileError where
  | notFound
  | alreadyExists
  | busy
  | notFolder
  | isFolder
  | nameTooLong
  | zeroByte
  /-- Any other reason, in the system's words. -/
  | other (text : String)
  deriving DecidableEq, Repr

def FileError.message : FileError → String
  | .notFound => "No such file or directory (os error 2)"
  | .busy => "Device or resource busy (os error 16)"
  | .alreadyExists => "File exists (os error 17)"
  | .notFolder => "Not a directory (os error 20)"
  | .isFolder => "Is a directory (os error 21)"
  | .nameTooLong => "File name too long (os error 36)"
  | .zeroByte => "file name contained an unexpected NUL byte"
  | .other text => text

/-- A file system.  What it refuses has no effect. -/
structure Files (m : Type → Type) where
  isThere : String → m Bool
  read : String → m (Except FileError (List UInt8))
  /-- Writes a file that must not be there yet. -/
  create : String → List UInt8 → m (Except FileError Unit)
  /-- Writes a file, over the one that is there. -/
  write : String → List UInt8 → m (Except FileError Unit)
  /-- Gives a file another path, in place of the file that is there. -/
  rename : String → String → m (Except FileError Unit)
  remove : String → m (Except FileError Unit)

end ResourceSearch
