/-!
What a command line prints, and the streams that it is printed to.  A stream may refuse a text, and
nothing is printed after that.  The log that `-v` asks for is left out.
-/

namespace ResourceSearch
namespace CommandLine

/-- What a command line prints, and the code it ends with once that is printed. -/
structure Output where
  code : Nat := 0
  stdout : String := ""
  stderr : String := ""
  deriving DecidableEq, Repr, Inhabited

/-- The streams of a program.  Each says whether it took the text. -/
structure Streams (m : Type → Type) where
  stdout : String → m Bool
  stderr : String → m Bool

/-- Streams that are a value: the texts that each takes. -/
structure Console where
  takesOut : String → Bool := fun _ => true
  takesError : String → Bool := fun _ => true

variable {m : Type → Type} [Monad m]

def Console.streams (c : Console) : Streams m where
  stdout text := return c.takesOut text
  stderr text := return c.takesError text

/-- Writes a text to a stream, unless there is nothing to write. -/
def write (stream : String → m Bool) (text : String) : m Bool :=
  if text = "" then return true else stream text

/-- Prints an output, with standard error first.  Whether all of it was taken. -/
def Output.print (streams : Streams m) (o : Output) : m Bool := do
  if ← write streams.stderr o.stderr then write streams.stdout o.stdout else return false

end CommandLine
end ResourceSearch
