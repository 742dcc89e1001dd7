/-!
How the words of a command line are told apart.  A word is the value of the option before it, an
option with or without a value of its own, several one-letter flags, the name of a command, or an
operand.  After `--` every word is an operand.
-/

namespace ResourceSearch
namespace CommandLine

inductive OptionKind where
  | flag
  | counter
  /-- Takes a value that is allowed, once or any number of times.  `anything` takes the next word
  whatever it looks like. -/
  | value (allowed : String → Bool) (repeats anything : Bool)
  | help
  | version

structure Parameter where
  name : String
  letter? : Option Char := none
  kind : OptionKind

inductive Operands where
  | none
  /-- Exactly one.  With `hyphens` it may look like an option that there is not. -/
  | one (hyphens : Bool)
  | any
  deriving DecidableEq, Repr

/-- What a command line may consist of, up to the name of a command. -/
structure Grammar where
  parameters : List Parameter
  operands : Operands := .none
  commands : List String := []

structure Found where
  flags : List String := []
  values : List (String × String) := []
  operands : List String := []
  deriving Repr, Inhabited

inductive Scan where
  | finished (found : Found)
  | command (name : String) (rest : List String) (found : Found)
  | help
  | version
  | refused
  deriving Repr, Inhabited

namespace Found

def hasFlag (f : Found) (name : String) : Bool := f.flags.contains name

def valuesOf (f : Found) (name : String) : List String :=
  f.values.filterMap fun (other, v) => if other = name then some v else none

def value? (f : Found) (name : String) : Option String := f.values.lookup name

end Found

namespace Grammar

def named? (g : Grammar) (name : String) : Option Parameter :=
  g.parameters.find? (·.name = name)

def lettered? (g : Grammar) (letter : Char) : Option Parameter :=
  g.parameters.find? (·.letter? = some letter)

/-- What meeting an option without a value leads to. -/
inductive Step where
  | go (found : Found)
  | stop (result : Scan)

def meet (p : Parameter) (f : Found) : Step :=
  match p.kind with
  | .flag => if f.hasFlag p.name then .stop .refused else .go { f with flags := p.name :: f.flags }
  | .counter => .go f
  | .help => .stop .help
  | .version => .stop .version
  | .value .. => .stop .refused

def meetLetters (g : Grammar) (f : Found) : List Char → Step
  | [] => .go f
  | c :: cs =>
    match g.lettered? c with
    | none => .stop .refused
    | some p =>
      match meet p f with
      | .go f => meetLetters g f cs
      | .stop result => .stop result

/-- Takes the value of an option, if it may have it. -/
def take? (p : Parameter) (v : String) (f : Found) : Option Found :=
  match p.kind with
  | .value allowed repeats _ =>
    if allowed v ∧ (repeats ∨ (f.value? p.name).isNone) then
      some { f with values := f.values ++ [(p.name, v)] }
    else none
  | _ => none

def takesAnything (p : Parameter) : Bool :=
  match p.kind with
  | .value _ _ anything => anything
  | _ => false

def takesHyphens (g : Grammar) (f : Found) : Bool := g.operands = .one true && f.operands.isEmpty

def operand? (g : Grammar) (word : String) (f : Found) : Option Found :=
  match g.operands with
  | .none => none
  | .one _ => if f.operands.isEmpty then some { f with operands := [word] } else none
  | .any => some { f with operands := f.operands ++ [word] }

inductive Shape where
  | long (name : String) (value? : Option String)
  | letters (letters : List Char)
  | plain

def Shape.of (word : String) : Shape :=
  match word.toList with
  | '-' :: '-' :: cs =>
    let name := cs.takeWhile (· ≠ '=')
    match cs.drop name.length with
    | [] => .long (String.ofList name) none
    | _ :: v => .long (String.ofList name) (some (String.ofList v))
  | '-' :: c :: cs => .letters (c :: cs)
  | _ => .plain

/-- What a word that is no value of an option by force is taken for. -/
inductive Reading where
  | go (found : Found)
  /-- An option whose value is the next word. -/
  | waiting (p : Parameter)
  /-- A value or an operand. -/
  | datum
  | stop (result : Scan)

def readWord (g : Grammar) (f : Found) (word : String) : Reading :=
  match Shape.of word with
  | .plain => .datum
  | .long name v =>
    match g.named? name, v with
    | none, _ => if g.takesHyphens f then .datum else .stop .refused
    | some p, some v =>
      match take? p v f with
      | some f => .go f
      | none => .stop .refused
    | some p, none =>
      match p.kind with
      | .value .. => .waiting p
      | _ =>
        match meet p f with
        | .go f => .go f
        | .stop result => .stop result
  | .letters cs =>
    if g.takesHyphens f && cs.any fun c => (g.lettered? c).isNone then .datum
    else
      match g.meetLetters f cs with
      | .go f => .go f
      | .stop result => .stop result

/-- Reads the words after `--`. -/
def scanOperands (g : Grammar) (f : Found) : List String → Scan
  | [] => .finished f
  | word :: words =>
    match g.operand? word f with
    | some f => scanOperands g f words
    | none => .refused

/-- Reads the words.  `waiting` is an option whose value comes next. -/
def scan (g : Grammar) (waiting : Option Parameter) (f : Found) : List String → Scan
  | [] => if waiting.isSome then .refused else .finished f
  | word :: words =>
    match waiting with
    | some p =>
      let isValue :=
        if takesAnything p then true
        else if word = "--" then false
        else
          match g.readWord f word with
          | .datum => true
          | _ => false
      match if isValue then take? p word f else none with
      | some f => scan g none f words
      | none => .refused
    | none =>
      if word ∈ g.commands then .command word words f
      else if word = "--" then scanOperands g f words
      else
        match g.readWord f word with
        | .go f => scan g none f words
        | .waiting p => scan g (some p) f words
        | .stop result => result
        | .datum =>
          match g.operand? word f with
          | some f => scan g none f words
          | none => .refused

end Grammar
end CommandLine
end ResourceSearch
