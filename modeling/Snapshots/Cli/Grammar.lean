/-! # Command lines

How the arguments of a program are read: words that lead through a tree of commands, options
with or without values, and operands. Options may stand before and after operands, and two dashes
end the options.
-/

namespace Snapshots.Cli

/-- What an option takes, and how often. -/
inductive Arity where
  | flag
  | one
  | many
  deriving DecidableEq, Repr

/-- An option, written after two dashes. -/
structure OptionRule where
  name : String
  arity : Arity := .one
  required : Bool := false
  /-- An option that this one may not be given with. -/
  excludes : Option String := none
  accepts : String → Bool := fun _ => true

structure Given where
  options : List (String × String) := []
  /-- The options of the groups that the command is in, innermost first. -/
  outer : List (String × String) := []
  operands : List String := []

namespace Given

def has (g : Given) (name : String) : Bool :=
  g.options.any (·.1 = name)

def value? (g : Given) (name : String) : Option String :=
  (g.options ++ g.outer).lookup name

def values (g : Given) (name : String) : List String :=
  (g.options.filter (·.1 = name)).reverse.map (·.2)

def inside (g : Given) : Given :=
  { outer := g.options ++ g.outer }

/-- With one option more, unless that may be given only once and was. -/
def add? (g : Given) (o : OptionRule) (value : String) : Option Given :=
  if (o.arity ≠ .many ∧ g.has o.name) ∨ ¬ o.accepts value then none
  else some { g with options := (o.name, value) :: g.options }

/-- Whether all that has to be given is, and nothing that excludes the other. -/
def fits (g : Given) (rules : List OptionRule) (operands : Nat) : Bool :=
  g.operands.length = operands &&
    rules.all fun o =>
      (!o.required || g.has o.name) && (!g.has o.name || o.excludes.all fun name => !g.has name)

end Given

/-- A command, or a group of commands. -/
inductive Verb (α : Type) where
  | group (members : List (String × Verb α))
  /-- A command with its options, its number of operands, and its meaning. -/
  | command (options : List OptionRule) (operands : Nat) (meaning : Given → Option α)

namespace Verb

variable {α : Type}

def options : Verb α → List OptionRule
  | group _ => []
  | command options _ _ => options

def member? (v : Verb α) (name : String) : Option (Verb α) :=
  match v with
  | group members => members.lookup name
  | command .. => none

end Verb

inductive Request (α : Type) where
  | run (a : α)
  | help
  | version
  | misuse
  deriving DecidableEq, Repr

inductive Word where
  | escape
  | long (name : String) (value : Option String)
  | short (first : Char)
  | plain
  deriving DecidableEq, Repr

/-- How an argument is written. A dash on its own is a plain word. -/
def Word.ofText (s : String) : Word :=
  match s.toList with
  | ['-', '-'] => escape
  | '-' :: '-' :: cs =>
    match cs.dropWhile (· ≠ '=') with
    | _ :: value => long (String.ofList (cs.takeWhile (· ≠ '='))) (some (String.ofList value))
    | [] => long (String.ofList cs) none
  | '-' :: c :: _ => short c
  | _ => plain

/-- Where the reading of a command line stands. -/
structure Reader (α : Type) where
  verb : Verb α
  shared : List OptionRule
  /-- No word of a command was read yet. -/
  atTop : Bool := true
  given : Given := {}
  /-- An option that lacks its value. -/
  waiting : Option OptionRule := none

namespace Reader

variable {α : Type}

def finish (r : Reader α) : Request α :=
  match r.waiting, r.verb with
  | none, .command options operands meaning =>
    if r.given.fits options operands then ((meaning r.given).map .run).getD .misuse else .misuse
  | _, _ => .misuse

/-- The reader after an operand, if there can be one. -/
def operand? (r : Reader α) (s : String) : Option (Reader α) :=
  match r.verb with
  | .group _ => none
  | .command _ operands _ =>
    if r.given.operands.length < operands then
      some { r with given := { r.given with operands := r.given.operands ++ [s] } }
    else none

def plain? (r : Reader α) (s : String) : Option (Reader α) :=
  match r.verb.member? s with
  | some verb => some { r with verb, atTop := false, given := r.given.inside }
  | none => r.operand? s

def option? (r : Reader α) (name : String) (value : Option String) : Option (Reader α) := do
  let o ← (r.verb.options ++ r.shared).find? (·.name = name)
  match o.arity, value with
  | .flag, some _ => none
  | .flag, none => (r.given.add? o "").map ({ r with given := · })
  | _, none => some { r with waiting := some o }
  | _, some value => (r.given.add? o value).map ({ r with given := · })

/-- What words after the request for help ask for: a command that has to be there. -/
def help (v : Verb α) : List String → Request α
  | [] => .help
  | name :: names =>
    match v.member? name with
    | some v => help v names
    | none => if name = "help" ∧ names = [] then .help else .misuse

def rest (r : Reader α) (args : List String) : Request α :=
  ((args.foldlM operand? r).map finish).getD .misuse

def asksHelp (v : Verb α) (s : String) : Bool :=
  match v with
  | .group _ => s = "help"
  | .command .. => false

def read (r : Reader α) : List String → Request α
  | [] => r.finish
  | arg :: args =>
    match r.waiting, Word.ofText arg with
    | some o, .plain =>
      match r.given.add? o arg with
      | some given => read { r with given, waiting := none } args
      | none => .misuse
    | some _, _ => .misuse
    | none, .escape => r.rest args
    | none, .long name value =>
      if name = "help" ∧ value = none then .help
      else if name = "version" ∧ value = none ∧ r.atTop then .version
      else match r.option? name value with
        | some r => r.read args
        | none => .misuse
    | none, .short c =>
      if c = 'h' then .help else if c = 'V' ∧ r.atTop then .version else .misuse
    | none, .plain =>
      if asksHelp r.verb arg then help r.verb args
      else match r.plain? arg with
        | some r => r.read args
        | none => .misuse

end Reader

end Snapshots.Cli
