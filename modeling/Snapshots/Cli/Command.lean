import Snapshots.Cli.Grammar
import Snapshots.Task.Basic
import Snapshots.Text.Decimal

/-! # Commands

What the program can be asked to do, and the tree of words and options that asks for it.
-/

namespace Snapshots.Cli

open Text

structure TaskChange where
  name : Option String := none
  ns : Option String := none
  sourceVolume : Option String := none
  snapshotClass : Option String := none
  cron : Option String := none
  targets : Option (List String) := none
  enabled : Option Bool := none
  deriving DecidableEq, Repr

/-- The definition of a task after a change. -/
def TaskChange.definition (c : TaskChange) (t : Task) : Definition where
  name := c.name.getD t.name
  ns := c.ns.getD t.ns
  sourceVolume := c.sourceVolume.getD t.sourceVolume
  snapshotClass := c.snapshotClass.getD t.snapshotClass
  cron := c.cron.getD t.cron
  enabled := c.enabled
  targets := c.targets.getD t.targets

inductive TaskCommand where
  | list (json : Bool)
  | detail (id : String)
  | add (definition : Definition) (createdBy : Option String)
  | update (id : String) (change : TaskChange)
  | toggle (id : String)
  | remove (id : String)
  | run (id : String)
  | preview (hours : Nat)
  deriving DecidableEq, Repr

inductive Command where
  | serve
  | task (command : TaskCommand)
  | checkCron (expression : String) (count : Nat)
  | listClusters
  deriving DecidableEq, Repr

/-- A command with the configuration file that is to be used. -/
structure Invocation where
  config : Option String
  command : Command
  deriving DecidableEq, Repr

/-- A number below a bound, with a sign or without. -/
def natBelow? (bound : Nat) (s : String) : Option Nat :=
  (natOfSigned? s.toList).filter (· < bound)

/-- A number of hours. Zero may have a minus sign. -/
def hours? (s : String) : Option Nat :=
  match s.toList with
  | '-' :: cs => if cs ≠ [] ∧ cs.all (· = '0') then some 0 else none
  | _ => natBelow? 4294967296 s

def count? (s : String) : Option Nat :=
  natBelow? 18446744073709551616 s

def bool? (s : String) : Option Bool :=
  if s = "true" then some true else if s = "false" then some false else none

def configOption : OptionRule where
  name := "config"
  accepts s := s ≠ ""

def needed (name : String) : OptionRule where
  name := name
  required := true

def verb (options : List OptionRule) (operands : Nat) (meaning : Given → Option Command) :
    Verb Invocation :=
  .command options operands fun g =>
    (meaning g).map fun command => ⟨g.value? configOption.name, command⟩

def taskVerb (options : List OptionRule) (meaning : Given → Option TaskCommand) :
    Verb Invocation :=
  verb options 0 fun g => (meaning g).map .task

def idVerb (meaning : String → TaskCommand) : Verb Invocation :=
  taskVerb [needed "id"] fun g => (g.value? "id").map meaning

def addVerb : Verb Invocation :=
  taskVerb [needed "name", needed "namespace", needed "volume", needed "class", needed "cron",
      { name := "target", arity := .many }, { name := "created-by" }]
    fun g => do
      let definition : Definition := {
        name := ← g.value? "name"
        ns := ← g.value? "namespace"
        sourceVolume := ← g.value? "volume"
        snapshotClass := ← g.value? "class"
        cron := ← g.value? "cron"
        enabled := none
        targets := g.values "target" }
      return .add definition (g.value? "created-by")

/-- The target clusters that options ask for, if they ask for a change. -/
def givenTargets? (g : Given) : Option (List String) :=
  if g.has "clear-targets" then some []
  else if g.has "target" then some (g.values "target")
  else none

def updateVerb : Verb Invocation :=
  taskVerb [needed "id", { name := "name" }, { name := "namespace" }, { name := "volume" },
      { name := "class" }, { name := "cron" }, { name := "target", arity := .many },
      { name := "clear-targets", arity := .flag, excludes := some "target" },
      { name := "enabled", accepts := fun s => (bool? s).isSome }]
    fun g => do
      return .update (← g.value? "id") {
        name := g.value? "name"
        ns := g.value? "namespace"
        sourceVolume := g.value? "volume"
        snapshotClass := g.value? "class"
        cron := g.value? "cron"
        targets := givenTargets? g
        enabled := (g.value? "enabled").bind bool? }

def previewVerb : Verb Invocation :=
  taskVerb [{ name := "hours", accepts := fun s => (hours? s).isSome }] fun g =>
    some (.preview (((g.value? "hours").bind hours?).getD 24))

def checkVerb : Verb Invocation :=
  verb [{ name := "count", accepts := fun s => (count? s).isSome }] 1 fun g =>
    g.operands.head?.map fun expression =>
      .checkCron expression (((g.value? "count").bind count?).getD 5)

def verbs : Verb Invocation :=
  .group [
    ("serve", verb [] 0 fun _ => some .serve),
    ("task", .group [
      ("list", taskVerb [{ name := "json", arity := .flag }] fun g => some (.list (g.has "json"))),
      ("show", idVerb .detail),
      ("add", addVerb),
      ("update", updateVerb),
      ("toggle", idVerb .toggle),
      ("remove", idVerb .remove),
      ("run", idVerb .run),
      ("dry-run", previewVerb)]),
    ("cron", .group [("check", checkVerb)]),
    ("clusters", .group [("list", verb [] 0 fun _ => some .listClusters)])]

def request (args : List String) : Request Invocation :=
  Reader.read { verb := verbs, shared := [configOption] } args

end Snapshots.Cli
