import PacedChain.Command.Level
import PacedChain.Trigger

/-!
# Invocations

What the program is asked to do. Before the command and behind it there may be the options that all
commands share; each of them may be given once in either place, and the later place counts.
-/
namespace PacedChain.Command

/-- A chain to be run on simulated boundaries. -/
structure ChainRun where
  triggers : List Trigger := [.bootCompleted]
  oracleDelay : Int := 2
  engineDelay : Int := 3
  /-- Every call of the engine fails whose number this divides; zero divides none. -/
  engineFailEvery : Nat := 0
  runFor : Nat := 15
  deriving DecidableEq

/-- What a word behind the shared options asks for. -/
inductive Subcommand where
  | chain (run : ChainRun)
  /-- Run the long-lived loop instead of a chain. -/
  | service (runFor : Nat)
  deriving DecidableEq

structure Invocation where
  settingsPath : Option String
  subcommand : Subcommand
  deriving DecidableEq

/-! ### Values -/

/-- The number that a text of decimal digits is. -/
def readDigits? (cs : List Char) : Option Nat :=
  if cs.isEmpty || !cs.all Char.isDigit then none
  else some (cs.foldl (fun n c => n * 10 + (c.toNat - '0'.toNat)) 0)

/-- The natural number of 64 bits that a text is; it may have a plus sign. -/
def natural? (s : String) : Option Nat :=
  let digits := match s.toList with
    | '+' :: rest => rest
    | cs => cs
  (readDigits? digits).filter (· < Nat.pow 2 64)

/-- The integer from `least` to `most` that a text is; it may have a sign. -/
def integer? (least most : Int) (s : String) : Option Int :=
  let n? : Option Int := match s.toList with
    | '+' :: rest => (readDigits? rest).map fun n => n
    | '-' :: rest => (readDigits? rest).map fun n => -n
    | cs => (readDigits? cs).map fun n => n
  n?.filter fun n => least ≤ n && n ≤ most

def seconds? : String → Option Int := integer? (-(Nat.pow 2 63 : Int)) (Nat.pow 2 63 - 1)

def count? (s : String) : Option Nat := (integer? 0 (Nat.pow 2 32 - 1) s).map Int.toNat

/-! ### Levels -/

/-- The shared options that one level has been given. -/
structure Shared where
  settingsPath : Option String := none
  verbose : Bool := false

/-- A level that builds up a value of `β` next to the shared options. -/
def levelWith {β : Type} (options : List (ValueOption (Shared × β)))
    (switches : List (Switch (Shared × β))) : Level (Shared × β) where
  options := {
    name := "config"
    negative := false
    put := fun path (shared, rest) =>
      if path.isEmpty || shared.settingsPath.isSome then none
      else some ({ shared with settingsPath := some path }, rest) } :: options
  switches := [
    { name := "verbose"
      letter := 'v'
      flip := fun (shared, rest) =>
        if shared.verbose then .error .usage else .ok ({ shared with verbose := true }, rest) },
    { name := "help", letter := 'h', flip := fun _ => .error .help }] ++ switches

/-- An option that may be given once and sets a field that is empty before. -/
def single {β γ : Type} (name : String) (read : String → Option γ) (get : β → Option γ)
    (set : β → γ → β) (negative : Bool := false) : ValueOption (Shared × β) where
  name
  negative
  put := fun text (shared, rest) =>
    if (get rest).isSome then none else (read text).map fun value => (shared, set rest value)

def topLevel : Level (Shared × Unit) :=
  levelWith [] [{ name := "version", letter := 'V', flip := fun _ => .error .version }]

structure ChainDraft where
  triggers : List Trigger := []
  oracleDelay : Option Int := none
  engineDelay : Option Int := none
  engineFailEvery : Option Nat := none
  runFor : Option Nat := none

/-- The run with the given options, and the standard ones for the others. -/
def ChainDraft.finish (d : ChainDraft) : ChainRun :=
  let standard : ChainRun := {}
  { triggers := if d.triggers.isEmpty then standard.triggers else d.triggers
    oracleDelay := d.oracleDelay.getD standard.oracleDelay
    engineDelay := d.engineDelay.getD standard.engineDelay
    engineFailEvery := d.engineFailEvery.getD standard.engineFailEvery
    runFor := d.runFor.getD standard.runFor }

/-- The level of a chain run. A trigger may be given any number of times. -/
def chainLevel : Level (Shared × ChainDraft) :=
  levelWith [
    { name := "trigger"
      negative := false
      put := fun text (shared, d) =>
        (Trigger.parse text).toOption.map fun t =>
          (shared, { d with triggers := d.triggers ++ [t] }) },
    single "oracle-delay" seconds? (·.oracleDelay)
      (fun d n => { d with oracleDelay := some n }) true,
    single "engine-delay" seconds? (·.engineDelay)
      (fun d n => { d with engineDelay := some n }) true,
    single "engine-fail-every" count? (·.engineFailEvery)
      (fun d n => { d with engineFailEvery := some n }),
    single "run-for" natural? (·.runFor) (fun d n => { d with runFor := some n })] []

def serviceLevel : Level (Shared × Option Nat) :=
  levelWith [single "run-for" natural? id (fun _ n => some n)] []

/-- How many seconds the service runs where nothing else is asked for. -/
def standardServiceTime : Nat := 5

/-! ### Arguments -/

/-- The names that can stand where a command does. -/
def commandNames : List String := ["chain", "service", "help"]

/-- The command that a word names, with what stands behind it. -/
def readSubcommand (word : String) (rest : List String) : Except Stop (Shared × Subcommand) :=
  match word with
  | "chain" => (chainLevel.readAll ({}, {}) rest).map fun (shared, d) => (shared, .chain d.finish)
  | "service" =>
    (serviceLevel.readAll ({}, none) rest).map fun (shared, runFor) =>
      (shared, .service (runFor.getD standardServiceTime))
  | "help" =>
    match rest with
    | [] => .error .help
    | [name] => .error (if commandNames.contains name then .help else .usage)
    | _ => .error .usage
  | _ => .error .usage

/-- What the arguments ask for. Settings are looked for where the arguments say, else where the
environment does. -/
def Invocation.parse (environment : Option String) (args : List String) :
    Except Stop Invocation := do
  let (top, rest) ← topLevel.read args ⟨({}, ()), none⟩
  match rest with
  | [] => .error .usage
  | word :: rest =>
    let (shared, subcommand) ← readSubcommand word rest
    -- The option before the command is taken in last.
    let (topShared, _) ← top.settle
    return {
      settingsPath := shared.settingsPath.or (topShared.settingsPath.or environment)
      subcommand }

end PacedChain.Command
