import PacedChain.Backoff
import PacedChain.Chain.Execution
import PacedChain.Queue.Basic
import PacedChain.Text.Blank

/-!
# Settings

The constants of one chain and of the queue it runs on. `Settings.fault?` finds what no chain can be
run with: settings that pass give a chain policy that an assembly accepts and a backoff that never
shrinks.
-/
namespace PacedChain

structure RetrySettings where
  baseSecs : Nat
  multiplier : Binary64
  maxSecs : Nat
  /-- Attempts in all; `none` is no limit. -/
  maxAttempts : Option Nat
  deriving DecidableEq

namespace RetrySettings

/-- The settings that make the standard backoff. -/
def standard : RetrySettings where
  baseSecs := Clock.secs Backoff.standard.base
  multiplier := Backoff.standard.multiplier
  maxSecs := Clock.secs Backoff.standard.cap
  maxAttempts := Backoff.standard.budget

instance : Inhabited RetrySettings := ⟨standard⟩

def backoff (r : RetrySettings) : Backoff :=
  ⟨Clock.ofSecs r.baseSecs, r.multiplier, Clock.ofSecs r.maxSecs, r.maxAttempts⟩

end RetrySettings

structure Settings where
  key : String := Key.standard.text
  fallbackSecs : Nat := Delay.fallback.secs
  workers : Nat := 1
  /-- Finished tasks that the queue keeps. -/
  historyLimit : Nat := Queue.standardHistory
  retry : RetrySettings := .standard
  deriving DecidableEq, Inhabited

inductive SettingsFault where
  | blankKey
  | noFallback
  | noWorkers
  | shrinkingBackoff
  | noAttempts
  deriving DecidableEq

def SettingsFault.message : SettingsFault → String
  | .blankKey => "dedup_key must not be empty"
  | .noFallback => "fallback_delay_secs must be positive"
  | .noWorkers => "workers must be at least 1"
  | .shrinkingBackoff => "retry.multiplier must be >= 1.0"
  | .noAttempts => "retry.max_attempts must be at least 1"

inductive ReadFault where
  | missing
  | directory
  | undecodable
  | other (description : String)
  deriving DecidableEq

namespace ReadFault

def message : ReadFault → String
  | .missing => "No such file or directory (os error 2)"
  | .directory => "Is a directory (os error 21)"
  | .undecodable => "stream did not contain valid UTF-8"
  | .other description => description

/-- What is found at a path where there are no files: the path leads to a directory if it goes
through nothing but the directories that are always there. -/
def withoutFiles (path : String) : ReadFault :=
  if path ≠ "" ∧ (path.splitOn "/").all fun part => part == "" || part == "." || part == ".." then
    .directory
  else .missing

end ReadFault

inductive SettingsError where
  | unreadable (path : String) (fault : ReadFault)
  /-- The text is no TOML, or holds other fields or other types than settings do. -/
  | malformed
  | invalid (reason : String)
  deriving DecidableEq

namespace SettingsError

def message : SettingsError → String
  | .unreadable path fault => s!"failed to read config file {path}: {fault.message}"
  | .malformed => "failed to parse config"
  | .invalid reason => s!"invalid config: {reason}"

def cause : SettingsError → Option String
  | .unreadable _ fault => some fault.message
  | .malformed | .invalid _ => none

end SettingsError

namespace Settings

/-- The first thing that is wrong, if anything is. -/
def fault? (s : Settings) : Option SettingsFault :=
  if Text.trim s.key.toList = [] then some .blankKey
  else if s.fallbackSecs = 0 then some .noFallback
  else if s.workers = 0 then some .noWorkers
  else if !Binary64.le (Binary64.ofNat 1) s.retry.multiplier then some .shrinkingBackoff
  else if s.retry.maxAttempts = some 0 then some .noAttempts
  else none

def validate (s : Settings) : Except SettingsError Settings :=
  match s.fault? with
  | some fault => .error (.invalid fault.message)
  | none => .ok s

/-- The constants of a chain with these settings. -/
def policy (s : Settings) : ChainPolicy := ⟨⟨s.key⟩, ⟨s.fallbackSecs⟩⟩

def backoff (s : Settings) : Backoff := s.retry.backoff

end Settings

end PacedChain
