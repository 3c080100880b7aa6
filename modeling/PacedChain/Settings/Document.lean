import PacedChain.Settings.Basic
import PacedChain.Toml.Document

/-!
# Settings from documents

Settings are kept as a TOML document. Every field may be left out and then has its standard value,
and there are no other fields. The retry settings are a table, or an array of their fields in order.
-/
namespace PacedChain

namespace Toml.Value

/-- A natural number of at most so many bits. -/
def natural? (bits : Nat) : Value → Option Nat
  | .integer n => if 0 ≤ n ∧ n < Nat.pow 2 bits then some n.toNat else none
  | _ => none

/-- A double; an integer is rounded to one. -/
def double? : Value → Option Binary64
  | .float x => some x
  | .integer n => some (Binary64.ofInt n)
  | _ => none

end Toml.Value

namespace RetrySettings

def fieldNames : List String := ["base_delay_secs", "multiplier", "max_delay_secs", "max_attempts"]

/-- Settings with one field given. -/
def withField (r : RetrySettings) (field : String × Toml.Value) : Option RetrySettings :=
  match field.1 with
  | "base_delay_secs" => (field.2.natural? 64).map fun n => { r with baseSecs := n }
  | "multiplier" => field.2.double?.map fun x => { r with multiplier := x }
  | "max_delay_secs" => (field.2.natural? 64).map fun n => { r with maxSecs := n }
  | "max_attempts" => (field.2.natural? 32).map fun n => { r with maxAttempts := some n }
  | _ => none

def ofToml? : Toml.Value → Option RetrySettings
  | .table _ entries => entries.foldlM withField standard
  | .array items => (fieldNames.zip items).foldlM withField standard
  | _ => none

end RetrySettings

namespace Settings

/-- Settings with one field given. -/
def withField (s : Settings) (field : String × Toml.Value) : Option Settings :=
  match field with
  | ("dedup_key", .text key) => some { s with key }
  | ("fallback_delay_secs", value) => (value.natural? 64).map fun n => { s with fallbackSecs := n }
  | ("workers", value) => (value.natural? 64).map fun n => { s with workers := n }
  | ("history_limit", value) => (value.natural? 64).map fun n => { s with historyLimit := n }
  | ("retry", value) => (RetrySettings.ofToml? value).map fun r => { s with retry := r }
  | _ => none

/-- The settings that a document holds, whether they are valid or not. -/
def ofToml? (entries : Toml.Entries) : Option Settings := entries.foldlM withField {}

/-- The valid settings that a text holds. -/
def parse (text : String) : Except SettingsError Settings :=
  match (Toml.parse text).bind ofToml? with
  | some settings => settings.validate
  | none => .error .malformed

/-- The valid settings that are kept at a path, where the given bytes have been found. -/
def ofFile (path : String) (found : Except ReadFault ByteArray) : Except SettingsError Settings :=
  match found with
  | .error fault => .error (.unreadable path fault)
  | .ok bytes =>
    match String.fromUTF8? bytes with
    | some text => parse text
    | none => .error (.unreadable path .undecodable)

end Settings

end PacedChain
