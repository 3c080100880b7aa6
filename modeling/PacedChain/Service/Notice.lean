import PacedChain.Clock
import PacedChain.Named

/-!
# Notices

The status entry that stays up while the service runs, and the channel that it is posted on.
-/
namespace PacedChain

inductive Importance where
  | min
  | low
  | default
  deriving DecidableEq

instance : Named Importance where
  all := [.min, .low, .default]
  text
    | .min => "min"
    | .low => "low"
    | .default => "default"

structure ChannelSpec where
  id : String
  name : String
  description : String
  importance : Importance
  showBadge : Bool
  deriving DecidableEq

/-- A quiet channel for the status of something in the background. -/
def ChannelSpec.background (id name : String) : ChannelSpec :=
  ⟨id, name, s!"{name} status", .min, false⟩

structure Notice where
  title : String
  text : String
  ongoing : Bool
  onlyAlertOnce : Bool
  deriving DecidableEq

/-- An entry that stays up and alerts at most once. -/
def Notice.lasting (title text : String) : Notice := ⟨title, text, true, true⟩

inductive ServiceError where
  | loop (reason : String)
  | channel (reason : String)
  | spawn (reason : String)
  /-- The loop before has not ended within this time. -/
  | stillStopping (grace : Nat)
  deriving DecidableEq

namespace ServiceError

def message : ServiceError → String
  | .loop reason => s!"native loop failed: {reason}"
  | .channel reason => s!"status channel failed: {reason}"
  | .spawn reason => s!"failed to spawn loop thread: {reason}"
  | .stillStopping grace => s!"previous loop did not exit within {Clock.durationText grace}"

def cause : ServiceError → Option String
  | .spawn reason => some reason
  | _ => none

end ServiceError

end PacedChain
