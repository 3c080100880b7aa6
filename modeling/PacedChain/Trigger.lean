import PacedChain.Chain.Boundary
import PacedChain.Text.Blank

/-!
# Triggers

The signals of a host that start a chain. Their names are read without the blanks around them, in
either case of the Latin letters, and with hyphens for underscores; two have a short form.
-/
namespace PacedChain

inductive Trigger where
  | bootCompleted
  | serviceInit
  | packageReplaced
  deriving DecidableEq

instance : Named Trigger where
  all := [.bootCompleted, .serviceInit, .packageReplaced]
  text
    | .bootCompleted => "boot_completed"
    | .serviceInit => "service_init"
    | .packageReplaced => "package_replaced"

namespace Trigger

/-- The form of a name that is looked up. -/
def plain (name : String) : String :=
  String.ofList <| (Text.trim name.toList).map fun c => if c = '-' then '_' else c.toLower

def parse (name : String) : Except ChainError Trigger :=
  match plain name with
  | "boot" | "boot_completed" => .ok .bootCompleted
  | "init" | "service_init" => .ok .serviceInit
  | "replaced" | "package_replaced" => .ok .packageReplaced
  | _ => .error (.unknownTrigger name)

end Trigger

end PacedChain
