/-!
# Named values

Types of finitely many values that are written by name.
-/
namespace PacedChain

class Named (α : Type) where
  all : List α
  text : α → String

namespace Named

variable {α : Type} [Named α]

def parse? (name : String) : Option α := all.find? (text · == name)

end Named

end PacedChain
