import KernelResources.Param
import KernelResources.Fault

-- Page boundaries. Rounding up adds a whole page before it cuts, so it refuses the last page of the
-- address space altogether, the boundary at its start included; `nextMultiple` accepts that boundary.

namespace KernelResources.Page

def roundDown (address : Nat) : Nat := address / pageSize * pageSize

-- The page boundary at or above `address`, while `address + pageSize` is a word.
def roundUp (address : Nat) : Except WordFault Nat := do
  let sum ← addWord address pageSize
  return roundDown (sum - 1)

def nextMultiple (address : Nat) : Except WordFault Nat :=
  if address % pageSize = 0 then .ok address else addWord address (pageSize - address % pageSize)

theorem roundDown_le (address : Nat) : roundDown address ≤ address :=
  Nat.div_mul_le_self address pageSize

theorem lt_roundDown_add (address : Nat) : address < roundDown address + pageSize := by
  unfold roundDown pageSize
  omega

theorem roundDown_mod (address : Nat) : roundDown address % pageSize = 0 := by
  simp [roundDown]

end KernelResources.Page
