-- Faults of machine words and tables. An operation that would leave the 64-bit word or the bounds of a
-- table stops there; what it changed before stays changed.

namespace KernelResources

-- Addresses and sizes are numbers below this one.
def wordLimit : Nat := UInt64.size

inductive WordFault where
  | addOverflow
  | subOverflow
  | outOfBounds (length index : Nat)
  deriving DecidableEq, Repr

def WordFault.message : WordFault → String
  | .addOverflow => "attempt to add with overflow"
  | .subOverflow => "attempt to subtract with overflow"
  | .outOfBounds length index => s!"index out of bounds: the len is {length} but the index is {index}"

def addWord (a b : Nat) : Except WordFault Nat :=
  if a + b < wordLimit then .ok (a + b) else .error .addOverflow

def predWord : Nat → Except WordFault Nat
  | 0 => .error .subOverflow
  | k + 1 => .ok k

def position (length index : Nat) : Except WordFault (Fin length) :=
  if inside : index < length then .ok ⟨index, inside⟩ else .error (.outOfBounds length index)

theorem addWord_ok {a b c : Nat} : addWord a b = .ok c ↔ a + b < wordLimit ∧ c = a + b := by
  unfold addWord
  split
  · simp_all [eq_comm]
  · simp
    omega

theorem addWord_error {a b : Nat} {fault : WordFault} :
    addWord a b = .error fault ↔ wordLimit ≤ a + b ∧ fault = .addOverflow := by
  unfold addWord
  split
  · rename_i small
    simp [Nat.not_le.mpr small]
  · rename_i large
    simp [Nat.not_lt.mp large, eq_comm]

theorem position_ok {length index : Nat} {i : Fin length} :
    position length index = .ok i ↔ index = i.val := by
  unfold position
  split
  · simp [Fin.ext_iff]
  · simp
    intro same
    have := i.isLt
    omega

theorem position_error {length index : Nat} {fault : WordFault} :
    position length index = .error fault ↔ length ≤ index ∧ fault = .outOfBounds length index := by
  unfold position
  split
  · rename_i inside
    simp [Nat.not_le.mpr inside]
  · rename_i outside
    simp [Nat.not_lt.mp outside, eq_comm]

end KernelResources
