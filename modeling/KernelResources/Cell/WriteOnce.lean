import KernelResources.Outcome

-- Write-once cells: empty until the first value, which stays. A later value is handed back.

namespace KernelResources

structure WriteOnce (α : Type) where
  value : Option α
  deriving DecidableEq, Repr

namespace WriteOnce

variable {α : Type}

def empty : WriteOnce α := ⟨none⟩

def get? (cell : WriteOnce α) : Option α := cell.value

def isInitialized (cell : WriteOnce α) : Bool := cell.value.isSome

def tryInit (cell : WriteOnce α) (value : α) : Except α (WriteOnce α) :=
  match cell.value with
  | none => .ok ⟨some value⟩
  | some _ => .error value

theorem tryInit_ok {cell next : WriteOnce α} {value : α} :
    cell.tryInit value = .ok next ↔ cell = empty ∧ next = ⟨some value⟩ := by
  obtain ⟨held⟩ := cell
  cases held <;> simp [tryInit, empty, eq_comm]

theorem tryInit_error {cell : WriteOnce α} {value back : α} :
    cell.tryInit value = .error back ↔ cell.isInitialized = true ∧ back = value := by
  obtain ⟨held⟩ := cell
  cases held <;> simp [tryInit, isInitialized, eq_comm]

end WriteOnce

namespace WriteOnce.Owner

structure State where
  cell : Option (WriteOnce String)
  drops : Nat

def start : State := ⟨some .empty, 0⟩

inductive Event where
  | tryInit (value : String)
  | get
  | drop
  | renew
  deriving Repr

abbrev Reply := Outcome String Empty (Option String)

namespace State

def dropped (s : State) : Nat :=
  match s.cell with
  | some ⟨some _⟩ => s.drops + 1
  | _ => s.drops

def withCell (s : State) (f : WriteOnce String → Reply × State) : Reply × State :=
  match s.cell with
  | some cell => f cell
  | none => (.refused .noCell, s)

def advance (s : State) : Event → Reply × State
  | .tryInit value => s.withCell fun cell =>
      match cell.tryInit value with
      | .ok cell => (.done cell.get?, { s with cell := some cell })
      | .error back => (.rejected back, { s with drops := s.drops + 1 })
  | .get => s.withCell fun cell => (.done cell.get?, s)
  | .drop => s.withCell fun _ => (.done none, ⟨none, s.dropped⟩)
  | .renew => (.done none, ⟨some .empty, s.dropped⟩)

end State

end WriteOnce.Owner

end KernelResources
