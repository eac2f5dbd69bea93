import KernelResources.Task

namespace KernelResources

inductive Refusal where
  | noHandle (name : String)
  | handleInUse (name : String)
  | noPin (name : String)
  | pinInUse (name : String)
  | notInRam
  | outsidePage
  | outsideBlock
  | outsideRange
  | nullAddress
  | noSuchSlot
  | taskBlocked (task : TaskId)
  | guardsExist
  | wouldSpin
  | noCell
  deriving DecidableEq, Repr

def Refusal.message : Refusal → String
  | .noHandle name => s!"no handle {name}"
  | .handleInUse name => s!"handle {name} in use"
  | .noPin name => s!"no pin {name}"
  | .pinInUse name => s!"pin {name} in use"
  | .notInRam => "not in ram"
  | .outsidePage => "outside the page"
  | .outsideBlock => "outside the block"
  | .outsideRange => "outside the range"
  | .nullAddress => "null"
  | .noSuchSlot => "no such slot"
  | .taskBlocked task => s!"task {task.id} is blocked"
  | .guardsExist => "guards exist"
  | .wouldSpin => "would spin"
  | .noCell => "no cell"

-- The five ways a request ends. `rejected` is an answer to the caller; `halted` is the end of the
-- calling operation, which leaves behind whatever it had changed; `asleep` is no end yet.
inductive Outcome (Error Fault α : Type) where
  | done (value : α)
  | rejected (error : Error)
  | halted (fault : Fault)
  | refused (why : Refusal)
  | asleep

namespace Outcome

variable {Error Fault α β : Type}

def map (f : α → β) : Outcome Error Fault α → Outcome Error Fault β
  | .done value => .done (f value)
  | .rejected error => .rejected error
  | .halted fault => .halted fault
  | .refused why => .refused why
  | .asleep => .asleep

def ofExcept : Except Error α → Outcome Error Fault α
  | .ok value => .done value
  | .error error => .rejected error

def ofRun : Except Fault α → Outcome Error Fault α
  | .ok value => .done value
  | .error fault => .halted fault

end Outcome

end KernelResources
