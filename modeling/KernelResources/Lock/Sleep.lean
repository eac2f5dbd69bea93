import KernelResources.Task
import KernelResources.Text.Quoted
import KernelResources.Text.Record

-- Sleep locks. A task that finds the lock taken goes to sleep behind the tasks that sleep there already.
-- When the lock is given up all of them wake in that order, and each looks again: the first takes the
-- lock and the others go back to sleep as they were.

namespace KernelResources

structure SleepLock (α : Type) where
  name : String
  holder : Option TaskId
  -- Longest asleep first.
  sleepers : List TaskId
  data : α

namespace SleepLock

variable {α : Type}

def named (name : String) (data : α) : SleepLock α := ⟨name, none, [], data⟩

def tryLock (lock : SleepLock α) (task : TaskId) : Bool × SleepLock α :=
  match lock.holder with
  | none => (true, { lock with holder := some task })
  | some _ => (false, lock)

def enter (lock : SleepLock α) (task : TaskId) : Bool × SleepLock α :=
  match lock.tryLock task with
  | (true, lock) => (true, lock)
  | (false, lock) => (false, { lock with sleepers := lock.sleepers ++ [task] })

def leave (lock : SleepLock α) : SleepLock α := { lock with holder := none }

def heldBy (lock : SleepLock α) (task : TaskId) : Bool := lock.holder == some task

-- Wakes all sleepers; each has to enter again.
def wake (lock : SleepLock α) : List TaskId × SleepLock α :=
  (lock.sleepers, { lock with sleepers := [] })

def setData (lock : SleepLock α) (data : α) : SleepLock α := { lock with data }

def holderText (holder : Option TaskId) : String :=
  match holder with
  | some task => s!"Some({task.record})"
  | none => "None"

def record (lock : SleepLock α) : String :=
  Text.openRecord "SleepLock"
    [("name", Text.quoted lock.name), ("holder", holderText lock.holder)]

theorem tryLock_taken (lock : SleepLock α) (task : TaskId) :
    (lock.tryLock task).1 = true ↔ lock.holder = none := by
  unfold tryLock
  cases lock.holder <;> simp

theorem enter_taken (lock : SleepLock α) (task : TaskId) :
    (lock.enter task).1 = true ↔ lock.holder = none := by
  unfold enter tryLock
  cases lock.holder <;> simp

end SleepLock

end KernelResources
