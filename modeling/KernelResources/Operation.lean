import KernelResources.Interrupts
import KernelResources.Task

-- Running operations: what an operation changes, what it does on the way, and the two scopes it works
-- in. A scope is left on every way out of it, also by a fault, and what was changed before a fault stays
-- changed.

namespace KernelResources

inductive Effect (Lock Act : Type) where
  | mask
  | unmask
  | acquire (lock : Lock)
  | release (lock : Lock)
  | act (what : Act)
  deriving DecidableEq, Repr

-- An operation in progress: who runs it where, its effects so far with the newest first, and the
-- state it works on.
structure Execution (Lock Act State : Type) where
  task : TaskId
  cpu : Processor
  past : List (Effect Lock Act)
  state : State

inductive Deed (Lock Act State : Type) where
  | effect (what : Effect Lock Act)
  | change (state : State)

namespace Execution

variable {Lock Act State : Type}

def start (task : TaskId) (cpu : Processor) (state : State) : Execution Lock Act State :=
  ⟨task, cpu, [], state⟩

def note (e : Execution Lock Act State) (effect : Effect Lock Act) : Execution Lock Act State :=
  { e with past := effect :: e.past }

def mask (e : Execution Lock Act State) : Execution Lock Act State :=
  { e with cpu := e.cpu.mask, past := .mask :: e.past }

def unmask (e : Execution Lock Act State) : Execution Lock Act State :=
  { e with cpu := e.cpu.unmask, past := .unmask :: e.past }

def takeGuard (e : Execution Lock Act State) : Interrupts.Guard × Execution Lock Act State :=
  Interrupts.Guard.take (·.cpu.enabled) mask e

def dropGuard (e : Execution Lock Act State) (guard : Interrupts.Guard) :
    Execution Lock Act State :=
  guard.drop unmask e

def after (e : Execution Lock Act State) : Deed Lock Act State → Execution Lock Act State
  | .effect .mask => e.mask
  | .effect .unmask => e.unmask
  | .effect what => e.note what
  | .change state => { e with state }

def along (e : Execution Lock Act State) (deeds : List (Deed Lock Act State)) :
    Execution Lock Act State :=
  deeds.foldl after e

def walk (e : Execution Lock Act State) :
    List (Deed Lock Act State) → List (Execution Lock Act State × Deed Lock Act State)
  | [] => []
  | deed :: rest => (e, deed) :: (e.after deed).walk rest

variable (e : Execution Lock Act State) (first later : List (Deed Lock Act State))

theorem along_append : e.along (first ++ later) = (e.along first).along later := List.foldl_append

theorem walk_append : e.walk (first ++ later) = e.walk first ++ (e.along first).walk later := by
  induction first generalizing e with
  | nil => rfl
  | cons deed first ih => exact congrArg ((e, deed) :: ·) (ih (e.after deed))

end Execution

-- Ends with a value or a fault, and either way with the execution as it left it. What it does on the way
-- is on record, deed by deed, and comes to just that execution.
structure Operation (Lock Act State Fault α : Type) where
  run : Execution Lock Act State → Except Fault α × Execution Lock Act State
  deeds : Execution Lock Act State → List (Deed Lock Act State)
  leads : ∀ e, e.along (deeds e) = (run e).2

variable {Lock Act State Fault α β : Type}

namespace Effect

def acts (past : List (Effect Lock Act)) : List Act :=
  past.reverse.filterMap fun
    | .act what => some what
    | _ => none

def masks (past : List (Effect Lock Act)) : Nat :=
  past.countP fun
    | .mask => true
    | _ => false

def unmasks (past : List (Effect Lock Act)) : Nat :=
  past.countP fun
    | .unmask => true
    | _ => false

end Effect

namespace Operation

def trail (op : Operation Lock Act State Fault α) (e : Execution Lock Act State) :
    List (Execution Lock Act State × Deed Lock Act State) :=
  e.walk (op.deeds e)

instance : Monad (Operation Lock Act State Fault) where
  pure value := ⟨fun e => (.ok value, e), fun _ => [], fun _ => rfl⟩
  bind op next := {
    run := fun e =>
      match op.run e with
      | (.ok value, e) => (next value).run e
      | (.error fault, e) => (.error fault, e)
    deeds := fun e => op.deeds e ++
      match op.run e with
      | (.ok value, e) => (next value).deeds e
      | (.error _, _) => []
    leads := fun e => by
      rw [Execution.along_append, op.leads]
      obtain ⟨result, e⟩ := op.run e
      cases result with
      | ok value => exact (next value).leads e
      | error fault => rfl }

-- A handler goes on from where the fault left off; nothing is undone.
instance : MonadExceptOf Fault (Operation Lock Act State Fault) where
  throw fault := ⟨fun e => (.error fault, e), fun _ => [], fun _ => rfl⟩
  tryCatch op handler := {
    run := fun e =>
      match op.run e with
      | (.ok value, e) => (.ok value, e)
      | (.error fault, e) => (handler fault).run e
    deeds := fun e => op.deeds e ++
      match op.run e with
      | (.ok _, _) => []
      | (.error fault, e) => (handler fault).deeds e
    leads := fun e => by
      rw [Execution.along_append, op.leads]
      obtain ⟨result, e⟩ := op.run e
      cases result with
      | ok value => rfl
      | error fault => exact (handler fault).leads e }

protected def ofExcept : Except Fault α → Operation Lock Act State Fault α
  | .ok value => pure value
  | .error fault => throw fault

def leaving (body : Operation Lock Act State Fault α) (leave : Operation Lock Act State Fault Unit) :
    Operation Lock Act State Fault α where
  run e :=
    let (result, e) := body.run e
    (result, (leave.run e).2)
  deeds e := body.deeds e ++ leave.deeds (body.run e).2
  leads e := by rw [Execution.along_append, body.leads, leave.leads]

def takeGuard : Operation Lock Act State Fault Interrupts.Guard where
  run e :=
    let (guard, e) := e.takeGuard
    (.ok guard, e)
  deeds e := if e.cpu.enabled then [.effect .mask] else []
  leads e := by
    unfold Execution.takeGuard Interrupts.Guard.take
    split <;> rfl

def dropGuard (guard : Interrupts.Guard) : Operation Lock Act State Fault Unit where
  run e := (.ok (), e.dropGuard guard)
  deeds _ := if guard.wereEnabled then [.effect .unmask] else []
  leads e := by
    unfold Execution.dropGuard Interrupts.Guard.drop
    split <;> rfl

def takeLocks (locks : List Lock) : Operation Lock Act State Fault Unit where
  run e := (.ok (), locks.foldl (fun e lock => e.note (.acquire lock)) e)
  deeds _ := locks.map fun lock => .effect (.acquire lock)
  leads _ := List.foldl_map

def giveLocks (locks : List Lock) : Operation Lock Act State Fault Unit where
  run e := (.ok (), locks.foldl (fun e lock => e.note (.release lock)) e)
  deeds _ := locks.map fun lock => .effect (.release lock)
  leads _ := List.foldl_map

def masked (body : Operation Lock Act State Fault α) : Operation Lock Act State Fault α := do
  let guard ← takeGuard
  body.leaving (dropGuard guard)

def holdingAll (locks : List Lock) (body : Operation Lock Act State Fault α) :
    Operation Lock Act State Fault α := do
  takeLocks locks
  body.leaving (giveLocks locks)

def holding (lock : Lock) (body : Operation Lock Act State Fault α) :
    Operation Lock Act State Fault α := body.holdingAll [lock]

def act (what : Act) : Operation Lock Act State Fault Unit where
  run e := (.ok (), e.note (.act what))
  deeds _ := [.effect (.act what)]
  leads _ := rfl

def view (f : State → α) : Operation Lock Act State Fault α where
  run e := (.ok (f e.state), e)
  deeds _ := []
  leads _ := rfl

def attempt (f : State → Except Fault α × State) : Operation Lock Act State Fault α where
  run := fun ⟨task, cpu, past, state⟩ =>
    let (result, state) := f state
    (result, ⟨task, cpu, past, state⟩)
  deeds e := [.change (f e.state).2]
  leads _ := rfl

def work (f : State → α × State) : Operation Lock Act State Fault α where
  run := fun ⟨task, cpu, past, state⟩ =>
    let (value, state) := f state
    (.ok value, ⟨task, cpu, past, state⟩)
  deeds e := [.change (f e.state).2]
  leads _ := rfl

def change (f : State → State) : Operation Lock Act State Fault Unit where
  run := fun ⟨task, cpu, past, state⟩ => (.ok (), ⟨task, cpu, past, f state⟩)
  deeds e := [.change (f e.state)]
  leads _ := rfl

def currentTask : Operation Lock Act State Fault TaskId where
  run e := (.ok e.task, e)
  deeds _ := []
  leads _ := rfl

def processor : Operation Lock Act State Fault Processor where
  run e := (.ok e.cpu, e)
  deeds _ := []
  leads _ := rfl

section Running

variable (e : Execution Lock Act State)

@[simp] theorem run_pure (value : α) :
    (pure value : Operation Lock Act State Fault α).run e = (.ok value, e) := rfl

@[simp] theorem run_bind (op : Operation Lock Act State Fault α)
    (next : α → Operation Lock Act State Fault β) :
    (op >>= next).run e =
      match op.run e with
      | (.ok value, e) => (next value).run e
      | (.error fault, e) => (.error fault, e) := rfl

@[simp] theorem run_throw (fault : Fault) :
    (throw fault : Operation Lock Act State Fault α).run e = (.error fault, e) := rfl

@[simp] theorem run_tryCatch (op : Operation Lock Act State Fault α)
    (handler : Fault → Operation Lock Act State Fault α) :
    (tryCatch op handler).run e =
      match op.run e with
      | (.ok value, e) => (.ok value, e)
      | (.error fault, e) => (handler fault).run e := rfl

@[simp] theorem run_ofExcept (result : Except Fault α) :
    (.ofExcept result : Operation Lock Act State Fault α).run e = (result, e) := by
  cases result <;> rfl

@[simp] theorem run_leaving (body : Operation Lock Act State Fault α)
    (leave : Operation Lock Act State Fault Unit) :
    (body.leaving leave).run e = ((body.run e).1, (leave.run (body.run e).2).2) := rfl

@[simp] theorem run_masked (body : Operation Lock Act State Fault α) :
    body.masked.run e =
      ((body.run e.takeGuard.2).1, (body.run e.takeGuard.2).2.dropGuard e.takeGuard.1) := rfl

@[simp] theorem run_holding (lock : Lock) (body : Operation Lock Act State Fault α) :
    (body.holding lock).run e =
      ((body.run (e.note (.acquire lock))).1,
        (body.run (e.note (.acquire lock))).2.note (.release lock)) := rfl

@[simp] theorem run_act (what : Act) :
    (act what : Operation Lock Act State Fault Unit).run e = (.ok (), e.note (.act what)) := rfl

@[simp] theorem run_view (f : State → α) :
    (view f : Operation Lock Act State Fault α).run e = (.ok (f e.state), e) := rfl

@[simp] theorem run_attempt (f : State → Except Fault α × State) :
    (attempt f : Operation Lock Act State Fault α).run e =
      ((f e.state).1, { e with state := (f e.state).2 }) := rfl

@[simp] theorem run_work (f : State → α × State) :
    (work f : Operation Lock Act State Fault α).run e =
      (.ok (f e.state).1, { e with state := (f e.state).2 }) := rfl

@[simp] theorem run_change (f : State → State) :
    (change f : Operation Lock Act State Fault Unit).run e =
      (.ok (), { e with state := f e.state }) := rfl

@[simp] theorem run_currentTask :
    (currentTask : Operation Lock Act State Fault TaskId).run e = (.ok e.task, e) := rfl

@[simp] theorem run_processor :
    (processor : Operation Lock Act State Fault Processor).run e = (.ok e.cpu, e) := rfl

end Running

end Operation

end KernelResources
