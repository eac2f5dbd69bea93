import KernelResources.Entries
import KernelResources.Lock.Sleep
import KernelResources.Outcome
import KernelResources.Registry

-- Tasks that share several sleep locks over texts. A task that falls asleep stays inside its call until
-- it gets the lock; until then it can make no other.

namespace KernelResources

-- A `lock` call that sleeps: where, under which name its guard will go, and what it will append.
structure SleepingCall (n : Nat) where
  lock : Fin n
  name : String
  suffix : String

structure SleepRoom (n : Nat) where
  locks : Vector (SleepLock String) n
  guards : Registry String (Fin n)
  asleep : Registry TaskId (SleepingCall n)

namespace SleepRoom

variable {n : Nat}

def start (names : Vector String n) : SleepRoom n :=
  ⟨names.map fun name => .named name "", [], []⟩

inductive Event (n : Nat) where
  | lock (lock : Fin n) (name suffix : String)
  | tryLock (lock : Fin n) (name : String)
  | drop (name : String)
  -- The guard is gone, and its lock stays taken for good.
  | forget (name : String)
  | heldByCurrent (name : String)
  | append (name suffix : String)
  | get (name : String)
  | lockName (name : String)
  | holding (lock : Fin n)
  | holder (lock : Fin n)
  | record (lock : Fin n)
  | name (lock : Fin n)
  -- Needs the lock to itself: no guard, and nobody asleep.
  | replace (lock : Fin n) (data : String)
  deriving Repr

inductive Answer where
  | unit
  | flag (b : Bool)
  | text (s : String)
  | task (t : Option TaskId)
  deriving DecidableEq, Repr

abbrev Reply := Outcome Empty Empty Answer

def update (r : SleepRoom n) (lock : Fin n) (f : SleepLock String → SleepLock String) :
    SleepRoom n :=
  { r with locks := r.locks.set lock (f r.locks[lock]) lock.isLt }

def isAsleep (r : SleepRoom n) (task : TaskId) : Bool := r.asleep.contains task

def finish (r : SleepRoom n) (call : SleepingCall n) : SleepRoom n :=
  let r := r.update call.lock fun lock => lock.setData (lock.data ++ call.suffix)
  { r with guards := r.guards.put call.name call.lock }

def enter (r : SleepRoom n) (task : TaskId) (call : SleepingCall n) : Bool × SleepRoom n :=
  match r.locks[call.lock].enter task with
  | (true, lock) => (true, { r with locks := r.locks.set call.lock lock call.lock.isLt }.finish call)
  | (false, lock) =>
    (false, { r with locks := r.locks.set call.lock lock call.lock.isLt, asleep := r.asleep.put task call })

def resume (r : SleepRoom n) (task : TaskId) : Bool × SleepRoom n :=
  match r.asleep.find? task with
  | some call => { r with asleep := r.asleep.erase task }.enter task call
  | none => (false, r)

def resumeAll : List TaskId → SleepRoom n → List (TaskId × Bool) × SleepRoom n
  | [], r => ([], r)
  | task :: rest, r =>
    let (taken, r) := r.resume task
    let (woken, r) := resumeAll rest r
    ((task, taken) :: woken, r)

def leave (r : SleepRoom n) (lock : Fin n) : List (TaskId × Bool) × SleepRoom n :=
  let (sleepers, left) := r.locks[lock].leave.wake
  { r with locks := r.locks.set lock left lock.isLt }.resumeAll sleepers

def withGuard (r : SleepRoom n) (name : String)
    (f : Fin n → Reply × List (TaskId × Bool) × SleepRoom n) :
    Reply × List (TaskId × Bool) × SleepRoom n :=
  match r.guards.find? name with
  | some lock => f lock
  | none => (.refused (.noHandle name), [], r)

def advance (r : SleepRoom n) (task : TaskId) : Event n → Reply × List (TaskId × Bool) × SleepRoom n
  | .lock lock name suffix =>
    match r.guards.find? name with
    | some _ => (.refused (.handleInUse name), [], r)
    | none => match r.enter task ⟨lock, name, suffix⟩ with
      | (true, r) => (.done .unit, [], r)
      | (false, r) => (.asleep, [], r)
  | .tryLock lock name =>
    match r.guards.find? name with
    | some _ => (.refused (.handleInUse name), [], r)
    | none => match r.locks[lock].tryLock task with
      | (true, taken) =>
        (.done (.flag true), [],
          { r with locks := r.locks.set lock taken lock.isLt, guards := r.guards.put name lock })
      | (false, _) => (.done (.flag false), [], r)
  | .drop name => r.withGuard name fun lock =>
      let (woken, r) := { r with guards := r.guards.erase name }.leave lock
      (.done .unit, woken, r)
  | .forget name => r.withGuard name fun _ =>
      (.done .unit, [], { r with guards := r.guards.erase name })
  | .heldByCurrent name => r.withGuard name fun lock =>
      (.done (.flag (r.locks[lock].heldBy task)), [], r)
  | .append name suffix => r.withGuard name fun lock =>
      let r := r.update lock fun lock => lock.setData (lock.data ++ suffix)
      (.done (.text r.locks[lock].data), [], r)
  | .get name => r.withGuard name fun lock => (.done (.text r.locks[lock].data), [], r)
  | .lockName name => r.withGuard name fun lock => (.done (.text r.locks[lock].name), [], r)
  | .holding lock => (.done (.flag (r.locks[lock].heldBy task)), [], r)
  | .holder lock => (.done (.task r.locks[lock].holder), [], r)
  | .record lock => (.done (.text r.locks[lock].record), [], r)
  | .name lock => (.done (.text r.locks[lock].name), [], r)
  | .replace lock data =>
    if r.guards.isEmpty && r.asleep.isEmpty then
      (.done .unit, [], r.update lock (·.setData data))
    else (.refused .guardsExist, [], r)

def step (r : SleepRoom n) (task : TaskId) (event : Event n) :
    Reply × List (TaskId × Bool) × SleepRoom n :=
  if r.isAsleep task then (.refused (.taskBlocked task), [], r) else r.advance task event

def blocked (r : SleepRoom n) : List TaskId :=
  r.asleep.keys.mergeSort fun a b => a.id ≤ b.id

def holders (r : SleepRoom n) : List (Option TaskId) := r.locks.toList.map (·.holder)

end SleepRoom

end KernelResources
