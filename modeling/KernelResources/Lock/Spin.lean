import KernelResources.Outcome
import KernelResources.Registry
import KernelResources.Text.Quoted
import KernelResources.Text.Record

-- Spin locks: a flag in front of a value. Whoever finds the flag up would spin, so a single thread only
-- ever asks when it is down.

namespace KernelResources

structure SpinLock (α : Type) where
  name : String
  locked : Bool
  value : α

namespace SpinLock

variable {α : Type}

def named (name : String) (value : α) : SpinLock α := ⟨name, false, value⟩

def unnamed (value : α) : SpinLock α := named "spinlock" value

def tryLock (lock : SpinLock α) : Bool × SpinLock α :=
  if lock.locked then (false, lock) else (true, { lock with locked := true })

def unlock (lock : SpinLock α) : SpinLock α := { lock with locked := false }

def update (lock : SpinLock α) (f : α → α) : SpinLock α := { lock with value := f lock.value }

def record (lock : SpinLock α) : String :=
  Text.openRecord "SpinLock" [("name", Text.quoted lock.name), ("locked", Text.boolText lock.locked)]

end SpinLock

namespace SpinLock.Client

structure State where
  lock : SpinLock Int64
  guards : Registry String Unit

def start (name : Option String) (value : Int64) : State :=
  match name with
  | some name => ⟨.named name value, []⟩
  | none => ⟨.unnamed value, []⟩

inductive Event where
  | lock (name : String)
  | tryLock (name : String)
  | add (n : Int64)
  -- The value is set, and then a fault ends the critical section.
  | setAndFault (n : Int64) (message : String)
  | replace (n : Int64)
  | addUnder (name : String) (n : Int64)
  | valueUnder (name : String)
  | lockName (name : String)
  | drop (name : String)
  -- Another thread tries once, then spins until the guard is gone, and adds.
  | contend (name : String) (n : Int64)
  | name
  | record
  deriving Repr

inductive Answer where
  | unit
  | flag (b : Bool)
  | number (n : Int64)
  | text (s : String)
  | contention (tried : Bool) (n : Int64)
  deriving DecidableEq, Repr

structure SectionFault where
  message : String
  deriving DecidableEq, Repr

abbrev Reply := Outcome Empty SectionFault Answer

namespace State

def unlocked (s : State) (f : Unit → Reply × State) : Reply × State :=
  if s.lock.locked then (.refused .wouldSpin, s) else f ()

def withGuard (s : State) (name : String) (f : Unit → Reply × State) : Reply × State :=
  match s.guards.find? name with
  | some _ => f ()
  | none => (.refused (.noHandle name), s)

def take (s : State) (name : String) : Bool × State :=
  match s.lock.tryLock with
  | (true, lock) => (true, ⟨lock, s.guards.put name ()⟩)
  | (false, lock) => (false, { s with lock })

def drop (s : State) (name : String) : State := ⟨s.lock.unlock, s.guards.erase name⟩

def set (s : State) (f : Int64 → Int64) : State := { s with lock := s.lock.update f }

def advance (s : State) : Event → Reply × State
  | .lock name => s.unlocked fun _ => (.done .unit, (s.take name).2)
  | .tryLock name => let (taken, s) := s.take name; (.done (.flag taken), s)
  | .add n => s.unlocked fun _ =>
      let s := s.set (· + n)
      (.done (.number s.lock.value), s)
  | .setAndFault n message => s.unlocked fun _ => (.halted ⟨message⟩, s.set fun _ => n)
  | .replace n => s.unlocked fun _ =>
      let s := s.set fun _ => n
      (.done (.number s.lock.value), s)
  | .addUnder name n => s.withGuard name fun _ =>
      let s := s.set (· + n)
      (.done (.number s.lock.value), s)
  | .valueUnder name => s.withGuard name fun _ => (.done (.number s.lock.value), s)
  | .lockName name => s.withGuard name fun _ => (.done (.text s.lock.name), s)
  | .drop name => s.withGuard name fun _ => (.done .unit, s.drop name)
  | .contend name n => s.withGuard name fun _ =>
      let tried := s.lock.tryLock.1
      let s := (s.drop name).set (· + n)
      (.done (.contention tried s.lock.value), s)
  | .name => (.done (.text s.lock.name), s)
  | .record => (.done (.text s.lock.record), s)

end State

end SpinLock.Client

end KernelResources
