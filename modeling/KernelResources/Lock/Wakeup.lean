-- How a sleeper and the task that gives a sleep lock up meet, one atomic step of one task at a time.
-- Each lock has a record of its holder behind a short spin lock of its own. All sleepers wait in one
-- place behind one mutex, which also guards a generation for each lock. A sleeper notes the generation
-- under the mutex before it lets go of the record, and waits until the generation has moved; whoever
-- gives the lock up first clears the record and then moves the generation.

namespace KernelResources.Wakeup

inductive Phase (Lock : Type) where
  | outside
  -- Wants the record to look at it.
  | arriving (lock : Lock)
  -- Has the record.
  | looking (lock : Lock)
  -- Has the record and the lock.
  | taken (lock : Lock)
  -- Has the record and wants the mutex.
  | queueing (lock : Lock)
  -- Has both.
  | noted (lock : Lock) (seen : Nat)
  -- Has the mutex.
  | checking (lock : Lock) (seen : Nat)
  -- Waits, with the mutex given back in the same step.
  | waiting (lock : Lock) (seen : Nat) (notified : Bool)
  -- Woken, and wants the mutex back.
  | waking (lock : Lock) (seen : Nat)
  -- Asks once, without waiting for the lock: wants the record, and has it.
  | trying (lock : Lock)
  | glancing (lock : Lock)
  -- Has found the lock taken, and still has the record.
  | refused (lock : Lock)
  -- Gives the lock up: wants the record, has it, has cleared it.
  | leaving (lock : Lock)
  | clearing (lock : Lock)
  | cleared (lock : Lock)
  -- Wants the mutex, has it, has moved the generation.
  | announcing (lock : Lock)
  | moving (lock : Lock)
  | moved (lock : Lock)
  -- Has still to notify those who wait.
  | notifying (lock : Lock)
  deriving DecidableEq, Repr

namespace Phase

variable {Lock : Type}

def record? : Phase Lock → Option Lock
  | looking l | taken l | queueing l | noted l _ | glancing l | refused l | clearing l | cleared l =>
    some l
  | _ => none

def hasMutex : Phase Lock → Bool
  | noted .. | checking .. | moving _ | moved _ => true
  | _ => false

-- A task that waits hears of the notification; it is told to all, whatever they wait for.
def notify : Phase Lock → Phase Lock
  | waiting l seen _ => waiting l seen true
  | phase => phase

end Phase

structure State (Task Lock : Type) where
  phase : Task → Phase Lock
  holder : Lock → Option Task
  -- Whether the guard of the lock is about, with whichever task.
  guarded : Lock → Bool
  record : Lock → Option Task
  mutex : Option Task
  generation : Lock → Nat

inductive Action (Lock : Type) where
  | lock (lock : Lock)
  | tryLock (lock : Lock)
  -- Any task may drop a guard.
  | drop (lock : Lock)
  | proceed
  -- The wait ends without a notification.
  | stray
  deriving DecidableEq, Repr

namespace State

variable {Task Lock : Type} [DecidableEq Task] [DecidableEq Lock]

def put {Key α : Type} [DecidableEq Key] (f : Key → α) (key : Key) (value : α) : Key → α :=
  fun other => if other = key then value else f other

def start : State Task Lock :=
  ⟨fun _ => .outside, fun _ => none, fun _ => false, fun _ => none, none, fun _ => 0⟩

def go (s : State Task Lock) (t : Task) (phase : Phase Lock) : State Task Lock :=
  { s with phase := put s.phase t phase }

def takeRecord (s : State Task Lock) (t : Task) (l : Lock) (phase : Phase Lock) :
    Option (State Task Lock) :=
  match s.record l with
  | none => some ({ s with record := put s.record l (some t) }.go t phase)
  | some _ => none

def leaveRecord (s : State Task Lock) (l : Lock) : State Task Lock :=
  { s with record := put s.record l none }

def takeMutex (s : State Task Lock) (t : Task) (phase : Phase Lock) : Option (State Task Lock) :=
  match s.mutex with
  | none => some ({ s with mutex := some t }.go t phase)
  | some _ => none

def leaveMutex (s : State Task Lock) : State Task Lock := { s with mutex := none }

-- The next step of a task that is under way, if it need not wait for another task first.
def proceed (s : State Task Lock) (t : Task) : Option (State Task Lock) :=
  match s.phase t with
  | .outside => none
  | .arriving l => s.takeRecord t l (.looking l)
  | .looking l =>
    match s.holder l with
    | none => some ({ s with holder := put s.holder l (some t) }.go t (.taken l))
    | some _ => some (s.go t (.queueing l))
  | .taken l => some ({ s.leaveRecord l with guarded := put s.guarded l true }.go t .outside)
  | .queueing l => s.takeMutex t (.noted l (s.generation l))
  | .noted l seen => some ((s.leaveRecord l).go t (.checking l seen))
  | .checking l seen =>
    if s.generation l = seen then some (s.leaveMutex.go t (.waiting l seen false))
    else some (s.leaveMutex.go t (.arriving l))
  | .waiting l seen notified => if notified then some (s.go t (.waking l seen)) else none
  | .waking l seen => s.takeMutex t (.checking l seen)
  | .trying l => s.takeRecord t l (.glancing l)
  | .glancing l =>
    match s.holder l with
    | none => some ({ s with holder := put s.holder l (some t) }.go t (.taken l))
    | some _ => some (s.go t (.refused l))
  | .refused l => some ((s.leaveRecord l).go t .outside)
  | .leaving l => s.takeRecord t l (.clearing l)
  | .clearing l => some ({ s with holder := put s.holder l none }.go t (.cleared l))
  | .cleared l => some ((s.leaveRecord l).go t (.announcing l))
  | .announcing l => s.takeMutex t (.moving l)
  | .moving l =>
    some ({ s with generation := put s.generation l (s.generation l + 1) }.go t (.moved l))
  | .moved l => some (s.leaveMutex.go t (.notifying l))
  | .notifying _ => some ({ s with phase := fun u => (s.phase u).notify }.go t .outside)

def advance (s : State Task Lock) (t : Task) (action : Action Lock) : Option (State Task Lock) :=
  match action, s.phase t with
  | .lock l, .outside => some (s.go t (.arriving l))
  | .tryLock l, .outside => some (s.go t (.trying l))
  | .drop l, .outside =>
    if s.guarded l then some ({ s with guarded := put s.guarded l false }.go t (.leaving l)) else none
  | .proceed, _ => s.proceed t
  | .stray, .waiting l seen _ => some (s.go t (.waking l seen))
  | _, _ => none

inductive Reached : State Task Lock → Prop where
  | start : Reached start
  | step {s next : State Task Lock} {t : Task} {action : Action Lock} :
      Reached s → s.advance t action = some next → Reached next

end State

end KernelResources.Wakeup
