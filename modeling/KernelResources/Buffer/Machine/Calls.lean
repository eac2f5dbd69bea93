import KernelResources.Buffer.Machine

-- Calls for a buffer. A call that has to wait sleeps inside the cache until the buffer's lock is given
-- up; then everyone asleep on it looks again, in the order in which they fell asleep, within the step
-- that gave it up.

namespace KernelResources.Buffer.Machine

variable {n m : Nat}

def finish (s : Machine n m) (task : TaskId) (call : SleepingCall n m) : Reply × Machine n m :=
  let (loaded, s) :=
    if call.loads then s.run task call.place.cache (Cache.loadOrRelease call.place.slot call.block)
    else (.ok (), s)
  match loaded with
  | .error fault => (.halted fault, s)
  | .ok () =>
    (.done (.buffer (s.infoAt call.place) (s.bytesAt call.place)),
      { s with held := s.held.put call.name call.place })

def enter (s : Machine n m) (task : TaskId) (call : SleepingCall n m) : Reply × Machine n m :=
  match s.run task call.place.cache (Cache.enter call.place.slot) with
  | (.error fault, s) => (.halted fault, s)
  | (.ok true, s) => s.finish task call
  | (.ok false, s) => (.asleep, { s with asleep := s.asleep.put task call })

-- A call for a buffer: it takes its reference first, and then the lock.
def call (s : Machine n m) (task : TaskId) (c : Fin m) (b : BlockId) (loads : Bool)
    (name : String) : Reply × Machine n m :=
  match s.held.find? name with
  | some _ => (.refused (.handleInUse name), s)
  | none =>
    match s.run task c (Cache.claim b) with
    | (.error fault, s) => (.halted fault, s)
    | (.ok i, s) => s.enter task ⟨⟨c, i⟩, b, loads, name⟩

structure Woken where
  task : TaskId
  reply : Reply
  enabled : Bool

def resumeAll : List TaskId → Machine n m → List Woken × Machine n m
  | [], s => ([], s)
  | task :: rest, s =>
    match s.asleep.find? task with
    | none => resumeAll rest s
    | some call =>
      let (reply, s) := { s with asleep := s.asleep.erase task }.enter task call
      let (woken, last) := resumeAll rest s
      (⟨task, reply, (s.cpu task).enabled⟩ :: woken, last)

def released? (s : Machine n m) : Option (Place n m) :=
  s.past.findSome? fun
    | (c, .act (.leavesLock i)) => some ⟨c, i⟩
    | _ => none

def wake (s : Machine n m) : List Woken × Machine n m :=
  match s.released? with
  | none => ([], s)
  | some place =>
    let (sleepers, lock) := (s.slot place).data.wake
    (s.updateSlot place fun slot => { slot with data := lock }).resumeAll sleepers

end KernelResources.Buffer.Machine
