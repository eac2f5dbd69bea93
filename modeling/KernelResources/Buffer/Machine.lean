import KernelResources.Buffer.Cache
import KernelResources.Outcome
import KernelResources.Registry

-- Tasks that share some caches. Each task runs on a core of its own with its own interrupt flag; buffers
-- and pins are held by name, and any task may use what another holds.

namespace KernelResources.Buffer

structure Place (n m : Nat) where
  cache : Fin m
  slot : Fin n
  deriving DecidableEq, Repr

structure SleepingCall (n m : Nat) where
  place : Place n m
  block : BlockId
  -- Whether the call wants the bytes of the block, or only a buffer for them.
  loads : Bool
  name : String
  deriving DecidableEq, Repr

-- `past` is what the running step has done so far, newest first, and in which cache.
structure Machine (n m : Nat) where
  caches : Vector (Cache n) m
  clock : Clock
  cpus : Registry TaskId Processor
  held : Registry String (Place n m)
  pins : Registry String (Place n m)
  asleep : Registry TaskId (SleepingCall n m)
  past : List (Fin m × Effect PoolLock (Cache.Act n))

namespace Machine

variable {n m : Nat}

structure BufferInfo where
  index : Nat
  block : BlockId
  valid : Bool
  refs : UInt32
  deriving DecidableEq, Repr

inductive Answer where
  | unit
  | buffer (info : BufferInfo) (bytes : Block)
  | info (info : BufferInfo)
  | pinned (index : Nat) (refs : UInt32)
  | pinInfo (index : Nat) (text : String)
  | bytes (bytes : Option Block)
  | text (s : String)
  | flag (b : Bool)
  | number (n : Nat)

abbrev Reply := Outcome AuditError CacheFault Answer

def start (n m : Nat) (disk : Disk) : Machine n m :=
  ⟨Vector.replicate m (.start n disk), .start, [], [], [], [], []⟩

def slot (s : Machine n m) (p : Place n m) : Slot := s.caches[p.cache].pool.slots[p.slot]

def updateCache (s : Machine n m) (c : Fin m) (f : Cache n → Cache n) : Machine n m :=
  { s with caches := s.caches.set c (f s.caches[c]) c.isLt }

def updateSlot (s : Machine n m) (p : Place n m) (f : Slot → Slot) : Machine n m :=
  s.updateCache p.cache fun cache => { cache with pool := cache.pool.updateSlot p.slot f }

def cpu (s : Machine n m) (task : TaskId) : Processor := (s.cpus.find? task).getD .fresh

def setCpu (s : Machine n m) (task : TaskId) (cpu : Processor) : Machine n m :=
  { s with cpus := s.cpus.put task cpu }

def isAsleep (s : Machine n m) (task : TaskId) : Bool := s.asleep.contains task

def absorb (s : Machine n m) (task : TaskId) (c : Fin m)
    (e : Execution PoolLock (Cache.Act n) (Cache n × Clock)) : Machine n m :=
  let s := s.setCpu task e.cpu
  { s with
    caches := s.caches.set c e.state.1 c.isLt
    clock := e.state.2
    past := e.past.map (c, ·) ++ s.past }

def run {α : Type} (s : Machine n m) (task : TaskId) (c : Fin m) (op : Cache.Run n α) :
    Except CacheFault α × Machine n m :=
  let (result, e) := op.run (.start task (s.cpu task) (s.caches[c], s.clock))
  (result, s.absorb task c e)

def report {α : Type} (result : Except CacheFault α × Machine n m) (f : α → Answer) :
    Reply × Machine n m :=
  (.map f (.ofRun result.1), result.2)

def infoAt (s : Machine n m) (p : Place n m) : BufferInfo :=
  let slot := s.slot p
  ⟨p.slot, slot.block, slot.valid, slot.refs⟩

def bytesAt (s : Machine n m) (p : Place n m) : Block := (s.slot p).data.data

open Text in
def BufferInfo.record (i : BufferInfo) : String :=
  openRecord "Buf"
    [("index", toString i.index), ("dev", toString i.block.device),
      ("blockno", toString i.block.number), ("valid", boolText i.valid),
      ("refcnt", toString i.refs)]

def pinRecord (index : Nat) : String := Text.openRecord "BufPin" [("index", toString index)]

end Machine

end KernelResources.Buffer
