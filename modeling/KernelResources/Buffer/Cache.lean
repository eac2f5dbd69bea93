import KernelResources.Buffer.Audit
import KernelResources.Buffer.Notice
import KernelResources.Operation

-- The buffer cache. A look-up takes the lock of one bucket; a miss takes the pool lock as well, looks
-- again, and recycles the unreferenced buffer that was released longest ago. Interrupts are masked while
-- any of these spin locks is held, and none is held while a task sleeps or the device works.

namespace KernelResources.Buffer

structure Cache (n : Nat) where
  pool : Pool n
  disk : Disk

inductive PoolLock where
  | pool
  | bucket (b : Fin bucketCount)
  deriving DecidableEq, Repr

namespace Cache

variable {n : Nat}

-- What an operation does to the shared parts of the pool, in order: lists, counts and stamps, sleep
-- locks, transfers with the interrupt flag they are made under, and words to the log.
inductive Act (n : Nat) where
  | relinks (b : Fin bucketCount)
  | counts (slot : Fin n)
  | stamps (slot : Fin n)
  | takesLock (slot : Fin n)
  | leavesLock (slot : Fin n)
  | sleepsOn (slot : Fin n)
  | transfers (direction : Direction) (b : BlockId) (interrupts : Bool)
  | tells (notice : Notice)
  deriving DecidableEq, Repr

abbrev Run (n : Nat) (α : Type) : Type :=
  Operation PoolLock (Act n) (Cache n × Clock) CacheFault α

open Operation

def start (n : Nat) (disk : Disk) : Cache n := ⟨.start n, disk⟩

def slot (i : Fin n) : Run n Slot := view fun s => s.1.pool.slots[i]

def updatePool (f : Pool n → Pool n) : Run n Unit :=
  change fun (cache, clock) => ({ cache with pool := f cache.pool }, clock)

def updateSlot (i : Fin n) (f : Slot → Slot) : Run n Unit := updatePool (·.updateSlot i f)

def count (i : Fin n) (f : UInt32 → UInt32) : Run n Unit := do
  act (.counts i)
  updateSlot i fun slot => { slot with refs := f slot.refs }

def relink (b : Fin bucketCount) (f : Bucket n → Bucket n) : Run n Unit := do
  act (.relinks b)
  updatePool (·.updateBucket b f)

def takeCached (b : BlockId) : Run n (Option (Fin n)) := do
  match ← view (·.1.pool.find? b) with
  | some i =>
    count i (· + 1)
    return some i
  | none => return none

def unlinkUnreferenced (i : Fin n) (home : Fin bucketCount) : Run n Bool := do
  if (← slot i).refs = 0 then
    relink home (·.remove i)
    return true
  else return false

-- Takes the buffer to recycle for `b` off its bucket, while the pool and the bucket of `b` are
-- locked. A buffer that was claimed since it was chosen is passed over in another round.
def takeVictim (b : BlockId) : (rounds : Nat) → Run n (Fin n)
  | 0 => throw .noBuffers
  | rounds + 1 => do
    let some i ← view (·.1.pool.leastRecentlyReleased) | throw .noBuffers
    let home := (← slot i).home
    let unlinked ←
      if home = b.bucket then unlinkUnreferenced i home
      else holding (.bucket home) (unlinkUnreferenced i home)
    if unlinked then return i
    act (.tells (.overtaken i))
    takeVictim b rounds

-- Gives the buffer, which is on no bucket, to the block `b`.
def retag (i : Fin n) (b : BlockId) : Run n Unit := do
  let old ← slot i
  act (.tells (if old.mapped then .evicts b i old.block else .takesUnused b i))
  act (.counts i)
  updateSlot i (·.retag b)
  relink b.bucket (·.pushFront i)

def claim (b : BlockId) : Run n (Fin n) :=
  masked do
    match ← holding (.bucket b.bucket) (takeCached b) with
    | some i => return i
    | none =>
      holding .pool do
        holding (.bucket b.bucket) do
          -- Someone may have cached it between the two looks.
          match ← takeCached b with
          | some i => return i
          | none =>
            let i ← takeVictim b (n + 1)
            retag i b
            return i

def enter (i : Fin n) : Run n Bool := do
  let task ← currentTask
  let (taken, lock) := (← slot i).data.enter task
  act (if taken then .takesLock i else .sleepsOn i)
  updateSlot i fun slot => { slot with data := lock }
  return taken

-- Work on a buffer's count under the lock of its bucket. A reference keeps it on that bucket.
def underHome {α : Type} (i : Fin n) (body : Run n α) : Run n α :=
  masked do
    let home := (← slot i).home
    holding (.bucket home) body

def readClock : Run n UInt64 :=
  work fun (cache, clock) =>
    let (now, clock) := clock.read
    (now, cache, clock)

def dropReleased (i : Fin n) : Run n Unit := do
  let now ← readClock
  underHome i do
    if (← slot i).refs = 0 then throw (.releaseUnreferenced i)
    count i (· - 1)
    act (.stamps i)
    updateSlot i fun slot => { slot with released := Clock.stamp now }

def release (i : Fin n) : Run n Unit := do
  let task ← currentTask
  if !(← slot i).data.heldBy task then throw (.releaseUnheld i task)
  act (.leavesLock i)
  updateSlot i fun slot => { slot with data := slot.data.leave }
  dropReleased i

-- One transfer of a block. The device notes it before it can fail.
def transfer (direction : Direction) (b : BlockId) : Run n Unit := do
  act (.transfers direction b (← processor).enabled)
  let task ← currentTask
  if (← view (·.1.disk.fails task b)) then throw (.disk b)

def load (i : Fin n) (b : BlockId) : Run n Unit := do
  if !(← slot i).valid then
    act (.tells (.loading b))
    transfer .read b
    let bytes ← view (·.1.disk.content b)
    updateSlot i fun slot => { slot.setBytes bytes with valid := true }

def loadOrRelease (i : Fin n) (b : BlockId) : Run n Unit :=
  tryCatch (load i b) fun fault => do
    release i
    throw fault

def write (i : Fin n) : Run n Unit := do
  let task ← currentTask
  let held ← slot i
  if !held.data.heldBy task then throw (.writeUnheld i task)
  transfer .write held.block
  change fun (cache, clock) =>
    ({ cache with disk := cache.disk.write held.block held.data.data }, clock)

def pin (i : Fin n) : Run n Unit := underHome i (count i (· + 1))

def unpin (i : Fin n) (own : Bool) : Run n Unit := do
  if !own then throw (.unpinForeign i)
  underHome i do
    if (← slot i).refs = 0 then throw (.unpinUnreferenced i)
    count i (· - 1)

def isCached (b : BlockId) : Run n Bool :=
  masked (holding (.bucket b.bucket) (view fun s => (s.1.pool.find? b).isSome))

def audit : Run n (Except AuditError Unit) :=
  masked <| holding .pool <|
    holdingAll ((List.finRange bucketCount).map .bucket) (view (·.1.pool.audit))

end Cache

end KernelResources.Buffer
