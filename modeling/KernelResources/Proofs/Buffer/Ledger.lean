import KernelResources.Buffer.Machine.Steps
import KernelResources.Proofs.RegistryCounts

-- The books of an observer who sees the steps of the tasks and what they are answered, and nothing of
-- the inside of the caches: which calls wait for their answer, which buffers and pins are out, which of
-- them can never be given back any more, and what was written to each block.

namespace KernelResources.Buffer

open Machine

variable {n m : Nat}

structure Spot (m : Nat) where
  cache : Fin m
  index : Nat
  deriving DecidableEq, Repr

def Place.spot (p : Place n m) : Spot m := ⟨p.cache, p.slot⟩

structure Request (m : Nat) where
  cache : Fin m
  block : BlockId
  loads : Bool
  name : String
  deriving DecidableEq, Repr

def SleepingCall.request (call : SleepingCall n m) : Request m :=
  ⟨call.place.cache, call.block, call.loads, call.name⟩

-- A buffer that is out: who asked for it, for which block, whether to have it loaded, and the bytes its
-- user sees. `edited` means that they were changed since they were last written.
structure Grant (m : Nat) where
  task : TaskId
  spot : Spot m
  block : BlockId
  loaded : Bool
  bytes : Block
  edited : Bool

def Request.granted (request : Request m) (task : TaskId) (index : Nat) (bytes : Block) : Grant m :=
  ⟨task, ⟨request.cache, index⟩, request.block, request.loads, bytes, false⟩

structure Ledger (m : Nat) where
  requests : Registry TaskId (Request m)
  grants : Registry String (Grant m)
  pins : Registry String (Spot m)
  -- Out for good, since nobody has them in hand: forgotten, or refused when they were to be given back.
  lostBuffers : List (Grant m)
  lostPins : List (Spot m)
  written : Registry (Fin m × BlockId) Block

namespace Ledger

def empty : Ledger m := ⟨[], [], [], [], [], []⟩

def lose (l : Ledger m) (name : String) : Ledger m :=
  match l.grants.find? name with
  | some grant =>
    { l with grants := l.grants.erase name, lostBuffers := grant :: l.lostBuffers }
  | none => l

def losePin (l : Ledger m) (pinName : String) : Ledger m :=
  match l.pins.find? pinName with
  | some spot => { l with pins := l.pins.erase pinName, lostPins := spot :: l.lostPins }
  | none => l

-- A new buffer under a name in use leaves nobody with the old one.
def grant (l : Ledger m) (task : TaskId) (request : Request m) (index : Nat) (bytes : Block) :
    Ledger m :=
  let l := l.lose request.name
  { l with grants := l.grants.put request.name (request.granted task index bytes) }

def hear (l : Ledger m) (task : TaskId) (request : Request m) : Reply → Ledger m
  | .done (.buffer info bytes) =>
    { l with requests := l.requests.erase task }.grant task request info.index bytes
  | .asleep => { l with requests := l.requests.put task request }
  | .halted _ => { l with requests := l.requests.erase task }
  | _ => l

def edit (l : Ledger m) (name : String) (f : Block → Block) : Ledger m :=
  { l with
    grants := l.grants.update name fun grant => { grant with bytes := f grant.bytes, edited := true } }

def write (l : Ledger m) (name : String) : Ledger m :=
  match l.grants.find? name with
  | some grant =>
    { l with
      grants := l.grants.update name fun grant => { grant with edited := false }
      written := l.written.put (grant.spot.cache, grant.block) grant.bytes }
  | none => l

def note (l : Ledger m) (task : TaskId) : Event m → Reply → Ledger m
  | .read c b name, reply => l.hear task ⟨c, b, true, name⟩ reply
  | .acquire c b name, reply => l.hear task ⟨c, b, false, name⟩ reply
  | .write name, .done _ => l.write name
  | .release name, .done _ => { l with grants := l.grants.erase name }
  | .release name, .halted _ => l.lose name
  | .forget name, .done _ => l.lose name
  | .pin name pinName, .done _ =>
    match l.grants.find? name with
    | some grant => { l with pins := l.pins.put pinName grant.spot }
    | none => l
  | .unpin _ pinName, .done _ => { l with pins := l.pins.erase pinName }
  | .unpin _ pinName, .halted _ => l.losePin pinName
  | .dropPin pinName, .done _ => l.losePin pinName
  | .fill name byte, .done _ => l.edit name fun _ => .filled byte
  | .put name offset bytes, .done _ => l.edit name (·.overwrite offset bytes)
  | _, _ => l

def resume (l : Ledger m) : List Woken → Ledger m
  | [] => l
  | woken :: rest =>
    match l.requests.find? woken.task with
    | some request => (l.hear woken.task request woken.reply).resume rest
    | none => l.resume rest

def record (l : Ledger m) (task : TaskId) (event : Event m) (report : Report) : Ledger m :=
  (l.note task event report.reply).resume report.woken

def unreleased (l : Ledger m) : List (Grant m) := l.grants.map (·.2) ++ l.lostBuffers

def buffersAt (l : Ledger m) (spot : Spot m) : Nat := l.grants.tally (·.spot) spot

def pinsAt (l : Ledger m) (spot : Spot m) : Nat := l.pins.tally id spot

def lostBuffersAt (l : Ledger m) (spot : Spot m) : Nat := l.lostBuffers.countP (·.spot = spot)

def leakedAt (l : Ledger m) (spot : Spot m) : Nat := l.lostBuffersAt spot + l.lostPins.count spot

def content (l : Ledger m) (disks : Vector Disk m) (c : Fin m) (b : BlockId) : Block :=
  (l.written.find? (c, b)).getD (disks[c].content b)

end Ledger

namespace Machine

def sleepersAt (s : Machine n m) (p : Place n m) : Nat := s.asleep.tally (·.place) p

-- The buffer on which a step takes one reference more. A buffer that is recycled for the step starts
-- over with one, and is none of these.
def takes? (s : Machine n m) (task : TaskId) : Event m → Option (Place n m)
  | .read c b name | .acquire c b name =>
    if s.isAsleep task || s.held.contains name then none
    else (s.caches[c].pool.find? b).map fun i => ⟨c, i⟩
  | .pin name pinName =>
    if s.isAsleep task || s.pins.contains pinName then none else s.held.find? name
  | _ => none

-- Steps that leave the fields of the buffers to the cache.
def Event.Regular : Event m → Prop
  | .tamper .. => False
  | _ => True

end Machine

structure Account (n m : Nat) where
  machine : Machine n m
  ledger : Ledger m

namespace Account

def start (n : Nat) (disks : Vector Disk m) : Account n m :=
  ⟨{ Machine.start n m .zeroed with caches := disks.map (.start n) }, .empty⟩

def next (a : Account n m) (task : TaskId) (event : Event m) : Account n m :=
  ⟨(a.machine.step task event).2, a.ledger.record task event (a.machine.step task event).1⟩

inductive Answers (a : Account n m) (task : TaskId) (event : Event m) :
    TaskId → Request m → BufferInfo → Block → Prop where
  | read {c : Fin m} {b : BlockId} {name : String} {info : BufferInfo} {bytes : Block}
      (asked : event = .read c b name)
      (told : (a.machine.step task event).1.reply = .done (.buffer info bytes)) :
      Answers a task event task ⟨c, b, true, name⟩ info bytes
  | acquire {c : Fin m} {b : BlockId} {name : String} {info : BufferInfo} {bytes : Block}
      (asked : event = .acquire c b name)
      (told : (a.machine.step task event).1.reply = .done (.buffer info bytes)) :
      Answers a task event task ⟨c, b, false, name⟩ info bytes
  | woken {woken : Woken} {request : Request m} {info : BufferInfo} {bytes : Block}
      (member : woken ∈ (a.machine.step task event).1.woken)
      (asked : (a.ledger.note task event (a.machine.step task event).1.reply).requests.find?
        woken.task = some request)
      (told : woken.reply = .done (.buffer info bytes)) :
      Answers a task event woken.task request info bytes

def references (a : Account n m) (p : Place n m) : Nat :=
  a.ledger.buffersAt p.spot + a.ledger.pinsAt p.spot + a.machine.sleepersAt p
    + a.ledger.leakedAt p.spot

-- The step finds room for its reference: there are never more than a count can tell.
def Room (a : Account n m) (task : TaskId) (event : Event m) : Prop :=
  ∀ p, a.machine.takes? task event = some p → a.references p + 1 < UInt32.size

instance (a : Account n m) (task : TaskId) (event : Event m) : Decidable (a.Room task event) :=
  decidable_of_iff
    ((a.machine.takes? task event).all (fun p => a.references p + 1 < UInt32.size) = true)
    (by simp [Room, Option.all_eq_true])

abbrev Rule (n m : Nat) := Account n m → TaskId → Event m → Prop

def Regular : Rule n m := fun _ _ event => event.Regular

def Orderly : Rule n m := fun a task event => event.Regular ∧ a.Room task event

inductive Run (rule : Rule n m) : Account n m → Account n m → Prop where
  | refl {a : Account n m} : Run rule a a
  | step {a b : Account n m} {task : TaskId} {event : Event m} :
      Run rule a b → rule b task event → Run rule a (b.next task event)

theorem Run.weaken {rule wider : Rule n m} {a b : Account n m} (path : Run rule a b)
    (implies : ∀ a task event, rule a task event → wider a task event) : Run wider a b := by
  induction path with
  | refl => exact .refl
  | step _ kept ih => exact .step ih (implies _ _ _ kept)

end Account

end KernelResources.Buffer
