import KernelResources.Buffer.Machine.Calls
import KernelResources.Fault

namespace KernelResources.Buffer.Machine

variable {n m : Nat}

inductive Tamper where
  | device (value : UInt32)
  | number (value : UInt32)
  | refs (value : UInt32)
  | mapped (value : Bool)
  | valid (value : Bool)
  deriving DecidableEq, Repr

def Tamper.apply (t : Tamper) (s : Slot) : Slot :=
  match t with
  | device value => { s with block := { s.block with device := value } }
  | number value => { s with block := { s.block with number := value } }
  | refs value => { s with refs := value }
  | mapped value => { s with mapped := value }
  | valid value => { s with valid := value }

inductive Event (m : Nat) where
  | read (cache : Fin m) (b : BlockId) (name : String)
  | acquire (cache : Fin m) (b : BlockId) (name : String)
  | write (name : String)
  | release (name : String)
  | pin (name pinName : String)
  | unpin (cache : Fin m) (pinName : String)
  -- The reference of the pin stays for good.
  | dropPin (pinName : String)
  | fill (name : String) (byte : UInt8)
  | put (name : String) (offset : Nat) (bytes : List UInt8)
  | bytes (name : String)
  | info (name : String)
  | record (name : String)
  -- The buffer stays locked and referenced for good.
  | forget (name : String)
  | pinInfo (pinName : String)
  | isCached (cache : Fin m) (b : BlockId)
  | capacity
  | audit (cache : Fin m)
  | setClock (now step : Option UInt64)
  | moveTo (core : Nat)
  | setInterrupts (on : Bool)
  | disk (cache : Fin m) (b : BlockId)
  | setFault (cache : Fin m) (b : BlockId) (on : Bool)
  -- The device fails the block for one task only, or no longer.
  | setFaultFor (cache : Fin m) (who : TaskId) (b : BlockId) (on : Bool)
  | tamper (cache : Fin m) (slot : Nat) (store : Tamper)
  deriving Repr

def withBuffer (s : Machine n m) (name : String) (f : Place n m → Reply × Machine n m) :
    Reply × Machine n m :=
  match s.held.find? name with
  | some place => f place
  | none => (.refused (.noHandle name), s)

def withPin (s : Machine n m) (name : String) (f : Place n m → Reply × Machine n m) :
    Reply × Machine n m :=
  match s.pins.find? name with
  | some place => f place
  | none => (.refused (.noPin name), s)

def edit (s : Machine n m) (p : Place n m) (f : Block → Block) : Machine n m :=
  s.updateSlot p fun slot => slot.setBytes (f slot.data.data)

def setFault (s : Machine n m) (c : Fin m) (who : Option TaskId) (b : BlockId) (on : Bool) : Machine n m :=
  s.updateCache c fun cache => { cache with disk := cache.disk.setFailing who b on }

def advance (s : Machine n m) (task : TaskId) : Event m → Reply × Machine n m
  | .read c b name => s.call task c b true name
  | .acquire c b name => s.call task c b false name
  | .write name => s.withBuffer name fun place =>
      report (s.run task place.cache (Cache.write place.slot)) fun _ => .unit
  | .release name => s.withBuffer name fun place =>
      let s := { s with held := s.held.erase name }
      report (s.run task place.cache (Cache.release place.slot)) fun _ => .unit
  | .pin name pinName => s.withBuffer name fun place =>
      match s.pins.find? pinName with
      | some _ => (.refused (.pinInUse pinName), s)
      | none =>
        match s.run task place.cache (Cache.pin place.slot) with
        | (.error fault, s) => (.halted fault, s)
        | (.ok (), s) =>
          (.done (.pinned place.slot (s.slot place).refs),
            { s with pins := s.pins.put pinName place })
  | .unpin c pinName => s.withPin pinName fun place =>
      let s := { s with pins := s.pins.erase pinName }
      report (s.run task c (Cache.unpin place.slot (place.cache = c))) fun _ => .unit
  | .dropPin pinName => s.withPin pinName fun _ =>
      (.done .unit, { s with pins := s.pins.erase pinName })
  | .fill name byte => s.withBuffer name fun place =>
      (.done .unit, s.edit place fun _ => .filled byte)
  | .put name offset bytes => s.withBuffer name fun place =>
      if offset + bytes.length ≤ blockSize then
        (.done .unit, s.edit place (·.overwrite offset bytes))
      else (.refused .outsideBlock, s)
  | .bytes name => s.withBuffer name fun place =>
      (.done (.bytes (some (s.bytesAt place))), s)
  | .info name => s.withBuffer name fun place => (.done (.info (s.infoAt place)), s)
  | .record name => s.withBuffer name fun place => (.done (.text (s.infoAt place).record), s)
  | .forget name => s.withBuffer name fun _ =>
      (.done .unit, { s with held := s.held.erase name })
  | .pinInfo pinName => s.withPin pinName fun place =>
      (.done (.pinInfo place.slot (pinRecord place.slot)), s)
  | .isCached c b => report (s.run task c (Cache.isCached b)) .flag
  | .capacity => (.done (.number n), s)
  | .audit c =>
    match s.run task c Cache.audit with
    | (.error fault, s) => (.halted fault, s)
    | (.ok result, s) => (.map (fun _ => .unit) (.ofExcept result), s)
  | .setClock now step =>
    (.done .unit, { s with clock := ⟨now.getD s.clock.now, step.getD s.clock.step⟩ })
  | .moveTo core => (.done .unit, s.setCpu task { s.cpu task with core })
  | .setInterrupts on => (.done .unit, s.setCpu task { s.cpu task with enabled := on })
  | .disk c b => (.done (.bytes (s.caches[c].disk.written? b)), s)
  | .setFault c b on => (.done .unit, s.setFault c none b on)
  | .setFaultFor c who b on => (.done .unit, s.setFault c (some who) b on)
  | .tamper c index store =>
    match position n index with
    | .error _ => (.refused .noSuchSlot, s)
    | .ok i => (.done .unit, s.updateSlot ⟨c, i⟩ store.apply)

structure Report where
  reply : Reply
  enabled : Bool
  woken : List Woken

-- A step by `task`, which must not be asleep, and then the tasks it wakes.
def step (s : Machine n m) (task : TaskId) (event : Event m) : Report × Machine n m :=
  let s := { s with past := [] }
  if s.isAsleep task then (⟨.refused (.taskBlocked task), (s.cpu task).enabled, []⟩, s)
  else
    let (reply, s) := s.advance task event
    let enabled := (s.cpu task).enabled
    let (woken, s) := s.wake
    (⟨reply, enabled, woken⟩, s)

def effects (s : Machine n m) : List (Effect PoolLock (Cache.Act n)) := s.past.map (·.2)

def log (s : Machine n m) : List LogLine :=
  (Effect.acts s.effects).filterMap fun
    | .tells notice => some notice.line
    | _ => none

structure Transfer where
  direction : Direction
  block : BlockId
  interrupts : Bool
  deriving DecidableEq, Repr

def transfers (s : Machine n m) (c : Fin m) : List Transfer :=
  (Effect.acts ((s.past.filter (·.1 == c)).map (·.2))).filterMap fun
    | .transfers direction b interrupts => some ⟨direction, b, interrupts⟩
    | _ => none

def blocked (s : Machine n m) : List TaskId :=
  s.asleep.keys.mergeSort fun a b => a.id ≤ b.id

def usedSlots (s : Machine n m) (c : Fin m) : List (Fin n × Slot) :=
  ((List.finRange n).map fun i => (i, s.caches[c].pool.slots[i])).filter fun (_, slot) =>
    slot.mapped || slot.refs ≠ 0

end KernelResources.Buffer.Machine
