import KernelResources.Buffer.Cache
import KernelResources.Proofs.Buffer.PoolStructure
import KernelResources.Proofs.Buffer.Victims
import KernelResources.Proofs.OperationEnds

namespace KernelResources.Buffer

variable {n : Nat}

namespace Slot

def refer : Slot → Slot := fun s => { s with refs := s.refs + 1 }

def unrefer : Slot → Slot := fun s => { s with refs := s.refs - 1 }

def enter (task : TaskId) : Slot → Slot := fun s => { s with data := (s.data.enter task).2 }

def unlock : Slot → Slot := fun s => { s with data := s.data.leave }

def stamp (now : UInt64) : Slot → Slot := fun s => { s.unrefer with released := Clock.stamp now }

def load (bytes : Block) : Slot → Slot := fun s => { s.setBytes bytes with valid := true }

end Slot

namespace Pool

theorem updateSlot_congr {p : Pool n} {i : Fin n} {f g : Slot → Slot}
    (same : f p.slots[i] = g p.slots[i]) : p.updateSlot i f = p.updateSlot i g := by
  unfold updateSlot
  rw [same]

theorem updateSlot_twice (p : Pool n) (i : Fin n) (f g : Slot → Slot) :
    (p.updateSlot i f).updateSlot i g = p.updateSlot i fun slot => g (f slot) := by
  simp [updateSlot]

theorem slot_updateSlot_self (p : Pool n) (i : Fin n) (f : Slot → Slot) :
    (p.updateSlot i f).slots[i] = f p.slots[i] := by
  rw [slot_updateSlot, if_pos rfl]

end Pool

namespace Cache

open Operation

variable (e : Execution PoolLock (Act n) (Cache n × Clock))

@[simp] theorem run_slot (i : Fin n) : (slot i).run e = (.ok e.state.1.pool.slots[i], e) := rfl

@[simp] theorem run_updatePool (f : Pool n → Pool n) :
    (updatePool f).run e =
      (.ok (), { e with state := ({ e.state.1 with pool := f e.state.1.pool }, e.state.2) }) := rfl

@[simp] theorem run_updateSlot (i : Fin n) (f : Slot → Slot) :
    (updateSlot i f).run e = (updatePool (·.updateSlot i f)).run e := rfl

@[simp] theorem run_count (i : Fin n) (f : UInt32 → UInt32) :
    (count i f).run e =
      (updateSlot i fun slot => { slot with refs := f slot.refs }).run (e.note (.act (.counts i))) :=
  rfl

@[simp] theorem run_relink (b : Fin bucketCount) (f : Bucket n → Bucket n) :
    (relink b f).run e = (updatePool (·.updateBucket b f)).run (e.note (.act (.relinks b))) := rfl

@[simp] theorem run_readClock :
    (readClock : Run n UInt64).run e =
      (.ok e.state.2.now, { e with state := (e.state.1, e.state.2.read.2) }) := rfl

theorem claim_found {b : BlockId} {i : Fin n} (found : e.state.1.pool.find? b = some i) :
    (claim b).Ends e (.ok i)
      ({ e.state.1 with pool := e.state.1.pool.updateSlot i .refer }, e.state.2) [.counts i] := by
  unfold claim takeCached
  constructor <;> simp [found, Effect.acts_cons]
  rfl

theorem claim_exhausted {b : BlockId} (absent : e.state.1.pool.find? b = none)
    (nothing : e.state.1.pool.leastRecentlyReleased = none) :
    (claim b).Ends e (.error .noBuffers) e.state [] := by
  unfold claim takeCached takeVictim
  constructor <;> simp [absent, nothing, Effect.acts_cons]

theorem claim_recycles {b : BlockId} {i : Fin n} (absent : e.state.1.pool.find? b = none)
    (chosen : e.state.1.pool.leastRecentlyReleased = some i) :
    (claim b).Ends e (.ok i) ({ e.state.1 with pool := e.state.1.pool.recycle i b }, e.state.2)
      [.relinks e.state.1.pool.slots[i].home,
        .tells (if e.state.1.pool.slots[i].mapped
          then .evicts b i e.state.1.pool.slots[i].block else .takesUnused b i),
        .counts i, .relinks b.bucket] := by
  have unreferenced := Pool.refs_leastRecentlyReleased chosen
  unfold claim takeCached takeVictim unlinkUnreferenced retag
  by_cases here : e.state.1.pool.slots[i].home = b.bucket <;>
    constructor <;> simp [absent, chosen, unreferenced, here, Effect.acts_cons, Pool.recycle,
      Pool.unlink]

theorem enter_ends (i : Fin n) :
    (enter i).Ends e (.ok (e.state.1.pool.slots[i].data.enter e.task).1)
      ({ e.state.1 with pool := e.state.1.pool.updateSlot i (.enter e.task) }, e.state.2)
      [if (e.state.1.pool.slots[i].data.enter e.task).1 then .takesLock i else .sleepsOn i] := by
  unfold enter
  constructor <;> simp [Effect.acts_cons]
  exact Pool.updateSlot_congr rfl

theorem release_unheld {i : Fin n} (unheld : e.state.1.pool.slots[i].data.heldBy e.task = false) :
    (release i).Ends e (.error (.releaseUnheld i e.task)) e.state [] := by
  unfold release
  constructor <;> simp [unheld]

theorem release_held {i : Fin n} (held : e.state.1.pool.slots[i].data.heldBy e.task = true)
    (referenced : e.state.1.pool.slots[i].refs ≠ 0) :
    (release i).Ends e (.ok ())
      ({ e.state.1 with
          pool := (e.state.1.pool.updateSlot i .unlock).updateSlot i (.stamp e.state.2.now) },
        e.state.2.read.2)
      [.leavesLock i, .counts i, .stamps i] := by
  unfold release dropReleased underHome
  constructor <;> simp [held, referenced, Pool.slot_updateSlot_self, Pool.updateSlot_twice,
    Slot.unlock, Slot.stamp, Slot.unrefer, Clock.read, Effect.acts_cons]

theorem load_valid {i : Fin n} (b : BlockId) (valid : e.state.1.pool.slots[i].valid = true) :
    (loadOrRelease i b).Ends e (.ok ()) e.state [] := by
  unfold loadOrRelease load
  constructor <;> simp [valid]

theorem load_succeeds {i : Fin n} {b : BlockId} (invalid : e.state.1.pool.slots[i].valid = false)
    (works : e.state.1.disk.fails e.task b = false) :
    (loadOrRelease i b).Ends e (.ok ())
      ({ e.state.1 with
          pool := e.state.1.pool.updateSlot i (.load (e.state.1.disk.content b)) }, e.state.2)
      [.tells (.loading b), .transfers .read b e.cpu.enabled] := by
  unfold loadOrRelease load transfer
  constructor <;> simp [invalid, works, Effect.acts_cons]
  rfl

theorem load_fails {i : Fin n} {b : BlockId} (invalid : e.state.1.pool.slots[i].valid = false)
    (fails : e.state.1.disk.fails e.task b = true)
    (held : e.state.1.pool.slots[i].data.heldBy e.task = true)
    (referenced : e.state.1.pool.slots[i].refs ≠ 0) :
    (loadOrRelease i b).Ends e (.error (.disk b))
      ({ e.state.1 with
          pool := (e.state.1.pool.updateSlot i .unlock).updateSlot i (.stamp e.state.2.now) },
        e.state.2.read.2)
      [.tells (.loading b), .transfers .read b e.cpu.enabled,
        .leavesLock i, .counts i, .stamps i] := by
  unfold loadOrRelease load transfer release dropReleased underHome
  constructor <;> simp [invalid, fails, held, referenced, Pool.slot_updateSlot_self,
    Pool.updateSlot_twice, Slot.unlock, Slot.stamp, Slot.unrefer, Clock.read, Effect.acts_cons]

theorem write_unheld {i : Fin n} (unheld : e.state.1.pool.slots[i].data.heldBy e.task = false) :
    (write i).Ends e (.error (.writeUnheld i e.task)) e.state [] := by
  unfold write
  constructor <;> simp [unheld]

theorem write_fails {i : Fin n} (held : e.state.1.pool.slots[i].data.heldBy e.task = true)
    (fails : e.state.1.disk.fails e.task e.state.1.pool.slots[i].block = true) :
    (write i).Ends e (.error (.disk e.state.1.pool.slots[i].block)) e.state
      [.transfers .write e.state.1.pool.slots[i].block e.cpu.enabled] := by
  unfold write transfer
  constructor <;> simp [held, fails, Effect.acts_cons]

theorem write_succeeds {i : Fin n} (held : e.state.1.pool.slots[i].data.heldBy e.task = true)
    (works : e.state.1.disk.fails e.task e.state.1.pool.slots[i].block = false) :
    (write i).Ends e (.ok ())
      ({ e.state.1 with
          disk := e.state.1.disk.write e.state.1.pool.slots[i].block
            e.state.1.pool.slots[i].data.data }, e.state.2)
      [.transfers .write e.state.1.pool.slots[i].block e.cpu.enabled] := by
  unfold write transfer
  constructor <;> simp [held, works, Effect.acts_cons]

theorem pin_ends (i : Fin n) :
    (pin i).Ends e (.ok ())
      ({ e.state.1 with pool := e.state.1.pool.updateSlot i .refer }, e.state.2) [.counts i] := by
  unfold pin underHome
  constructor <;> simp [Effect.acts_cons]
  rfl

theorem unpin_foreign (i : Fin n) : (unpin i false).Ends e (.error (.unpinForeign i)) e.state [] := by
  unfold unpin
  constructor <;> simp

theorem unpin_own {i : Fin n} (referenced : e.state.1.pool.slots[i].refs ≠ 0) :
    (unpin i true).Ends e (.ok ())
      ({ e.state.1 with pool := e.state.1.pool.updateSlot i .unrefer }, e.state.2) [.counts i] := by
  unfold unpin underHome
  constructor <;> simp [referenced, Effect.acts_cons]
  rfl

theorem isCached_ends (b : BlockId) :
    (isCached b).Ends e (.ok (e.state.1.pool.find? b).isSome) e.state [] := by
  unfold isCached
  constructor <;> simp [Effect.acts_cons]

theorem audit_ends : (audit : Run n _).Ends e (.ok e.state.1.pool.audit) e.state [] := by
  unfold audit
  constructor <;> simp [Effect.acts_cons, Execution.acts_notes]

end Cache

end KernelResources.Buffer
