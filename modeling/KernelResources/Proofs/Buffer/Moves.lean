import KernelResources.Proofs.Buffer.Ledger
import KernelResources.Proofs.Buffer.MachineRuns

namespace KernelResources.Buffer

open Machine

variable {n m : Nat}

namespace Machine

structure Still (s t : Machine n m) : Prop where
  pools : ∀ c : Fin m, s.caches[c].pool = t.caches[c].pool
  contents : ∀ (c : Fin m) (b : BlockId), s.caches[c].disk.content b = t.caches[c].disk.content b
  held : s.held = t.held
  pins : s.pins = t.pins
  asleep : s.asleep = t.asleep

theorem Agrees.still {s t : Machine n m} (agrees : s.Agrees t) : t.Still s := by
  refine ⟨?_, ?_, agrees.held.symm, agrees.pins.symm, agrees.asleep.symm⟩ <;>
    simp [agrees.caches]

theorem Still.slot {s t : Machine n m} (still : s.Still t) (p : Place n m) : t.slot p = s.slot p := by
  rw [Machine.slot, Machine.slot, still.pools]

end Machine

structure Grant.Fits (grant : Grant m) (slot : Slot) : Prop where
  holds : slot.holds grant.block = true
  locked : slot.data.holder = some grant.task
  bytes : slot.data.data = grant.bytes
  valid : grant.loaded = true → slot.valid = true

-- A place within a step. `hand` are the references that the call under way has taken and that nothing
-- in the books accounts for yet, and `locks` the buffers that it has locked for itself.
structure Stage (n m : Nat) where
  machine : Machine n m
  ledger : Ledger m
  hand : List (Place n m)
  locks : List (Place n m)

inductive Move (fair : Grant m → Prop) : Stage n m → Stage n m → Prop where
  | still (same : s.Still t) : Move fair ⟨s, l, hand, locks⟩ ⟨t, l, hand, locks⟩
  -- References.
  | refer (p : Place n m) (room : Account.references ⟨s, l⟩ p + hand.count p + 1 < UInt32.size) :
      Move fair ⟨s, l, hand, locks⟩ ⟨s.updateSlot p .refer, l, p :: hand, locks⟩
  | recycle (p : Place n m) (b : BlockId) (absent : s.caches[p.cache].pool.find? b = none)
      (unreferenced : (s.slot p).refs = 0) :
      Move fair ⟨s, l, hand, locks⟩ ⟨s.recycle p b, l, p :: hand, locks⟩
  | unrefer (p : Place n m) (released : UInt64 → UInt64) :
      Move fair ⟨s, l, p :: hand, locks⟩
        ⟨s.updateSlot p fun slot => { slot.unrefer with released := released slot.released }, l, hand,
          locks⟩
  -- Locks.
  | lock (p : Place n m) (task : TaskId) (free : (s.slot p).data.holder = none) :
      Move fair ⟨s, l, hand, locks⟩ ⟨s.updateSlot p (.enter task), l, hand, p :: locks⟩
  | queue (p : Place n m) (task : TaskId) (taken : (s.slot p).data.holder ≠ none) :
      Move fair ⟨s, l, hand, locks⟩ ⟨s.updateSlot p (.enter task), l, hand, locks⟩
  | wake (p : Place n m) :
      Move fair ⟨s, l, hand, locks⟩
        ⟨s.updateSlot p fun slot => { slot with data := slot.data.wake.2 }, l, hand, locks⟩
  | unlock (p : Place n m) :
      Move fair ⟨s, l, hand, p :: locks⟩ ⟨s.updateSlot p .unlock, l, hand, locks⟩
  -- The disk.
  | load (p : Place n m) (b : BlockId) (holds : (s.slot p).holds b = true) :
      Move fair ⟨s, l, hand, p :: locks⟩
        ⟨s.updateSlot p (.load (s.caches[p.cache].disk.content b)), l, hand, p :: locks⟩
  | write (name : String) (p : Place n m) (found : s.held.find? name = some p)
      (alone : s.caches[p.cache].pool.Intact) :
      Move fair ⟨s, l, hand, locks⟩ ⟨s.store p, l.write name, hand, locks⟩
  -- Buffers by name.
  | grant (name : String) (p : Place n m) (grant : Grant m) (spot : grant.spot = p.spot)
      (fits : grant.Fits (s.slot p)) (unedited : grant.edited = false)
      (fresh : l.grants.find? name = none) :
      Move fair ⟨s, l, p :: hand, p :: locks⟩
        ⟨{ s with held := s.held.put name p }, { l with grants := l.grants.put name grant }, hand,
          locks⟩
  | edit (name : String) (p : Place n m) (f : Block → Block) (found : s.held.find? name = some p) :
      Move fair ⟨s, l, hand, locks⟩ ⟨s.edit p f, l.edit name f, hand, locks⟩
  | giveBack (name : String) (p : Place n m) (grant : Grant m)
      (found : s.held.find? name = some p) (known : l.grants.find? name = some grant)
      (allowed : fair grant) :
      Move fair ⟨s, l, hand, locks⟩
        ⟨{ s with held := s.held.erase name }, { l with grants := l.grants.erase name }, p :: hand,
          p :: locks⟩
  | lose (name : String) :
      Move fair ⟨s, l, hand, locks⟩
        ⟨{ s with held := s.held.erase name }, l.lose name, hand, locks⟩
  -- Pins by name.
  | pin (pinName : String) (p : Place n m) (fresh : l.pins.find? pinName = none) :
      Move fair ⟨s, l, p :: hand, locks⟩
        ⟨{ s with pins := s.pins.put pinName p }, { l with pins := l.pins.put pinName p.spot }, hand,
          locks⟩
  | unpin (pinName : String) (p : Place n m) (found : s.pins.find? pinName = some p) :
      Move fair ⟨s, l, hand, locks⟩
        ⟨{ s with pins := s.pins.erase pinName }, { l with pins := l.pins.erase pinName }, p :: hand,
          locks⟩
  | losePin (pinName : String) :
      Move fair ⟨s, l, hand, locks⟩
        ⟨{ s with pins := s.pins.erase pinName }, l.losePin pinName, hand, locks⟩
  -- Calls asleep.
  | sleep (task : TaskId) (call : SleepingCall n m)
      (holds : (s.slot call.place).holds call.block = true)
      (awake : s.asleep.find? task = none) :
      Move fair ⟨s, l, call.place :: hand, locks⟩
        ⟨{ s with asleep := s.asleep.put task call },
          { l with requests := l.requests.put task call.request }, hand, locks⟩
  | rouse (task : TaskId) (call : SleepingCall n m) (found : s.asleep.find? task = some call) :
      Move fair ⟨s, l, hand, locks⟩
        ⟨{ s with asleep := s.asleep.erase task }, { l with requests := l.requests.erase task },
          call.place :: hand, locks⟩

inductive Moves (fair : Grant m → Prop) : Stage n m → Stage n m → Prop where
  | refl {x : Stage n m} : Moves fair x x
  | step {x y z : Stage n m} : Moves fair x y → Move fair y z → Moves fair x z

namespace Moves

variable {fair : Grant m → Prop} {x y z : Stage n m}

theorem single (move : Move fair x y) : Moves fair x y := .step .refl move

theorem trans (first : Moves fair x y) (second : Moves fair y z) : Moves fair x z := by
  induction second with
  | refl => exact first
  | step _ move ih => exact .step ih move

end Moves

end KernelResources.Buffer
