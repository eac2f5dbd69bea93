import KernelResources.Outcome
import KernelResources.Registry

-- Interrupt guards. A guard masks interrupts if it finds them on, and only then switches them on again
-- when it is dropped, so that guards nest and the outermost one decides.

namespace KernelResources

structure Processor where
  core : Nat
  enabled : Bool
  deriving DecidableEq, Repr

namespace Processor

def fresh : Processor := ⟨0, true⟩

def mask (p : Processor) : Processor := { p with enabled := false }

def unmask (p : Processor) : Processor := { p with enabled := true }

end Processor

namespace Interrupts

structure Guard where
  wereEnabled : Bool
  deriving DecidableEq, Repr

namespace Guard

variable {σ : Type}

-- A guard that finds interrupts off makes no call, now or later.
def take (enabled : σ → Bool) (mask : σ → σ) (s : σ) : Guard × σ :=
  if enabled s then (⟨true⟩, mask s) else (⟨false⟩, s)

def drop (g : Guard) (unmask : σ → σ) (s : σ) : σ := if g.wereEnabled then unmask s else s

end Guard

structure State where
  cpu : Processor
  guards : Registry String Guard
  masks : Nat
  unmasks : Nat

namespace State

def start (cpu : Processor) : State := ⟨cpu, [], 0, 0⟩

def mask (s : State) : State := { s with cpu := s.cpu.mask, masks := s.masks + 1 }

def unmask (s : State) : State := { s with cpu := s.cpu.unmask, unmasks := s.unmasks + 1 }

def take (s : State) (name : String) : State :=
  let (guard, s) := Guard.take (·.cpu.enabled) mask s
  { s with guards := s.guards.put name guard }

def drop (s : State) (name : String) (guard : Guard) : State :=
  guard.drop unmask { s with guards := s.guards.erase name }

end State

inductive Event where
  | take (name : String)
  | drop (name : String)
  | coreOf (name : String)
  -- The guard is dropped by the fault that ends its scope.
  | faultUnder (name : String)
  | moveTo (core : Nat)
  | enable
  | disable
  -- A fresh thread has a core and a flag of its own.
  | elsewhere
  deriving Repr

inductive Answer where
  | unit
  | core (id : Nat)
  | thread (core : Nat) (before inside after : Bool)
  deriving DecidableEq, Repr

inductive ScopeFault where
  | boom
  deriving DecidableEq, Repr

def ScopeFault.message : ScopeFault → String
  | .boom => "boom"

abbrev Reply := Outcome Empty ScopeFault Answer

namespace State

def withGuard (s : State) (name : String) (f : Guard → Reply × State) : Reply × State :=
  match s.guards.find? name with
  | some guard => f guard
  | none => (.refused (.noHandle name), s)

def freshThread : Answer :=
  let (guard, inside) := Guard.take (·.enabled) Processor.mask .fresh
  .thread Processor.fresh.core Processor.fresh.enabled inside.enabled
    (guard.drop Processor.unmask inside).enabled

def advance (s : State) : Event → Reply × State
  | .take name =>
    match s.guards.find? name with
    | some _ => (.refused (.handleInUse name), s)
    | none => (.done (.core s.cpu.core), s.take name)
  | .drop name => s.withGuard name fun guard => (.done .unit, s.drop name guard)
  | .coreOf name => s.withGuard name fun _ => (.done (.core s.cpu.core), s)
  | .faultUnder name => s.withGuard name fun guard => (.halted .boom, s.drop name guard)
  | .moveTo core => (.done (.core core), { s with cpu := { s.cpu with core } })
  | .enable => (.done .unit, s.unmask)
  | .disable => (.done .unit, s.mask)
  | .elsewhere => (.done freshThread, s)

end State

end Interrupts

end KernelResources
