import KernelResources.Page.Allocator
import KernelResources.Registry

-- A client of the allocator: it holds pages under names, moves between cores, and may also look at and
-- write raw memory, the link table included.

namespace KernelResources.Page

-- The allocator and the pages held by name. `past` is what the running step has done so far.
structure Holder (cores : Nat) where
  cpu : Processor
  held : Registry String Nat
  past : List (Effect (Fin cores) (Allocator.Act cores))
  allocator : Allocator cores

namespace Holder

inductive Event where
  | moveTo (core : Nat)
  | setInterrupts (on : Bool)
  | init (start stop : Nat)
  | alloc (name : String)
  | allocMany (name : String) (count : Nat)
  | free (name : String)
  | freeAddress (address : Nat)
  | freeRange (start stop : Nat)
  | fill (name : String) (byte : UInt8)
  | write (name : String) (offset : Nat) (bytes : List UInt8)
  | read (name : String)
  | record (name : String)
  | address (name : String)
  -- The page leaves the holder without being freed.
  | intoRaw (name : String)
  | ofRaw (address : Nat) (name : String)
  | peek (address length : Nat)
  | poke (address : Nat) (bytes : List UInt8)
  | freePages (core : Nat)
  | totalFree
  | capacity
  | isFree (address : Nat)
  deriving Repr

inductive Answer where
  | unit
  | page (address : Nat) (bytes : List UInt8)
  | noPage
  -- `missing` tells how the run of allocations ended early, if it did.
  | pages (addresses : List Nat) (missing : Option (Option Fault))
  | bytes (bytes : List UInt8)
  | text (s : String)
  | address (address : Nat)
  | addresses (address pointer : Nat)
  | number (n : Nat)
  | flag (b : Bool)

abbrev Reply := Outcome InitError Fault Answer

variable {cores : Nat}

def start (cores : Nat) : Holder cores := ⟨.fresh, [], [], .start cores⟩

def frameText (address : Nat) : String := s!"PageFrame({Text.wideHex address})"

def call {α : Type} (h : Holder cores) (op : Allocator.Run cores α) :
    Except Fault α × Holder cores :=
  let ⟨cpu, held, past, allocator⟩ := h
  let (result, ⟨_, cpu, past, allocator⟩) := op.run ⟨⟨0⟩, cpu, past, allocator⟩
  (result, ⟨cpu, held, past, allocator⟩)

def report {α : Type} (result : Except Fault α × Holder cores) (f : α → Answer) :
    Reply × Holder cores :=
  (.map f (.ofRun result.1), result.2)

def hold (h : Holder cores) (name : String) (address : Nat) : Holder cores :=
  { h with held := h.held.put name address }

def letGo (h : Holder cores) (name : String) : Holder cores :=
  { h with held := h.held.erase name }

def write (h : Holder cores) (address : Nat) (bytes : List UInt8) : Holder cores :=
  let ⟨cpu, held, past, ⟨ram, frames, lists⟩⟩ := h
  ⟨cpu, held, past, ⟨ram.setBytes address bytes, frames, lists⟩⟩

def withPage (h : Holder cores) (name : String) (f : Nat → Reply × Holder cores) :
    Reply × Holder cores :=
  match h.held.find? name with
  | some address => f address
  | none => (.refused (.noHandle name), h)

def withBytes (h : Holder cores) (name : String) (f : Nat → Reply × Holder cores) :
    Reply × Holder cores :=
  match h.held.find? name with
  | some address =>
    if h.allocator.ram.covers address pageSize then f address else (.refused .notInRam, h)
  | none => (.refused (.noHandle name), h)

def allocMany (name : String) : (count number : Nat) → Holder cores →
    List Nat × Option (Option Fault) × Holder cores
  | 0, _, h => ([], none, h)
  | count + 1, number, h =>
    match h.call Allocator.alloc with
    | (.ok (some address), h) =>
      let (rest, missing, h) :=
        allocMany name count (number + 1) (h.hold (name ++ toString number) address)
      (address :: rest, missing, h)
    | (.ok none, h) => ([], some none, h)
    | (.error fault, h) => ([], some (some fault), h)

def advance (h : Holder cores) : Event → Reply × Holder cores
  | .moveTo core => (.done .unit, { h with cpu := { h.cpu with core } })
  | .setInterrupts on => (.done .unit, { h with cpu := { h.cpu with enabled := on } })
  | .init start stop =>
    if !h.allocator.frames.isInitialized && leavesRam h.allocator.ram start stop then
      (.refused .notInRam, h)
    else match h.call (Allocator.init start stop) with
      | (.ok result, h) => (.map (fun _ => .unit) (.ofExcept result), h)
      | (.error fault, h) => (.halted fault, h)
  | .alloc name =>
    match h.held.find? name with
    | some _ => (.refused (.handleInUse name), h)
    | none => match h.call Allocator.alloc with
      | (.ok (some address), h) =>
        (.done (.page address (h.allocator.ram.bytes address pageSize)), h.hold name address)
      | (.ok none, h) => (.done .noPage, h)
      | (.error fault, h) => (.halted fault, h)
  | .allocMany name count =>
    let (addresses, missing, h) := allocMany name count 0 h
    (.done (.pages addresses missing), h)
  | .free name =>
    match h.held.find? name with
    | some address => report ((h.letGo name).call (Allocator.free address)) fun _ => .unit
    | none => (.refused (.noHandle name), h)
  | .freeAddress address =>
    if address = 0 then (.refused .nullAddress, h)
    else report (h.call (Allocator.free address)) fun _ => .unit
  | .freeRange start stop => report (h.call (Allocator.freeRange start stop)) fun _ => .unit
  | .fill name byte => h.withBytes name fun address =>
      (.done .unit, h.write address (List.replicate pageSize byte))
  | .write name offset bytes => h.withBytes name fun address =>
      if offset + bytes.length ≤ pageSize then (.done .unit, h.write (address + offset) bytes)
      else (.refused .outsidePage, h)
  | .read name => h.withBytes name fun address =>
      (.done (.bytes (h.allocator.ram.bytes address pageSize)), h)
  | .record name => h.withPage name fun address => (.done (.text (frameText address)), h)
  | .address name => h.withPage name fun address => (.done (.addresses address address), h)
  | .intoRaw name => h.withPage name fun address => (.done (.address address), h.letGo name)
  | .ofRaw address name =>
    if address = 0 then (.refused .nullAddress, h)
    else match h.held.find? name with
      | some _ => (.refused (.handleInUse name), h)
      | none => (.done .unit, h.hold name address)
  | .peek address length =>
    if h.allocator.ram.covers address length then
      (.done (.bytes (h.allocator.ram.bytes address length)), h)
    else (.refused .notInRam, h)
  | .poke address bytes =>
    if h.allocator.ram.covers address bytes.length then (.done .unit, h.write address bytes)
    else (.refused .notInRam, h)
  | .freePages core => report (h.call (Allocator.freePages core)) .number
  | .totalFree => report (h.call Allocator.totalFree) .number
  | .capacity => (.done (.number h.allocator.capacity), h)
  | .isFree address => (.done (.flag (h.allocator.isFree address)), h)

structure Report where
  reply : Reply
  masks : Nat
  unmasks : Nat
  enabled : Bool
  log : List LogLine
  free : List Nat

def notices (past : List (Effect (Fin cores) (Allocator.Act cores))) : List Notice :=
  (Effect.acts past).filterMap fun
    | .tells notice => some notice
    | .usesList _ => none

def step (h : Holder cores) (event : Event) : Report × Holder cores :=
  let (reply, h) := { h with past := [] }.advance event
  (⟨reply, Effect.masks h.past, Effect.unmasks h.past, h.cpu.enabled,
    (notices h.past).map Notice.line, h.allocator.lists.toList.map (·.length)⟩, h)

end Holder

end KernelResources.Page
