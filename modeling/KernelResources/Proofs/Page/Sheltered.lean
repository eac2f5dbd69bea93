import KernelResources.Page.Holder
import KernelResources.Proofs.MaskedSections
import Mathlib.Logic.Relation

namespace KernelResources.Page

variable {cores : Nat}

namespace Allocator

open Operation

-- The free list of a core changes under masked interrupts only, right after its use was announced.
def Shelters (e : Execution (Fin cores) (Act cores) (Allocator cores)) (after : Allocator cores) : Prop :=
  ∀ core : Fin cores, after.lists[core] ≠ e.state.lists[core] →
    e.cpu.enabled = false ∧ e.past.head? = some (.act (.usesList core))

variable {α : Type} {flag : Bool → Prop}

theorem restores_unlisted {op : Run cores α} (f : Allocator cores → Allocator cores)
    (changes : ∀ e, op.deeds e = [.change (f e.state)])
    (kept : ∀ a, (f a).lists = a.lists) : op.Restores Shelters flag :=
  restores_changes f changes fun e _ core changed => absurd (by rw [kept]) changed

theorem restores_usesList {op : Run cores α} (core : Fin cores) (f : Allocator cores → Allocator cores)
    (changes : ∀ e, op.deeds e = [.change (f e.state)])
    (one : ∀ a, ∃ list, (f a).lists = a.lists.set core list core.isLt) :
    (act (.usesList core) >>= fun _ => op).Restores Shelters (· = false) := by
  refine restores_announced f changes fun e off other changed => ?_
  obtain ⟨list, set⟩ := one e.state
  rw [set, entry_set] at changed
  split at changed
  · rename_i here
    exact ⟨off, by rw [here]; rfl⟩
  · exact absurd rfl changed

theorem restores_word (result : Except WordFault α) : (word result : Run cores α).Restores Shelters flag :=
  restores_ofExcept _

theorem restores_ownList (caller : Caller) : (ownList caller : Run cores _).Restores Shelters flag := by
  refine restores_bind (restores_still fun _ => rfl) fun cpu => ?_
  dsimp only
  split
  · exact restores_pure _
  · exact restores_throw _

theorem restores_fillPage (address : Nat) (byte : UInt8) :
    (fillPage address byte : Run cores Unit).Restores Shelters flag :=
  restores_unlisted (fun a => ⟨a.ram.fillPage address byte, a.frames, a.lists⟩) (fun _ => rfl) fun _ => rfl

theorem restores_pushOn (frames : Frames) (core : Fin cores) (index : UInt32) :
    (pushOn frames core index).Restores Shelters (· = false) :=
  restores_holding _ <| restores_usesList core
    (fun a => ⟨(a.lists[core].push frames a.ram index).2.2, a.frames,
      a.lists.set core (a.lists[core].push frames a.ram index).2.1 core.isLt⟩) (fun _ => rfl)
    fun _ => ⟨_, rfl⟩

theorem restores_popFrom (frames : Frames) (core : Fin cores) :
    (popFrom frames core).Restores Shelters (· = false) :=
  restores_holding _ <| restores_usesList core
    (fun a => ⟨(a.lists[core].pop frames a.ram).2.2, a.frames,
      a.lists.set core (a.lists[core].pop frames a.ram).2.1 core.isLt⟩) (fun _ => rfl)
    fun _ => ⟨_, rfl⟩

theorem restores_accept (address : Nat) : (accept address : Run cores _).Restores Shelters flag := by
  refine restores_bind (restores_view _) fun managed => ?_
  cases managed with
  | none => exact restores_throw _
  | some frames =>
    dsimp only
    split
    · exact restores_throw _
    · rename_i index _
      refine restores_bind (restores_unlisted
        (fun a => ⟨(frames.claim a.ram index address).2, a.frames, a.lists⟩) (fun _ => rfl) fun _ => rfl)
        fun claimed => ?_
      cases claimed with
      | error error => exact restores_throw _
      | ok => exact restores_pure _

theorem restores_free (address : Nat) : (free address : Run cores Unit).Restores Shelters flag :=
  restores_bind (restores_accept address) fun _ => restores_bind (restores_fillPage _ _) fun _ =>
    restores_masked (restores_bind (restores_ownList _) fun _ => restores_pushOn _ _ _)

theorem restores_freeRun (count address : Nat) :
    (freeRun count address : Run cores Unit).Restores Shelters flag := by
  induction count generalizing address with
  | zero => exact restores_pure _
  | succ count ih =>
    unfold freeRun
    split
    · exact restores_bind (restores_free address) fun _ => ih _
    · exact ih _

theorem restores_freeRange (start stop : Nat) :
    (freeRange start stop : Run cores Unit).Restores Shelters flag :=
  restores_bind (restores_word _) fun _ => restores_bind (restores_freeRun _ _) fun _ =>
    restores_discard (restores_word _)

theorem restores_init (start stop : Nat) : (init start stop : Run cores _).Restores Shelters flag := by
  refine restores_bind (restores_view _) fun known => ?_
  split
  · exact restores_pure _
  · refine restores_bind (restores_word _) fun plan => ?_
    cases plan with
    | error error => exact restores_pure _
    | ok frames =>
      exact restores_bind (restores_unlisted (fun a => ⟨frames.mark a.ram, ⟨some frames⟩, a.lists⟩)
        (fun _ => rfl) fun _ => rfl) fun _ => restores_bind (restores_act _) fun _ =>
          restores_bind (restores_freeRange _ _) fun _ => restores_pure _

theorem restores_stealFrom (frames : Frames) (core : Fin cores) (victims : List (Fin cores)) :
    (stealFrom frames core victims).Restores Shelters (· = false) := by
  induction victims with
  | nil => exact restores_pure _
  | cons victim rest ih =>
    refine restores_bind (restores_popFrom frames victim) fun popped => ?_
    cases popped with
    | none => exact ih
    | some index => exact restores_bind (restores_act _) fun _ => restores_pure _

theorem restores_take (frames : Frames) (core : Fin cores) :
    (take frames core).Restores Shelters (· = false) := by
  refine restores_bind (restores_popFrom frames core) fun popped => ?_
  cases popped with
  | none => exact restores_stealFrom frames core _
  | some index => exact restores_pure _

theorem restores_alloc : (alloc : Run cores _).Restores Shelters flag := by
  refine restores_bind (restores_view _) fun managed => ?_
  cases managed with
  | none => exact restores_pure _
  | some frames =>
    refine restores_masked (restores_bind (restores_ownList _) fun core =>
      restores_bind (restores_take frames core) fun taken => ?_)
    cases taken with
    | none => exact restores_bind (restores_act _) fun _ => restores_pure _
    | some index => exact restores_bind (restores_fillPage _ _) fun _ => restores_pure _

theorem restores_freePages (id : Nat) : (freePages id : Run cores Nat).Restores Shelters flag := by
  refine restores_masked ?_
  split
  · exact restores_holding _ (restores_view _)
  · exact restores_throw _

theorem restores_totalFree : (totalFree : Run cores Nat).Restores Shelters flag := by
  unfold totalFree
  generalize List.range cores = ids
  induction ids with
  | nil => exact restores_pure _
  | cons id rest ih =>
    exact restores_bind (restores_freePages id) fun _ => restores_bind ih fun _ => restores_pure _

inductive Entry where
  | init (start stop : Nat)
  | alloc
  | free (address : Nat)
  | freeRange (start stop : Nat)
  | freePages (core : Nat)
  | totalFree
  deriving DecidableEq, Repr

namespace Entry

def Result : Entry → Type
  | .init .. => Except InitError Unit
  | .alloc => Option Nat
  | .free _ | .freeRange .. => Unit
  | .freePages _ | .totalFree => Nat

def operation (cores : Nat) : (entry : Entry) → Run cores entry.Result
  | .init start stop => Allocator.init start stop
  | .alloc => Allocator.alloc
  | .free address => Allocator.free address
  | .freeRange start stop => Allocator.freeRange start stop
  | .freePages core => Allocator.freePages core
  | .totalFree => Allocator.totalFree

theorem restores (entry : Entry) : (entry.operation cores).Restores Shelters flag := by
  cases entry with
  | init start stop => exact restores_init start stop
  | alloc => exact restores_alloc
  | free address => exact restores_free address
  | freeRange start stop => exact restores_freeRange start stop
  | freePages core => exact restores_freePages core
  | totalFree => exact restores_totalFree

end Entry

end Allocator

namespace Holder

-- What the allocator is asked for with, or what is done with a page. The others move the caller or switch
-- its interrupts.
def Event.Operates : Event → Prop
  | .moveTo _ | .setInterrupts _ => False
  | _ => True

variable {h k : Holder cores}

-- Part of a step: the allocator is called, or nothing is done that touches a list, the core or the
-- interrupt flag.
inductive Part (h : Holder cores) : Holder cores → Prop where
  | runs (entry : Allocator.Entry) : Part h (h.call (entry.operation cores)).2
  | rests (k : Holder cores) (lists : k.allocator.lists = h.allocator.lists) (cpu : k.cpu = h.cpu)
      (past : k.past = h.past) : Part h k

abbrev Parts : Holder cores → Holder cores → Prop := Relation.ReflTransGen Part

theorem parts_rest (lists : k.allocator.lists = h.allocator.lists) (cpu : k.cpu = h.cpu)
    (past : k.past = h.past) : h.Parts k := .single (.rests k lists cpu past)

theorem parts_call (h : Holder cores) (entry : Allocator.Entry) :
    h.Parts (h.call (entry.operation cores)).2 := .single (.runs entry)

theorem parts_write (h : Holder cores) (address : Nat) (bytes : List UInt8) :
    h.Parts (h.write address bytes) := parts_rest rfl rfl rfl

theorem parts_withBytes {name : String} {f : Nat → Reply × Holder cores}
    (parts : ∀ address, h.Parts (f address).2) : h.Parts (h.withBytes name f).2 := by
  unfold withBytes
  split
  · split
    · exact parts _
    · exact .refl
  · exact .refl

theorem parts_withPage {name : String} {f : Nat → Reply × Holder cores}
    (parts : ∀ address, h.Parts (f address).2) : h.Parts (h.withPage name f).2 := by
  unfold withPage
  split
  · exact parts _
  · exact .refl

theorem parts_allocMany (name : String) (count number : Nat) (h : Holder cores) :
    h.Parts (allocMany name count number h).2.2 := by
  induction count generalizing number h with
  | zero => exact .refl
  | succ count ih =>
    have allocated : h.Parts (h.call Allocator.alloc).2 := parts_call h .alloc
    unfold allocMany
    generalize h.call Allocator.alloc = ended at allocated ⊢
    obtain ⟨result, k⟩ := ended
    match result with
    | .ok (some address) =>
      have held : k.Parts (k.hold (name ++ toString number) address) := parts_rest rfl rfl rfl
      exact (allocated.trans held).trans (ih _ _)
    | .ok none => exact allocated
    | .error fault => exact allocated

theorem parts_advance {event : Event} (h : Holder cores) (operates : event.Operates) :
    h.Parts (h.advance event).2 := by
  unfold advance
  cases event with
  | moveTo | setInterrupts => exact operates.elim
  | init start stop =>
    have ran : h.Parts (h.call (Allocator.init start stop)).2 := parts_call h (.init start stop)
    dsimp only
    split
    · exact .refl
    · generalize h.call (Allocator.init start stop) = ended at ran ⊢
      obtain ⟨result, k⟩ := ended
      cases result <;> exact ran
  | alloc name =>
    have ran : h.Parts (h.call Allocator.alloc).2 := parts_call h .alloc
    dsimp only
    split
    · exact .refl
    · generalize h.call Allocator.alloc = ended at ran ⊢
      obtain ⟨result, k⟩ := ended
      match result with
      | .ok (some address) => exact ran.trans (parts_rest rfl rfl rfl)
      | .ok none => exact ran
      | .error fault => exact ran
  | allocMany name count => exact parts_allocMany name count 0 h
  | free name =>
    dsimp only
    split
    · rename_i address _
      have gone : h.Parts (h.letGo name) := parts_rest rfl rfl rfl
      exact gone.trans (parts_call _ (.free address))
    · exact .refl
  | freeAddress address =>
    dsimp only
    split
    · exact .refl
    · exact parts_call h (.free address)
  | freeRange start stop => exact parts_call h (.freeRange start stop)
  | fill name byte => exact parts_withBytes fun address => parts_write h address _
  | write name offset bytes =>
    refine parts_withBytes fun address => ?_
    split
    · exact parts_write h _ bytes
    · exact .refl
  | read name => exact parts_withBytes fun _ => .refl
  | record name | address name => exact parts_withPage fun _ => .refl
  | intoRaw name => exact parts_withPage fun _ => parts_rest rfl rfl rfl
  | ofRaw address name =>
    dsimp only
    split
    · exact .refl
    · split
      · exact .refl
      · exact parts_rest rfl rfl rfl
  | peek address length =>
    dsimp only
    split <;> exact .refl
  | poke address bytes =>
    dsimp only
    split
    · exact parts_write h address bytes
    · exact .refl
  | freePages core => exact parts_call h (.freePages core)
  | totalFree => exact parts_call h .totalFree
  | capacity | isFree => exact .refl

def execution (h : Holder cores) : Execution (Fin cores) (Allocator.Act cores) (Allocator cores) :=
  ⟨⟨0⟩, h.cpu, h.past, h.allocator⟩

theorem restored_part (part : h.Part k) : Restored h.execution k.execution := by
  cases part with
  | runs entry =>
    have restores : (entry.operation cores).Restores Allocator.Shelters fun _ => True := entry.restores
    have restored := restores.restored h.execution trivial
    exact ⟨rfl, restored.cpu, restored.calls⟩
  | rests k lists cpu past =>
    refine ⟨rfl, cpu, 0, ?_, ?_, fun _ => rfl⟩
    · exact congrArg Effect.masks past
    · exact congrArg Effect.unmasks past

theorem restored_parts (parts : h.Parts k) : Restored h.execution k.execution := by
  induction parts with
  | refl => exact .refl _
  | tail _ part ih => exact ih.trans (restored_part part)

structure Shelters (h : Holder cores) (event : Event) : Prop where
  -- The caller has the core and the interrupt flag that it had, and is told so.
  flag : (h.step event).2.cpu = h.cpu
  told : (h.step event).1.enabled = h.cpu.enabled
  -- Interrupts were switched on as often as off, and not at all if they were off.
  balanced : (h.step event).1.masks = (h.step event).1.unmasks
  silent : h.cpu.enabled = false → (h.step event).1.masks = 0
  -- The lists change in the calls of the allocator alone.
  parts : Parts { h with past := [] } (h.step event).2

theorem step_shelters (h : Holder cores) {event : Event} (operates : event.Operates) :
    h.Shelters event := by
  have parts := parts_advance { h with past := [] } operates
  have restored := restored_parts parts
  obtain ⟨k, masked, unmasked, none⟩ := restored.calls
  have cpu : (h.step event).2.cpu = h.cpu := restored.cpu
  refine ⟨cpu, congrArg Processor.enabled cpu, masked.trans unmasked.symm, fun off => ?_, parts⟩
  exact masked.trans (by rw [none off]; rfl)

end Holder

end KernelResources.Page
