import KernelResources.Proofs.Buffer.Sheltered
import KernelResources.Proofs.Page.Sheltered

namespace KernelResources

open Buffer (Cache Machine)
open Page (Allocator Holder)

-- Every operation of either, from every state, with or without interrupts; and every step, which is a row
-- of such operations.
theorem interrupt_flags_are_restored (cores n m : Nat) :
    (∀ entry : Allocator.Entry, (entry.operation cores).Restores Allocator.Shelters fun _ => True) ∧
    (∀ (h : Holder cores) (event : Holder.Event), event.Operates → h.Shelters event) ∧
    (∀ call : Cache.Call n, call.operation.Restores Cache.Shelters fun _ => True) ∧
    ∀ (s : Machine n m) (task : TaskId) (event : Machine.Event m), event.Operates →
      s.Shelters task event :=
  ⟨fun entry => entry.restores, fun h _ operates => h.step_shelters operates, fun call => call.restores,
    fun s task _ operates => s.step_shelters task operates⟩

-- A caller on a core that does not exist, and a release by a task with its interrupts off that wakes a
-- task whose load the device then fails.
theorem interrupt_flags_are_restored_unwound :
    let h : Holder 1 := ((Holder.start 1).step (.moveTo 7)).2
    let b : Buffer.BlockId := ⟨1, 5⟩
    let s : Machine 1 1 := (((((Machine.start 1 1 .zeroed).step ⟨1⟩ (.acquire 0 b "a")).2.step ⟨2⟩
      (.read 0 b "b")).2.step ⟨1⟩ (.setFault 0 b true)).2.step ⟨1⟩ (.setInterrupts false)).2
    let t := s.step ⟨1⟩ (.release "a")
    h.Shelters (.freePages 3) ∧ (h.step (.freePages 3)).1.masks = 1 ∧
      t.1.woken.map (·.task) = [⟨2⟩] ∧ Effect.masks t.2.effects = 1 ∧ s.Shelters ⟨1⟩ (.release "a") ∧
      (t.2.cpu ⟨1⟩).enabled = false ∧ (t.2.cpu ⟨2⟩).enabled = true := by
  intro h b s t
  have restored := interrupt_flags_are_restored 1 1 1
  have released := restored.2.2.2 s ⟨1⟩ (.release "a") trivial
  refine ⟨restored.2.1 h (.freePages 3) trivial, by decide +kernel, by decide +kernel, by decide +kernel,
    released, ?_, ?_⟩
  · rw [released.flags]
    decide +kernel
  · rw [released.flags]
    decide +kernel

end KernelResources
