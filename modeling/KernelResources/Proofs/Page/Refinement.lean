import KernelResources.Proofs.Page.Account

namespace KernelResources.Page

open Holder (Event Reply)

variable {cores : Nat}

namespace Account

structure Refines (a : Account cores) (event : Event) : Prop where
  -- A call is told what the stacks tell, and changes them as they say.
  told : ∀ call, a.holder.call? event = some call →
    (a.holder.step event).1.reply = (a.stock.serve a.holder.cpu.core call).1 ∧
      (a.next event).stock = (a.stock.serve a.holder.cpu.core call).2
  -- Whatever else a client does changes no stack.
  still : a.holder.call? event = none → (a.next event).stock = a.stock
  heights : (a.holder.step event).1.free = ((a.next event).stock.stack.map (·.length)).toList
  -- A page comes from the top of the first stack in the order that has any.
  handsOut : a.holder.call? event = some .alloc → ∀ page bytes,
    (a.holder.step event).1.reply = .done (.page page bytes) →
      ∃ (known : a.holder.cpu.core < cores) (c : Fin cores),
        a.stock.source ⟨a.holder.cpu.core, known⟩ = some c ∧
        a.stock.stack[c] = page :: (a.next event).stock.stack[c] ∧
        a.stock.KeepsOthers (a.next event).stock c
  outOfPages : a.holder.call? event = some .alloc →
    ((a.holder.step event).1.reply = .done .noPage ↔ a.stock.managed = none ∨
      a.holder.cpu.core < cores ∧ ∀ c : Fin cores, a.stock.stack[c] = [])
  -- Without the core that runs nothing happens at all.
  stranded : a.holder.call? event = some .alloc → a.stock.managed ≠ none →
    cores ≤ a.holder.cpu.core →
      (a.holder.step event).1.reply = .halted (.coreOutside .alloc a.holder.cpu.core cores) ∧
        (a.next event).stock = a.stock ∧ (a.next event).holder.allocator = a.holder.allocator
  -- A page goes on top of the stack of the core that runs.
  takesBack : ∀ page, a.holder.call? event = some (.free page) →
    (a.holder.step event).1.reply = .done .unit →
      ∃ known : a.holder.cpu.core < cores,
        (a.next event).stock = a.stock.push ⟨a.holder.cpu.core, known⟩ page ∧
        a.stock.KeepsOthers (a.next event).stock ⟨a.holder.cpu.core, known⟩

variable {ram : Ram} {a : Account cores}

theorem sound_refines (sound : Sound a) {event : Event} (spares : Spares a event) : Refines a event := by
  have told : ∀ call, a.holder.call? event = some call →
      (a.holder.step event).1.reply = (a.stock.serve a.holder.cpu.core call).1 ∧
        (a.next event).stock = (a.stock.serve a.holder.cpu.core call).2 := fun call asks =>
    ⟨(Holder.step_serves sound.shows asks).1, (next_served asks).1⟩
  have shows := (next_sound sound spares).shows
  refine ⟨told, fun none => (next_unserved none).1, ?_, ?_, ?_, ?_, ?_⟩
  · exact Vector.toList_map.symm.trans (congrArg Vector.toList shows.lengths)
  · intro asks page bytes reply
    obtain ⟨same, stock⟩ := told _ asks
    rw [stock, Stock.serve_alloc_stock]
    exact Stock.alloc_some _ _ _ (Stock.serve_alloc_page (same.symm.trans reply))
  · intro asks
    rw [(told _ asks).1, Stock.serve_alloc_none]
    exact Stock.alloc_none
  · intro asks managed outside
    obtain ⟨same, stock⟩ := told _ asks
    have unknown := Nat.not_lt.mpr outside
    obtain ⟨f, range⟩ := Option.ne_none_iff_exists'.mp managed
    obtain ⟨frames, _⟩ := sound.shows.of_managed range
    have stays : a.stock.alloc a.holder.cpu.core =
        (.error (.coreOutside .alloc a.holder.cpu.core cores), a.stock) := by
      unfold Stock.alloc
      rw [range]
      exact dif_neg unknown
    refine ⟨?_, ?_, Holder.step_alloc_outside frames unknown asks⟩
    · rw [same]
      simp only [Stock.serve, stays]
    · rw [stock, Stock.serve_alloc_stock, stays]
  · intro page asks reply
    obtain ⟨same, stock⟩ := told _ asks
    obtain ⟨known, pushed⟩ := Stock.free_ok (Stock.serve_free_unit (same.symm.trans reply))
    have stock : (a.next event).stock = a.stock.push ⟨a.holder.cpu.core, known⟩ page := stock.trans pushed
    refine ⟨known, stock, fun other away => ?_⟩
    rw [stock, Stock.stack_push, if_neg (Ne.symm away)]

-- In every state that the calls can bring about, whatever the client writes beside the links.
theorem allocator_refines_the_stacks (aligned : ram.base % pageSize = 0)
    (path : Run Spares (start cores ram) a) {event : Event} (spares : Spares a event) :
    Refines a event :=
  sound_refines (run_sound path (sound_start aligned)) spares

-- Core 1 has no page of its own and takes the newest one of core 0.
theorem allocator_refines_the_stacks_stolen :
    let a := ((start 2 (.zeroed 0x80000000 4)).next (.init 0x80000000 0x80004000)).next (.moveTo 1)
    Run Spares (start 2 (.zeroed 0x80000000 4)) a ∧
      a.stock.stack.toList = [[0x80003000, 0x80002000, 0x80001000], []] ∧
      (a.next (.alloc "p")).stock.stack.toList = [[0x80002000, 0x80001000], []] ∧
      Spares a (.alloc "p") ∧ Refines a (.alloc "p") := by
  have path : Run Spares (start 2 (.zeroed 0x80000000 4))
      (((start 2 (.zeroed 0x80000000 4)).next (.init 0x80000000 0x80004000)).next (.moveTo 1)) :=
    .step (.step .refl (spares_silent rfl)) (spares_silent rfl)
  refine ⟨path, by decide +kernel, by decide +kernel, spares_silent rfl, ?_⟩
  exact allocator_refines_the_stacks (by decide) path (spares_silent rfl)

end Account

end KernelResources.Page
