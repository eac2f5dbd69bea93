import KernelResources.Proofs.Page.AllocatorEnds
import KernelResources.Proofs.Page.StockCalls

namespace KernelResources.Page

variable {cores : Nat}

namespace Allocator

variable {a : Allocator cores} {s : Stock cores}

theorem alloc_hands (shows : Shows a s) (core p : Nat) (t : Stock cores)
    (handed : s.alloc core = (.ok (some p), t)) :
    s.has p = true ∧ t.has p = false ∧ ∃ f, s.managed = some f ∧ f.Manages p := by
  cases shows with
  | idle _ _ _ stock =>
    subst stock
    cases handed
  | running f frames managed kept =>
    unfold Stock.alloc at handed
    rw [managed] at handed
    dsimp only at handed
    split at handed
    · split at handed
      · cases handed
      · rename_i found
        obtain ⟨page, rest, stack⟩ := Stock.source_some found
        rw [stack] at handed
        cases handed
        obtain ⟨here, gone⟩ := kept.gone stack
        exact ⟨here, gone, f, managed, kept.manages here⟩
    · cases handed

theorem allocMany_hands (shows : Shows a s) (core count : Nat) :
    (s.allocMany core count).1.Nodup ∧ ∀ p ∈ (s.allocMany core count).1,
      (∃ c : Fin cores, p ∈ s.stack[c]) ∧ (s.allocMany core count).2.2.has p = false := by
  induction count generalizing a s with
  | zero => exact ⟨.nil, by simp [Stock.allocMany]⟩
  | succ count ih =>
    unfold Stock.allocMany
    obtain ⟨b, _, follows, shrinks⟩ := alloc_follows shows core
    have handed := alloc_hands shows core
    have stacked := Stock.alloc_some s core
    generalize s.alloc core = ended at follows shrinks handed stacked
    obtain ⟨result, t⟩ := ended
    cases result with
    | error fault => exact ⟨.nil, by simp⟩
    | ok page =>
      cases page with
      | none => exact ⟨.nil, by simp⟩
      | some page =>
        obtain ⟨_, gone, _⟩ := handed page t rfl
        obtain ⟨_, c, _, stack, others⟩ := stacked page rfl
        obtain ⟨once, rest⟩ := ih follows.shows
        have less := (Stock.allocMany_serves t core count).2.2
        refine ⟨List.nodup_cons.mpr ⟨?_, once⟩, ?_⟩
        · intro again
          rw [Stock.has_iff.mpr (.inr (rest page again).1)] at gone
          cases gone
        · intro p member
          rcases List.mem_cons.mp member with rfl | later
          · refine ⟨⟨c, by rw [stack]; exact List.mem_cons_self⟩, ?_⟩
            exact Bool.eq_false_iff.mpr fun has => by simp [less _ has] at gone
          · obtain ⟨⟨d, inside⟩, out⟩ := rest p later
            refine ⟨⟨d, ?_⟩, out⟩
            by_cases same : d = c
            · subst same
              rw [stack]
              exact List.mem_cons_of_mem _ inside
            · rw [← others d same]
              exact inside

theorem handed_told (result : Except Fault Unit) : Holder.handed (Stock.told result) = [] := by
  cases result <;> rfl

theorem serve_hands (shows : Shows a s) (core : Nat) (call : Call) :
    (Holder.handed (s.serve core call).1).Nodup ∧ ∀ p ∈ Holder.handed (s.serve core call).1,
      (∃ c : Fin cores, p ∈ s.stack[c]) ∧ (s.serve core call).2.has p = false := by
  have none : ∀ {reply : Holder.Reply} {t : Stock cores}, Holder.handed reply = [] →
      (Holder.handed reply).Nodup ∧
      ∀ p ∈ Holder.handed reply, (∃ c : Fin cores, p ∈ s.stack[c]) ∧ t.has p = false := by
    intro reply t none
    rw [none]
    exact ⟨.nil, nofun⟩
  cases call with
  | alloc =>
    simp only [Stock.serve]
    have handed := alloc_hands shows core
    have stacked := Stock.alloc_some s core
    generalize s.alloc core = ended at handed stacked
    obtain ⟨result, t⟩ := ended
    cases result with
    | error fault => exact none rfl
    | ok page =>
      cases page with
      | none => exact none rfl
      | some page =>
        obtain ⟨_, gone, _⟩ := handed page t rfl
        obtain ⟨_, c, _, stack, _⟩ := stacked page rfl
        refine ⟨List.nodup_singleton page, ?_⟩
        intro p member
        rw [List.mem_singleton.mp member]
        exact ⟨⟨c, by rw [stack]; exact List.mem_cons_self⟩, gone⟩
  | allocMany count => exact allocMany_hands shows core count
  | init start stop =>
    apply none
    simp only [Stock.serve]
    generalize s.init core start stop = ended
    obtain ⟨result, t⟩ := ended
    cases result with
    | error fault => rfl
    | ok value => cases value <;> rfl
  | free address => exact none (handed_told _)
  | freeRange start stop => exact none (handed_told _)
  | freePages id =>
    apply none
    simp only [Stock.serve, Stock.freePages]
    split <;> rfl
  | totalFree => exact none rfl
  | capacity => exact none rfl
  | isFree address => exact none rfl

end Allocator

namespace Holder

open Allocator

variable {h : Holder cores} {s t : Stock cores} {α : Type} {p : Nat}

theorem call_yields {op : Allocator.Run cores α} {result : Except Fault α} {b : Allocator cores}
    (yields : op.Yields h.cpu.core h.allocator result b) :
    ∃ past, h.call op = (result, ⟨h.cpu, h.held, past, b⟩) := by
  obtain ⟨cpu, held, past, allocator⟩ := h
  obtain ⟨ended, reached, still⟩ := yields ⟨⟨0⟩, cpu, past, allocator⟩ rfl rfl
  refine ⟨(op.run ⟨⟨0⟩, cpu, past, allocator⟩).2.past, ?_⟩
  simp only [call, ended, reached, still]

theorem allocMany_serves (shows : Shows h.allocator s) (name : String) (count number : Nat) :
    ∃ held past b,
      allocMany name count number h = ((s.allocMany h.cpu.core count).1,
        (s.allocMany h.cpu.core count).2.1, ⟨h.cpu, held, past, b⟩) ∧
      Follows h.allocator s b (s.allocMany h.cpu.core count).2.2 ∧
      (s.allocMany h.cpu.core count).2.2.Grows s := by
  induction count generalizing h s number with
  | zero => exact ⟨h.held, h.past, h.allocator, rfl, .refl shows, .refl s⟩
  | succ count ih =>
    obtain ⟨b, yields, follows, shrinks⟩ := alloc_follows shows h.cpu.core
    obtain ⟨past, called⟩ := call_yields yields
    unfold allocMany Stock.allocMany
    rw [called]
    generalize s.alloc h.cpu.core = ended at follows shrinks
    obtain ⟨result, t⟩ := ended
    cases result with
    | error fault => exact ⟨h.held, past, b, rfl, follows, shrinks⟩
    | ok page =>
      cases page with
      | none => exact ⟨h.held, past, b, rfl, follows, shrinks⟩
      | some page =>
        have rest := ih (h := hold ⟨h.cpu, h.held, past, b⟩ (name ++ toString number) page)
          follows.shows (number + 1)
        obtain ⟨held, past, c, ran, further, less⟩ := rest
        dsimp only
        rw [ran]
        exact ⟨held, past, c, rfl, follows.trans further (shrinks.steady_down less), less.trans shrinks⟩

theorem init_serves (shows : Shows h.allocator s) {start stop : Nat}
    (asks : h.call? (.init start stop) = some (.init start stop)) :
    ∃ held past b, h.advance (.init start stop) =
        ((s.serve h.cpu.core (.init start stop)).1, ⟨h.cpu, held, past, b⟩) ∧
      Follows h.allocator s b (s.serve h.cpu.core (.init start stop)).2 := by
  have refused : (!h.allocator.frames.isInitialized && leavesRam h.allocator.ram start stop) = false := by
    simpa [call?] using asks
  obtain ⟨b, yields, follows, _⟩ :=
    init_follows shows h.cpu.core start stop (by simpa using refused)
  obtain ⟨past, called⟩ := call_yields yields
  simp only [advance, refused, Bool.false_eq_true, if_false, called, Stock.serve]
  generalize s.init h.cpu.core start stop = ended at follows
  obtain ⟨result, t⟩ := ended
  cases result with
  | ok value => exact ⟨h.held, past, b, rfl, follows⟩
  | error fault => exact ⟨h.held, past, b, rfl, follows⟩

theorem alloc_serves (shows : Shows h.allocator s) {name : String} (unused : h.held.find? name = none) :
    ∃ held past b, h.advance (.alloc name) = ((s.serve h.cpu.core .alloc).1, ⟨h.cpu, held, past, b⟩) ∧
      Follows h.allocator s b (s.serve h.cpu.core .alloc).2 := by
  obtain ⟨b, yields, follows, _⟩ := alloc_follows shows h.cpu.core
  obtain ⟨past, called⟩ := call_yields yields
  simp only [advance, unused, called, Stock.serve]
  have hands := alloc_hands shows h.cpu.core
  generalize s.alloc h.cpu.core = ended at follows hands
  obtain ⟨result, t⟩ := ended
  cases result with
  | error fault => exact ⟨h.held, past, b, rfl, follows⟩
  | ok page =>
    cases page with
    | none => exact ⟨h.held, past, b, rfl, follows⟩
    | some page =>
      -- The reply shows the bytes of the page, which the fill has made known.
      obtain ⟨here, gone, f, managed, inside⟩ := hands _ _ rfl
      have full := (follows.treats f (follows.managed f managed)).handed page inside here gone
      refine ⟨h.held.put name page, past, b, ?_, follows⟩
      rw [← full.bytes]
      rfl

theorem advance_serves (shows : Shows h.allocator s) {event : Event} {call : Call}
    (asks : h.call? event = some call) :
    ∃ held past b, h.advance event = ((s.serve h.cpu.core call).1, ⟨h.cpu, held, past, b⟩) ∧
      Follows h.allocator s b (s.serve h.cpu.core call).2 := by
  cases event with
  | init start stop =>
    have same : call = .init start stop := by
      simp only [call?] at asks
      split at asks
      · cases asks
      · exact (Option.some.inj asks).symm
    subst same
    exact init_serves shows asks
  | alloc name =>
    simp only [call?] at asks
    cases unused : h.held.find? name with
    | some held =>
      rw [unused] at asks
      cases asks
    | none =>
      rw [unused] at asks
      cases asks
      exact alloc_serves shows unused
  | allocMany name count =>
    cases asks
    obtain ⟨held, past, b, ran, follows, _⟩ := allocMany_serves shows name count 0
    simp only [advance, ran, Stock.serve]
    exact ⟨held, past, b, rfl, follows⟩
  | free name =>
    simp only [call?, Option.map_eq_some_iff] at asks
    obtain ⟨address, held, rfl⟩ := asks
    obtain ⟨b, yields, follows, _⟩ := free_follows shows h.cpu.core address
    obtain ⟨past, called⟩ := call_yields (h := h.letGo name) yields
    simp only [advance, held, called, report, Stock.serve]
    exact ⟨_, past, b, rfl, follows⟩
  | freeAddress address =>
    simp only [call?] at asks
    split at asks
    · cases asks
    · rename_i nonzero
      cases asks
      obtain ⟨b, yields, follows, _⟩ := free_follows shows h.cpu.core address
      obtain ⟨past, called⟩ := call_yields yields
      simp only [advance, if_neg nonzero, called, report, Stock.serve]
      exact ⟨_, past, b, rfl, follows⟩
  | freeRange start stop =>
    cases asks
    obtain ⟨b, yields, follows, _⟩ := freeRange_follows shows h.cpu.core start stop
    obtain ⟨past, called⟩ := call_yields yields
    simp only [advance, called, report, Stock.serve]
    exact ⟨_, past, b, rfl, follows⟩
  | freePages id =>
    cases asks
    obtain ⟨past, called⟩ := call_yields (freePages_yields shows h.cpu.core id)
    simp only [advance, called, report, Stock.serve]
    exact ⟨_, past, _, rfl, .refl shows⟩
  | totalFree =>
    cases asks
    obtain ⟨past, called⟩ := call_yields (totalFree_yields shows h.cpu.core)
    simp only [advance, called, report, Stock.serve]
    exact ⟨_, past, _, rfl, .refl shows⟩
  | capacity =>
    cases asks
    simp only [advance, Stock.serve, shows.capacity]
    exact ⟨_, _, _, rfl, .refl shows⟩
  | isFree address =>
    cases asks
    simp only [advance, Stock.serve, shows.isFree]
    exact ⟨_, _, _, rfl, .refl shows⟩
  | _ => cases asks

def through (h : Holder cores) : Event → Option Nat
  | .fill name _ => h.held.find? name
  | .write name _ _ => h.held.find? name
  | _ => none

def written (h : Holder cores) : Event → Option (Nat × List UInt8)
  | .fill name byte =>
    match h.held.find? name with
    | some page =>
      if h.allocator.ram.covers page pageSize then some (page, List.replicate pageSize byte) else none
    | none => none
  | .write name offset bytes =>
    match h.held.find? name with
    | some page =>
      if h.allocator.ram.covers page pageSize && offset + bytes.length ≤ pageSize then
        some (page + offset, bytes)
      else none
    | none => none
  | .poke address bytes =>
    if h.allocator.ram.covers address bytes.length then some (address, bytes) else none
  | _ => none

def overwritten (a : Allocator cores) : Option (Nat × List UInt8) → Allocator cores
  | none => a
  | some (address, bytes) => ⟨a.ram.setBytes address bytes, a.frames, a.lists⟩

theorem advance_writes {event : Event} (asks : h.call? event = none) :
    (h.advance event).2.allocator = overwritten h.allocator (h.written event) ∧
      handed (h.advance event).1 = [] ∧ faults (h.advance event).1 = [] := by
  cases event with
  | init start stop =>
    simp only [call?] at asks
    split at asks
    · rename_i refused
      simp only [advance, if_pos refused]
      exact ⟨rfl, rfl, rfl⟩
    · cases asks
  | alloc name =>
    simp only [call?] at asks
    cases used : h.held.find? name with
    | some held =>
      simp only [advance, used]
      exact ⟨rfl, rfl, rfl⟩
    | none =>
      rw [used] at asks
      cases asks
  | free name =>
    simp only [call?, Option.map_eq_none_iff] at asks
    simp only [advance, asks]
    exact ⟨rfl, rfl, rfl⟩
  | freeAddress address =>
    simp only [call?] at asks
    split at asks
    · rename_i zero
      simp only [advance, if_pos zero]
      exact ⟨rfl, rfl, rfl⟩
    · cases asks
  | fill name byte =>
    simp only [advance, withBytes, written]
    cases h.held.find? name with
    | none => exact ⟨rfl, rfl, rfl⟩
    | some page =>
      dsimp only
      by_cases covered : h.allocator.ram.covers page pageSize = true
      · rw [if_pos covered, if_pos covered]
        exact ⟨rfl, rfl, rfl⟩
      · rw [if_neg covered, if_neg covered]
        exact ⟨rfl, rfl, rfl⟩
  | write name offset bytes =>
    simp only [advance, withBytes, written]
    cases h.held.find? name with
    | none => exact ⟨rfl, rfl, rfl⟩
    | some page =>
      dsimp only
      by_cases covered : h.allocator.ram.covers page pageSize = true
      · by_cases small : offset + bytes.length ≤ pageSize
        · rw [if_pos covered, if_pos small, if_pos (by simp [covered, small])]
          exact ⟨rfl, rfl, rfl⟩
        · rw [if_pos covered, if_neg small, if_neg (by simp [small])]
          exact ⟨rfl, rfl, rfl⟩
      · rw [if_neg covered, if_neg (by simp [covered])]
        exact ⟨rfl, rfl, rfl⟩
  | poke address bytes =>
    simp only [advance, written]
    split <;> exact ⟨rfl, rfl, rfl⟩
  | read name =>
    simp only [advance, withBytes]
    split
    · split <;> exact ⟨rfl, rfl, rfl⟩
    · exact ⟨rfl, rfl, rfl⟩
  | ofRaw address name =>
    simp only [advance]
    split
    · exact ⟨rfl, rfl, rfl⟩
    · split <;> exact ⟨rfl, rfl, rfl⟩
  | peek address length =>
    simp only [advance]
    split <;> exact ⟨rfl, rfl, rfl⟩
  | record name =>
    simp only [advance, withPage]
    split <;> exact ⟨rfl, rfl, rfl⟩
  | address name =>
    simp only [advance, withPage]
    split <;> exact ⟨rfl, rfl, rfl⟩
  | intoRaw name =>
    simp only [advance, withPage]
    split <;> exact ⟨rfl, rfl, rfl⟩
  | moveTo core => exact ⟨rfl, rfl, rfl⟩
  | setInterrupts on => exact ⟨rfl, rfl, rfl⟩
  | _ => cases asks

theorem step_serves (shows : Shows h.allocator s) {event : Event} {call : Call}
    (asks : h.call? event = some call) :
    (h.step event).1.reply = (s.serve h.cpu.core call).1 ∧
      Follows h.allocator s (h.step event).2.allocator (s.serve h.cpu.core call).2 := by
  have asks : Holder.call? { h with past := [] } event = some call := by
    cases event <;> exact asks
  obtain ⟨held, past, b, served, follows⟩ := advance_serves (h := { h with past := [] }) shows asks
  unfold step
  rw [served]
  exact ⟨rfl, follows⟩

theorem step_alloc_outside {f : Frames} (frames : h.allocator.frames = ⟨some f⟩)
    (unknown : ¬ h.cpu.core < cores) {event : Event} (asks : h.call? event = some .alloc) :
    (h.step event).2.allocator = h.allocator := by
  cases event with
  | alloc name =>
    simp only [call?] at asks
    cases unused : h.held.find? name with
    | some held =>
      rw [unused] at asks
      cases asks
    | none =>
      obtain ⟨past, called⟩ := call_yields (h := { h with past := [] }) (alloc_outside frames unknown)
      simp only [step, advance, unused, called]
  | init start stop =>
    simp only [call?] at asks
    split at asks <;> cases asks
  | free name =>
    simp only [call?] at asks
    cases held : h.held.find? name <;> rw [held] at asks <;> cases asks
  | freeAddress address =>
    simp only [call?] at asks
    split at asks <;> cases asks
  | _ => cases asks

theorem written_call {event : Event} {call : Call} (asks : h.call? event = some call) :
    h.written event = none := by
  cases event <;> first | rfl | cases asks

theorem step_writes {event : Event} (asks : h.call? event = none) :
    (h.step event).2.allocator = overwritten h.allocator (h.written event) ∧
      handed (h.step event).1.reply = [] ∧ faults (h.step event).1.reply = [] := by
  have asks : Holder.call? { h with past := [] } event = none := by
    cases event <;> exact asks
  obtain ⟨wrote, plain⟩ := advance_writes asks
  refine ⟨wrote.trans ?_, plain⟩
  cases event <;> rfl

end Holder

end KernelResources.Page
