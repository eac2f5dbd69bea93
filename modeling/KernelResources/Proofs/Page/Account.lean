import KernelResources.Proofs.Page.Serving
import KernelResources.Proofs.Page.StockCalls
import KernelResources.Proofs.RegistryCounts

-- A holder at work, with the books beside it: the stock that serves the same calls, the pages that the
-- replies tell to be lost, and what the owners of pages wrote to them. The books look at what the holder
-- is told, never at the links or at memory.

namespace KernelResources.Page

open Holder (Event Reply)

structure Account (cores : Nat) where
  holder : Holder cores
  stock : Stock cores
  lost : List Nat
  -- The pages that were handed out and not freed since, with the bytes that they should hold.
  live : Registry Nat (List UInt8)

namespace Account

variable {cores : Nat} {ram : Ram} {a b c : Account cores}

def start (cores : Nat) (ram : Ram) : Account cores :=
  ⟨⟨.fresh, [], [], ⟨ram, .empty, Vector.replicate cores .empty⟩⟩, .empty, [], []⟩

def asked (a : Account cores) (event : Event) : List Nat :=
  match a.holder.call? event with
  | some call => call.asked
  | none => []

def patched (offset : Nat) (bytes old : List UInt8) : List UInt8 :=
  old.take offset ++ bytes ++ old.drop (offset + bytes.length)

def issued (live : Registry Nat (List UInt8)) (page : Nat) : Registry Nat (List UInt8) :=
  live.put page (List.replicate pageSize allocFill)

def wrote (live : Registry Nat (List UInt8)) :
    Option Nat → Option (Nat × List UInt8) → Registry Nat (List UInt8)
  | some page, some (address, bytes) => live.update page (patched (address - page) bytes)
  | _, _ => live

def next (a : Account cores) (event : Event) : Account cores :=
  let (report, holder) := a.holder.step event
  let freed := fun page => (a.asked event).contains page && holder.allocator.isFree page
  { holder
    stock := match a.holder.call? event with
      | some call => (a.stock.serve a.holder.cpu.core call).2
      | none => a.stock
    lost := Holder.lostBy (a.asked event) report.reply ++ a.lost
    live := (Holder.handed report.reply).foldl issued
      (wrote (a.live.filter fun pair => !freed pair.1) (a.holder.through event)
        (a.holder.written event)) }

abbrev Rule (cores : Nat) : Type := Account cores → Event → Prop

-- Nobody but the allocator writes to a link word.
def Spares : Rule cores := fun a event =>
  ∀ f address bytes, a.holder.allocator.frames = ⟨some f⟩ →
    a.holder.written event = some (address, bytes) →
      ∀ k, k < bytes.length → ¬ f.InTable (address + k)

theorem spares_silent {event : Event} (silent : a.holder.written event = none) : Spares a event := by
  intro f address bytes _ wrote
  rw [silent] at wrote
  cases wrote

inductive Run (rule : Rule cores) (a : Account cores) : Account cores → Prop where
  | refl : Run rule a a
  | step {b : Account cores} {event : Event} (before : Run rule a b) (kept : rule b event) :
      Run rule a (b.next event)

structure Sound (a : Account cores) : Prop where
  shows : a.holder.allocator.Shows a.stock
  lost : a.lost = a.stock.lost

theorem sound_start (aligned : ram.base % pageSize = 0) : Sound (start cores ram) :=
  ⟨.idle aligned rfl rfl rfl, rfl⟩

theorem table_overwritten {event : Event} (spares : Spares a event) {f : Frames}
    (frames : a.holder.allocator.frames = ⟨some f⟩) {word : Nat} (inside : f.InTable word) :
    (Holder.overwritten a.holder.allocator (a.holder.written event)).ram.byte word =
      a.holder.allocator.ram.byte word := by
  cases wrote : a.holder.written event with
  | none => rfl
  | some piece =>
    obtain ⟨address, bytes⟩ := piece
    apply Ram.byte_setBytes_of_outside
    apply Ram.beside_of_ne
    rintro k small rfl
    exact spares f address bytes frames wrote k small inside

theorem shows_overwritten (shows : a.holder.allocator.Shows a.stock) {event : Event}
    (spares : Spares a event) :
    (Holder.overwritten a.holder.allocator (a.holder.written event)).Shows a.stock := by
  cases wrote : a.holder.written event with
  | none => exact shows
  | some piece =>
    obtain ⟨address, bytes⟩ := piece
    cases shows with
    | idle aligned frames lists stock =>
      refine .idle ?_ frames lists stock
      rw [Holder.overwritten, Ram.base_setBytes]
      exact aligned
    | running f frames managed kept =>
      refine .running f frames managed
        (kept.same_links (Ram.base_setBytes _) (Ram.limit_setBytes _) fun i known => ?_)
      refine Frames.linkWord_congr known fun word inside => ?_
      have same := table_overwritten spares frames inside
      rw [wrote] at same
      exact same

theorem next_served {event : Event} {call : Call} (asks : a.holder.call? event = some call) :
    (a.next event).stock = (a.stock.serve a.holder.cpu.core call).2 ∧ a.asked event = call.asked := by
  unfold next asked
  rw [asks]
  exact ⟨rfl, rfl⟩

theorem next_unserved {event : Event} (asks : a.holder.call? event = none) :
    (a.next event).stock = a.stock ∧ a.asked event = [] := by
  unfold next asked
  rw [asks]
  exact ⟨rfl, rfl⟩

theorem lostBy_nil (reply : Reply) : Holder.lostBy [] reply = [] := by
  unfold Holder.lostBy
  split <;> rfl

theorem served_sound (sound : Sound a) {event : Event} {call : Call}
    (asks : a.holder.call? event = some call) : Sound (a.next event) := by
  obtain ⟨stock, pages⟩ := next_served asks
  obtain ⟨reply, follows⟩ := Holder.step_serves sound.shows asks
  have lost : (a.next event).lost =
      Holder.lostBy (a.asked event) (a.holder.step event).1.reply ++ a.lost := rfl
  refine ⟨?_, ?_⟩
  · rw [stock]
    exact follows.shows
  · rw [lost, pages, stock, reply, (Stock.serve_serves a.stock _ call).lost, sound.lost]

theorem next_sound (sound : Sound a) {event : Event} (spares : Spares a event) :
    Sound (a.next event) := by
  cases asks : a.holder.call? event with
  | some call => exact served_sound sound asks
  | none =>
    obtain ⟨stock, pages⟩ := next_unserved asks
    have lost : (a.next event).lost =
        Holder.lostBy (a.asked event) (a.holder.step event).1.reply ++ a.lost := rfl
    refine ⟨?_, ?_⟩
    · rw [stock, show (a.next event).holder.allocator = _ from (Holder.step_writes asks).1]
      exact shows_overwritten sound.shows spares
    · rw [lost, pages, lostBy_nil, stock]
      exact sound.lost

theorem run_sound (path : Run Spares a b) (sound : Sound a) : Sound b := by
  induction path with
  | refl => exact sound
  | step _ spares ih => exact next_sound ih spares

end Account

end KernelResources.Page
