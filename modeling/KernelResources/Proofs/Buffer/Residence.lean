import KernelResources.Proofs.Buffer.Identity
import KernelResources.Proofs.Buffer.Transfers

namespace KernelResources.Buffer

open Machine Stage

variable {n m : Nat}

namespace Account

variable {a z : Account n m} {task : TaskId} {event : Event m} {p : Place n m}
  {xs : List (Exchange n m)}

inductive History (rule : Rule n m) : Account n m → List (Exchange n m) → Account n m → Prop where
  | refl {a : Account n m} : History rule a [] a
  | step {a b : Account n m} {xs : List (Exchange n m)} {task : TaskId} {event : Event m} :
      History rule a xs b → rule b task event →
        History rule a (xs ++ b.machine.exchanges task event) (b.next task event)

theorem History.run {rule : Rule n m} (history : History rule a xs z) : Run rule a z := by
  induction history with
  | refl => exact .refl
  | step _ kept ih => exact .step ih kept

def Staying (p : Place n m) : Rule n m :=
  fun a task event => Orderly a task event ∧
    (a.machine.slot p).SameTag ((a.next task event).machine.slot p)

-- Once the buffer at `p` has been loaded, nothing is read into it, nor for its block into any other.
def Settles (p : Place n m) (x y : Exchange n m) : Prop :=
  x.place = p → x.Loads → y.transfer.direction = .read →
    y.place ≠ p ∧ ¬(y.place.cache = p.cache ∧ y.transfer.block = x.transfer.block)

structure Loaded (a : Account n m) (p : Place n m) (b : BlockId) : Prop where
  valid : (a.machine.slot p).valid = true
  holds : (a.machine.slot p).holds b = true

theorem exchange_holds (steps : Steps a.machine task event) {x : Exchange n m}
    (member : x ∈ a.machine.exchanges task event) :
    ((a.next task event).machine.slot x.place).holds x.transfer.block = true := by
  have kept := (steps.tags x member x.place.cache).2 x.place.slot
  have tag : x.slot.SameTag ((a.next task event).machine.slot x.place) := kept
  rw [Slot.holds, ← tag.1, ← tag.2]
  exact (steps.proper x member).holds

theorem exchange_loaded (steps : Steps a.machine task event) {x : Exchange n m}
    (member : x ∈ a.machine.exchanges task event) (loads : x.Loads) :
    Loaded (a.next task event) x.place x.transfer.block :=
  ⟨steps.loads x member loads, exchange_holds steps member⟩

theorem read_elsewhere (sound : Sound (a.next task event)) (steps : Steps a.machine task event)
    {b : BlockId} (holds : ((a.next task event).machine.slot p).holds b = true) {y : Exchange n m}
    (member : y ∈ a.machine.exchanges task event) (read : y.transfer.direction = .read)
    (valid : (y.machine.slot p).valid = true) :
    y.place ≠ p ∧ ¬(y.place.cache = p.cache ∧ y.transfer.block = b) := by
  have apart : y.place ≠ p := by
    rintro rfl
    cases valid.symm.trans ((steps.proper y member).invalid read)
  refine ⟨apart, ?_⟩
  rintro ⟨cache, rfl⟩
  exact apart (same_place sound cache (exchange_holds steps member) holds)

theorem next_loaded {b : BlockId} (steps : Steps a.machine task event) (staying : Staying p a task event)
    (loaded : Loaded a p b) : Loaded (a.next task event) p b := by
  refine ⟨(steps.lasting p staying.2 loaded.valid).1, ?_⟩
  rw [Slot.holds, ← staying.2.1, ← staying.2.2]
  exact loaded.holds

theorem next_settles (sound : Sound a) (orderly : Orderly a task event) (p : Place n m) :
    (a.machine.exchanges task event).Pairwise (Settles p) := by
  have steps := next_steps sound orderly
  refine steps.once.imp_of_mem ?_
  rintro x y memberX memberY once rfl loads read
  exact read_elsewhere (next_sound sound orderly) steps (exchange_holds steps memberX) memberY read
    (once loads)

theorem history_settles {b : Account n m} (sound : Sound b) {before : List (Exchange n m)}
    (history : History (Staying p) b xs z) (settles : before.Pairwise (Settles p))
    (loaded : ∀ x ∈ before, x.place = p → x.Loads → Loaded b p x.transfer.block) :
    (before ++ xs).Pairwise (Settles p) ∧
      ∀ x ∈ before ++ xs, x.place = p → x.Loads → Loaded z p x.transfer.block := by
  induction history with
  | refl =>
    rw [List.append_nil]
    exact ⟨settles, loaded⟩
  | @step y xs task event history staying ih =>
    obtain ⟨settled, resident⟩ := ih
    have soundY := run_sound (history.run.weaken fun _ _ _ kept => kept.1) sound
    have steps := next_steps soundY staying.1
    rw [← List.append_assoc]
    refine ⟨List.pairwise_append.mpr ⟨settled, next_settles soundY staying.1 p, ?_⟩, ?_⟩
    · intro x memberX v memberV here loads read
      have held := resident x memberX here loads
      exact read_elsewhere (next_sound soundY staying.1) steps (next_loaded steps staying held).holds
        memberV read ((steps.lasting p staying.2 held.valid).2 v memberV)
    · intro x member here loads
      rcases List.mem_append.mp member with early | late
      · exact next_loaded steps staying (resident x early here loads)
      · exact here ▸ exchange_loaded steps late loads

theorem loads_singular (settles : xs.Pairwise (Settles p)) :
    xs.countP (fun x => x.place = p ∧ x.Loads) ≤ 1 := by
  induction settles with
  | nil => exact Nat.zero_le 1
  | @cons x rest later _ ih =>
    rw [List.countP_cons]
    split
    · rename_i first
      obtain ⟨here, loads⟩ := of_decide_eq_true first
      have none : rest.countP (fun x => x.place = p ∧ x.Loads) = 0 := by
        refine List.countP_eq_zero.mpr fun y member again => ?_
        obtain ⟨too, read⟩ := of_decide_eq_true again
        exact (later y member here loads read.1).1 too
      rw [none]
    · exact ih

theorem residence (sound : Sound a) (orderly : Orderly a task event)
    (history : History (Staying p) (a.next task event) xs z) :
    (a.machine.exchanges task event ++ xs).Pairwise (Settles p) ∧
      (a.machine.exchanges task event ++ xs).countP (fun x => x.place = p ∧ x.Loads) ≤ 1 := by
  have steps := next_steps sound orderly
  obtain ⟨settles, _⟩ := history_settles (next_sound sound orderly) history
    (next_settles sound orderly p) fun x member here loads => here ▸ exchange_loaded steps member loads
  exact ⟨settles, loads_singular settles⟩

end Account

end KernelResources.Buffer
