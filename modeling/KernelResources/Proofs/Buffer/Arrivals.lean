import KernelResources.Proofs.Buffer.Sources
import KernelResources.Proofs.Buffer.Wakings

namespace KernelResources.Buffer

open Machine Stage

variable {n m : Nat} {disks : Vector Disk m}

namespace Account

variable {a y z : Account n m} {task who first second : TaskId} {event : Event m} {call : SleepingCall n m}
  {p : Place n m} {b : BlockId}

def advanced (a : Account n m) (task : TaskId) (event : Event m) : Machine n m :=
  (a.machine.opened.advance task event).2

-- The step gives up the buffer at `p`, with block `b` in it, to those who sleep on it.
structure GivesUp (a : Account n m) (task : TaskId) (event : Event m) (p : Place n m) (b : BlockId) :
    Prop where
  released : (a.advanced task event).released? = some p
  free : ((a.advanced task event).slot p).data.holder = none
  holds : ((a.advanced task event).slot p).holds b = true
  queues : ∀ q, (a.advanced task event).queue q = a.machine.queue q
  awaited : ((a.advanced task event).cleared p).Awaited p ((a.advanced task event).queue p)
  accounted : ∃ l, Accounted ⟨a.advanced task event, l, [], []⟩
  wakes : ((a.machine.step task event).1.woken, (a.machine.step task event).2) =
    (a.advanced task event).wake
  hands : HandsOn (a.advanced task event) p b (a.advanced task event).wake

theorem GivesUp.woken (gives : GivesUp a task event p b) :
    (a.machine.step task event).1.woken = (a.advanced task event).wake.1 := congrArg Prod.fst gives.wakes

theorem GivesUp.last (gives : GivesUp a task event p b) :
    (a.machine.step task event).2 = (a.advanced task event).wake.2 := congrArg Prod.snd gives.wakes

inductive Turned (a : Account n m) (task : TaskId) (event : Event m) : Prop where
  | refused (asleep : a.machine.isAsleep task = true)
  | stays (awake : a.machine.isAsleep task = false) (nobody : (a.machine.step task event).1.woken = [])
      (same : (a.machine.step task event).2 = a.advanced task event)
      (released : (a.advanced task event).released? = none) (lined : (a.advanced task event).Lined [])
      (queues : ∀ q, (a.advanced task event).queue q = a.machine.queue q ∨
        (a.advanced task event).queue q = a.machine.queue q ++ [task] ∧
          ∃ call : SleepingCall n m, event = call.event ∧
            (a.advanced task event).asleep.find? task = some call)
  | gives {p : Place n m} {b : BlockId} (awake : a.machine.isAsleep task = false)
      (gives : GivesUp a task event p b)

theorem next_turned (sound : Sound a) (orderly : Orderly a task event) (lined : a.machine.Lined []) :
    Turned a task event := by
  cases awake : a.machine.isAsleep task with
  | true => exact .refused awake
  | false =>
    have up : a.machine.asleep.find? task = none := by simpa [isAsleep, Registry.contains] using awake
    have opened : a.machine.opened.Lined [] := ⟨lined.once, lined.stands, lined.sleeps, lined.locked⟩
    have step := step_awake awake event
    have stirs : Stirs a.machine.opened task event (a.advanced task event) :=
      advance_stirs (sound_opened sound) opened rfl sound.intact up orderly.1 orderly.2
    cases stirs with
    | stays nobody lined queues =>
      have wake : (a.advanced task event).wake = ([], a.advanced task event) := by rw [wake, nobody]
      refine .stays awake ?_ ?_ nobody lined queues
      · rw [step]
        exact congrArg Prod.fst wake
      · rw [step]
        exact congrArg Prod.snd wake
    | gives released free holds queues awaited =>
      have accounted := (sound_advance sound orderly awake).2
      have hands := wake_hands released free holds awaited accounted
      have wakes : ((a.machine.step task event).1.woken, (a.machine.step task event).2) =
          (a.advanced task event).wake := by rw [step]; rfl
      exact .gives awake ⟨released, free, holds, queues, awaited, ⟨_, accounted⟩, wakes, hands⟩

theorem next_lined (sound : Sound a) (orderly : Orderly a task event) (lined : a.machine.Lined []) :
    (a.next task event).machine.Lined [] := by
  cases next_turned sound orderly lined with
  | refused asleep =>
    rw [next, step_asleep asleep]
    exact ⟨lined.once, lined.stands, lined.sleeps, lined.locked⟩
  | stays _ _ same _ lined =>
    rw [next, same]
    exact lined
  | gives _ gives =>
    rw [next, gives.last]
    exact gives.hands.lined

theorem lined_start (disks : Vector Disk m) : (start n disks).machine.Lined [] := by
  have nobody : ∀ p, (start n disks).machine.queue p = [] := fun p => by
    rw [queue, slot_start]
    rfl
  refine ⟨fun p => ?_, fun _ _ found => ?_, fun p who member => ?_, fun p some => absurd (nobody p) some⟩
  · rw [nobody]
    exact .nil
  · cases found
  · rw [nobody] at member
    cases member

theorem run_lined (path : Run Orderly a z) (sound : Sound a) (lined : a.machine.Lined []) :
    z.machine.Lined [] := by
  induction path with
  | refl => exact lined
  | step path orderly ih => exact next_lined (run_sound path sound) orderly ih

theorem next_queue (sound : Sound a) (orderly : Orderly a task event) (lined : a.machine.Lined [])
    (p : Place n m) :
    (a.next task event).machine.queue p <:+ a.machine.queue p ∨
      (a.next task event).machine.queue p = a.machine.queue p ++ [task] ∧
        a.machine.isAsleep task = false ∧ ∃ call : SleepingCall n m, event = call.event ∧
          (a.next task event).machine.asleep.find? task = some call := by
  cases next_turned sound orderly lined with
  | refused asleep =>
    rw [next, step_asleep asleep]
    exact .inl List.suffix_rfl
  | stays awake _ same _ _ queues =>
    rw [next, same]
    rcases queues p with kept | ⟨queue, slept⟩
    · exact .inl (kept ▸ List.suffix_rfl)
    · exact .inr ⟨queue, awake, slept⟩
  | @gives q b awake gives =>
    refine .inl ?_
    rw [next, gives.last]
    by_cases here : p = q
    · subst here
      rw [← gives.queues, ← gives.hands.tasks]
      exact gives.hands.passed.queue
    · rw [queue, gives.hands.others p here, ← gives.queues]
      exact List.suffix_rfl

-- The second task made its call while the first one was asleep already, for the call for which it still
-- sleeps.
def Precedes (disks : Vector Disk m) (a : Account n m) (first second : TaskId) : Prop :=
  ∃ call y, a.machine.asleep.find? second = some call ∧ Called disks second call.event y a ∧
    y.machine.asleep.find? first = a.machine.asleep.find? first ∧ Run (Sleeping first) y a

theorem sleeps_on (sound : Sound a) (orderly : Orderly a task event) {now : SleepingCall n m}
    (before : a.machine.asleep.find? who = some call)
    (after : (a.next task event).machine.asleep.find? who = some now) :
    (a.next task event).machine.asleep.find? who = a.machine.asleep.find? who := by
  rcases (next_steps sound orderly).sleepers who now after with same | ⟨rfl, -⟩
  · rw [after, same]
  · rw [next, step_asleep (isAsleep_found before)]
    rfl

theorem next_precedes (sound : Sound a) (orderly : Orderly a task event)
    (precedes : Precedes disks a first second) {now later : SleepingCall n m}
    (before : a.machine.asleep.find? first = some call)
    (still : (a.next task event).machine.asleep.find? first = some now)
    (waits : (a.next task event).machine.asleep.find? second = some later) :
    Precedes disks (a.next task event) first second := by
  obtain ⟨own, y, found, called, asleep, since⟩ := precedes
  refine ⟨own, y, (sleeps_on sound orderly found waits).trans found, ?_, ?_,
    since.step ⟨orderly, isAsleep_found before⟩⟩
  · exact ⟨called.reached, called.awake, called.orderly,
      called.since.step ⟨orderly, isAsleep_found found⟩⟩
  · exact asleep.trans (sleeps_on sound orderly before still).symm

theorem run_precedes (path : Run Orderly (start n disks) a) (p : Place n m) :
    (a.machine.queue p).Pairwise (Precedes disks a) := by
  induction path with
  | refl =>
    rw [queue, slot_start]
    exact .nil
  | @step a task event path orderly ih =>
    have sound := run_sound path (sound_start disks)
    have lined := run_lined path (sound_start disks) (lined_start disks)
    have after := next_lined sound orderly lined
    have kept : ∀ first second, first ∈ a.machine.queue p → Precedes disks a first second →
        first ∈ (a.next task event).machine.queue p → second ∈ (a.next task event).machine.queue p →
          Precedes disks (a.next task event) first second := by
      intro first second here precedes still waits
      obtain ⟨-, call, before, -⟩ := lined.sleeps p first here
      obtain ⟨-, now, found, -⟩ := after.sleeps p first still
      obtain ⟨-, later, asleep, -⟩ := after.sleeps p second waits
      exact next_precedes sound orderly precedes before found asleep
    rcases next_queue sound orderly lined p with shorter | ⟨queue, awake, call, asked, slept⟩
    · refine (ih.sublist shorter.sublist).imp_of_mem fun {first second} still waits precedes => ?_
      exact kept first second (shorter.subset still) precedes still waits
    · rw [queue]
      refine List.pairwise_append.mpr ⟨ih.imp_of_mem fun {first second} here there precedes => ?_,
        List.pairwise_singleton .., fun first here second last => ?_⟩
      · exact kept first second here precedes (queue ▸ List.mem_append_left _ here)
          (queue ▸ List.mem_append_left _ there)
      · -- The task itself is the last one: the others were asleep when it made its call.
        obtain rfl := List.mem_singleton.mp last
        have still : first ∈ (a.next second event).machine.queue p := queue ▸ List.mem_append_left _ here
        obtain ⟨-, other, before, -⟩ := lined.sleeps p first here
        obtain ⟨-, now, found, -⟩ := after.sleeps p first still
        refine ⟨call, a, slept, ⟨path, awake, asked ▸ orderly, asked ▸ .refl⟩,
          (sleeps_on sound orderly before found).symm, ?_⟩
        exact Run.step .refl ⟨orderly, isAsleep_found before⟩

end Account

end KernelResources.Buffer
