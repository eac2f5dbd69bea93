import KernelResources.Proofs.Buffer.Residence

namespace KernelResources.Buffer

open Machine Stage

variable {n m : Nat} {disks : Vector Disk m}

namespace Account

variable {a y z : Account n m} {task who : TaskId} {event : Event m} {call : SleepingCall n m}

def Sleeping (who : TaskId) : Rule n m :=
  fun a task event => Orderly a task event ∧ a.machine.isAsleep who = true

-- The task made the call in a step from `y`, and has slept on it since.
structure Called (disks : Vector Disk m) (who : TaskId) (event : Event m) (y a : Account n m) : Prop where
  reached : Run Orderly (start n disks) y
  awake : y.machine.isAsleep who = false
  orderly : Orderly y who event
  since : Run (Sleeping who) (y.next who event) a

theorem run_called (path : Run Orderly (start n disks) a)
    (found : a.machine.asleep.find? who = some call) : ∃ y, Called disks who call.event y a := by
  induction path generalizing who call with
  | refl => cases found
  | @step b task event path orderly ih =>
    have slept : b.machine.asleep.find? who = some call →
        ∃ y, Called disks who call.event y (b.next task event) := by
      intro before
      obtain ⟨y, called⟩ := ih before
      exact ⟨y, called.reached, called.awake, called.orderly,
        called.since.step ⟨orderly, isAsleep_found before⟩⟩
    have sound := run_sound path (sound_start disks)
    rcases (next_steps sound orderly).sleepers who call found with before | ⟨rfl, asked⟩
    · exact slept before
    · cases asleep : b.machine.isAsleep who with
      | true =>
        rw [next, step_asleep asleep] at found
        exact slept found
      | false => exact ⟨b, path, asleep, asked ▸ orderly, asked ▸ .refl⟩

theorem sleeping_cpu (sound : Sound a) (path : Run (Sleeping who) a z) :
    z.machine.cpu who = a.machine.cpu who := by
  induction path with
  | refl => rfl
  | @step b task event path kept ih =>
    obtain ⟨orderly, asleep⟩ := kept
    have soundB := run_sound (path.weaken fun _ _ _ kept => kept.1) sound
    by_cases own : who = task
    · subst own
      rw [next, step_asleep asleep]
      exact ih
    · exact ((next_steps soundB orderly).cpus who own).trans ih

theorem called_cpu (called : Called disks who call.event y a) :
    a.machine.cpu who = y.machine.cpu who := by
  have sound := run_sound called.reached (sound_start disks)
  have asked : (y.next who call.event).machine.cpu who = y.machine.cpu who := by
    refine (next_steps sound called.orderly).steady ?_ who
    unfold SleepingCall.event
    split <;> trivial
  exact (sleeping_cpu (next_sound sound called.orderly) called.since).trans asked

-- Where a transfer of the step comes from: the task's own read or write, or a read that some task made
-- once and has slept on until now.
inductive Source (disks : Vector Disk m) (a : Account n m) (task : TaskId) (event : Event m)
    (x : Exchange n m) : Prop where
  | own (asks : Asks a.machine task x event)
      (interrupts : x.transfer.interrupts = (a.machine.cpu task).enabled) :
      Source disks a task event x
  | resumed {y : Account n m} {name : String} (direction : x.transfer.direction = .read)
      (asleep : a.machine.isAsleep x.task = true)
      (called : Called disks x.task (.read x.place.cache x.transfer.block name) y a)
      (interrupts : x.transfer.interrupts = (y.machine.cpu x.task).enabled) :
      Source disks a task event x

theorem exchange_source (path : Run Orderly (start n disks) a) (orderly : Orderly a task event)
    {x : Exchange n m} (member : x ∈ a.machine.exchanges task event) :
    Source disks a task event x := by
  have steps := next_steps (run_sound path (sound_start disks)) orderly
  have interrupts : x.transfer.interrupts = (a.machine.cpu x.task).enabled :=
    (steps.proper x member).interrupts.trans (congrArg (·.enabled) (steps.cpu x member))
  rcases steps.source x member with asks | ⟨asleep, serves⟩
  · exact .own asks (Asks.own asks ▸ interrupts)
  · rename_i call
    obtain ⟨y, called⟩ := run_called path asleep
    have flag := called_cpu called
    have asked : call.event = .read x.place.cache x.transfer.block call.name := by
      rw [SleepingCall.event, if_pos serves.loads, serves.place, serves.block]
    rw [asked] at called
    exact .resumed serves.direction (isAsleep_found asleep) called (flag ▸ interrupts)

-- The rules for the transfers of a step: each is made by the holder of a buffer for its block, for a read or
-- a write and under the interrupt flag of whoever called for it, and no block is loaded that is loaded.
structure Disciplined (disks : Vector Disk m) (a : Account n m) (task : TaskId) (event : Event m) :
    Prop where
  -- All transfers, none of them by a task that makes another.
  made : ∀ c, (a.machine.step task event).2.transfers c =
    ((a.machine.exchanges task event).filter (·.place.cache = c)).map (·.transfer)
  apart : (a.machine.exchanges task event).Pairwise fun x y => x.task ≠ y.task
  proper : ∀ x ∈ a.machine.exchanges task event, x.Proper
  sources : ∀ x ∈ a.machine.exchanges task event, Source disks a task event x
  acquires : ∀ c b name, event = .acquire c b name →
    ∀ d, (a.machine.step task event).2.transfers d = []
  settles : ∀ p xs z, History (Staying p) (a.next task event) xs z →
    (a.machine.exchanges task event ++ xs).Pairwise (Settles p)
  loadsOnce : ∀ p xs z, History (Staying p) (a.next task event) xs z →
    (a.machine.exchanges task event ++ xs).countP (fun x => x.place = p ∧ x.Loads) ≤ 1

-- In every state that the tasks can bring about.
theorem transfers_are_disciplined (path : Run Orderly (start n disks) a)
    (orderly : Orderly a task event) : Disciplined disks a task event := by
  have sound := run_sound path (sound_start disks)
  have steps := next_steps sound orderly
  refine ⟨steps.transfers, steps.apart, steps.proper, fun x => exchange_source path orderly, ?_, ?_, ?_⟩
  · rintro c b name rfl d
    rw [steps.transfers, acquire_exchanges sound orderly]
    rfl
  · exact fun p xs z history => (residence sound orderly history).1
  · exact fun p xs z history => (residence sound orderly history).2

-- Two tasks sleep for one block while it is out unloaded. The first that is woken loads it, under its own
-- flag and in the step of another, and the second finds it loaded.
theorem transfers_are_disciplined_resumed :
    let a := ((((start 2 #v[.zeroed]).next ⟨2⟩ (.setInterrupts false)).next ⟨1⟩
      (.acquire 0 ⟨1, 5⟩ "a")).next ⟨2⟩ (.read 0 ⟨1, 5⟩ "b")).next ⟨3⟩ (.read 0 ⟨1, 5⟩ "c")
    let z := a.next ⟨1⟩ (.release "a")
    let p : Place 2 1 := ⟨0, 0⟩
    Run Orderly (start 2 #v[.zeroed]) a ∧ Orderly a ⟨1⟩ (.release "a") ∧
      (a.machine.step ⟨1⟩ (.release "a")).2.transfers 0 = [⟨.read, ⟨1, 5⟩, false⟩] ∧
      (a.machine.step ⟨1⟩ (.release "a")).1.woken.map (·.task) = [⟨2⟩, ⟨3⟩] ∧
      Staying p z ⟨2⟩ (.release "b") ∧
      (z.machine.step ⟨2⟩ (.release "b")).2.transfers 0 = [] ∧
      (z.next ⟨2⟩ (.release "b")).machine.held.find? "c" = some p ∧
      Disciplined #v[.zeroed] a ⟨1⟩ (.release "a") ∧
      (a.machine.exchanges ⟨1⟩ (.release "a") ++ z.machine.exchanges ⟨2⟩ (.release "b")).countP
        (fun x => x.place = p ∧ x.Loads) ≤ 1 := by
  intro a z p
  have path : Run Orderly (start 2 #v[.zeroed]) a := by
    refine .step (.step (.step (.step .refl ?_) ?_) ?_) ?_ <;> exact ⟨trivial, by decide +kernel⟩
  have orderly : Orderly a ⟨1⟩ (.release "a") := ⟨trivial, by decide +kernel⟩
  have staying : Staying p z ⟨2⟩ (.release "b") :=
    ⟨⟨trivial, by decide +kernel⟩, by decide +kernel, by decide +kernel⟩
  have disciplined := transfers_are_disciplined path orderly
  have once := disciplined.loadsOnce p _ _ (.step .refl staying)
  exact ⟨path, orderly, by decide +kernel, by decide +kernel, staying, by decide +kernel,
    by decide +kernel, disciplined, once⟩

end Account

end KernelResources.Buffer
