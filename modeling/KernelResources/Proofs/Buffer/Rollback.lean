import KernelResources.Proofs.Buffer.Claiming
import KernelResources.Proofs.Buffer.Fetches

namespace KernelResources.Buffer

open Machine Stage

variable {n m : Nat} {disks : Vector Disk m}

theorem Machine.Undone.opened {s t : Machine n m} {task : TaskId} {p : Place n m} {b : BlockId} {mine : Nat}
    (undone : Undone s.opened task p b mine t) : Undone s task p b mine t :=
  ⟨undone.holds, undone.invalid, undone.bytes, undone.refs, undone.unlocked, undone.queue, undone.released,
    undone.clock, undone.others, undone.disks, undone.held, undone.asleep, undone.cpu⟩

namespace Account

variable {a : Account n m} {task : TaskId} {event : Event m} {x : Exchange n m} {c : Fin m} {p : Place n m}
  {b : BlockId} {name : String}

-- The transfer was to load a buffer, for a call that the task of the step makes, or for one that it wakes.
-- The call ends with the fault of the device.
inductive RolledBack (disks : Vector Disk m) (a : Account n m) (task : TaskId) (event : Event m)
    (x : Exchange n m) : Prop where
  | own {name : String} (asked : event = .read x.place.cache x.transfer.block name) (mine : x.task = task)
      (told : (a.machine.step task event).1.reply = .halted (.disk x.transfer.block))
      (undone : Undone a.machine task x.place x.transfer.block 0 (a.machine.step task event).2)
      (alone : a.machine.queue x.place = []) (nobody : (a.machine.step task event).1.woken = [])
  | woken {one : Woken} (member : one ∈ (a.machine.step task event).1.woken) (mine : one.task = x.task)
      (told : one.reply = .halted (.disk x.transfer.block))
      (released : (a.advanced task event).released? = some x.place)
      (queue : (a.advanced task event).queue x.place = a.machine.queue x.place)
      (hands : HandsOn (a.advanced task event) x.place x.transfer.block
        ((a.machine.step task event).1.woken, (a.machine.step task event).2))
      (flags : ∀ one ∈ (a.machine.step task event).1.woken, ∃ call y,
        a.machine.asleep.find? one.task = some call ∧ Called disks one.task call.event y a ∧
          one.enabled = (y.machine.cpu one.task).enabled)

-- The own call of a step finds its buffer free, so nobody can have slept on it.
theorem own_rolled_back (sound : Sound a) (lined : a.machine.Lined [])
    (orderly : Orderly a task (.read x.place.cache x.transfer.block name))
    (awake : a.machine.isAsleep task = false) (mine : x.task = task)
    (member : x ∈ a.machine.opened.advanceExchanges task (.read x.place.cache x.transfer.block name))
    (failed : x.failed = true) :
    RolledBack disks a task (.read x.place.cache x.transfer.block name) x := by
  have up : a.machine.asleep.find? task = none := by simpa [isAsleep, Registry.contains] using awake
  have calls : Calls a.machine.opened task x.place.cache x.transfer.block true name :=
    sound_calls sound awake orderly
  obtain ⟨told, free, undone⟩ := calls.undone up member failed
  have alone : a.machine.queue x.place = [] := lined.unqueued free
  have step := step_awake awake (.read x.place.cache x.transfer.block name)
  have reply : (a.machine.step task (.read x.place.cache x.transfer.block name)).1.reply =
      .halted (.disk x.transfer.block) := by
    rw [step]
    exact told
  cases next_turned sound orderly lined with
  | refused asleep => cases awake.symm.trans asleep
  | stays _ nobody same =>
    refine .own rfl mine reply ?_ alone nobody
    rw [same]
    exact undone.opened
  | @gives p b _ gives =>
    -- Whatever buffer that is, the call has left its lock as it found it.
    have unlocked : (a.machine.slot p).data.holder = none := by
      by_cases here : p = x.place
      · rw [here]
        exact free
      · have kept : (a.advanced task (.read x.place.cache x.transfer.block name)).slot p =
            a.machine.slot p := undone.others p here
        rw [← kept]
        exact gives.free
    have empty := (gives.queues p).trans (lined.unqueued unlocked)
    have wake := gives.wakes.trans (wake_alone gives.released empty)
    have last : (a.machine.step task (.read x.place.cache x.transfer.block name)).2 =
        a.advanced task (.read x.place.cache x.transfer.block name) := congrArg Prod.snd wake
    refine .own rfl mine reply ?_ alone (congrArg Prod.fst wake)
    rw [last]
    exact undone.opened

theorem woken_flags (path : Run Orderly (start n disks) a) (orderly : Orderly a task event)
    (awake : a.machine.isAsleep task = false) (gives : GivesUp a task event p b) :
    ∀ one ∈ (a.machine.step task event).1.woken, ∃ call y, a.machine.asleep.find? one.task = some call ∧
      Called disks one.task call.event y a ∧ one.enabled = (y.machine.cpu one.task).enabled := by
  have sound := run_sound path (sound_start disks)
  have lined := run_lined path (sound_start disks) (lined_start disks)
  intro one member
  rw [gives.woken] at member
  have waits : one.task ∈ a.machine.queue p := by
    rw [← gives.queues, ← gives.hands.tasks]
    exact List.mem_map_of_mem member
  obtain ⟨-, call, found, -⟩ := lined.sleeps p one.task waits
  obtain ⟨y, called⟩ := run_called path found
  have other : one.task ≠ task := by
    intro same
    rw [← same] at awake
    cases awake.symm.trans (isAsleep_found found)
  refine ⟨call, y, found, called, ?_⟩
  have cpu : (a.advanced task event).cpu one.task = a.machine.cpu one.task :=
    cpu_other (sound_advance sound orderly awake).1 other
  rw [gives.hands.flags one member, cpu, called_cpu called]

theorem rolled_back (path : Run Orderly (start n disks) a) (orderly : Orderly a task event)
    (member : x ∈ a.machine.exchanges task event) (reads : x.transfer.direction = .read)
    (failed : x.failed = true) : RolledBack disks a task event x := by
  have sound := run_sound path (sound_start disks)
  have lined := run_lined path (sound_start disks) (lined_start disks)
  cases awake : a.machine.isAsleep task with
  | true =>
    rw [exchanges, if_pos awake] at member
    cases member
  | false =>
    rw [exchanges_awake awake] at member
    rcases List.mem_append.mp member with own | other
    · cases (sound_advance sound orderly awake).1.asks x own with
      | read _ mine => exact own_rolled_back sound lined orderly awake mine own failed
      | write direction => cases direction.symm.trans reads
    · cases next_turned sound orderly lined with
      | refused asleep => cases awake.symm.trans asleep
      | stays _ _ _ released =>
        rw [wakeExchanges, released] at other
        cases other
      | @gives p b _ gives =>
        obtain ⟨l, accounted⟩ := gives.accounted
        rw [wakeExchanges_released gives.released] at other
        obtain ⟨rfl, one, among, mine, told⟩ :=
          resumeAll_failed gives.awaited (accounted.wake p) other failed
        rw [← wake_released gives.released] at among
        cases gives.hands.passed.faults among told
        refine .woken (gives.woken ▸ among) mine told gives.released (gives.queues _) ?_
          (woken_flags path orderly awake gives)
        rw [gives.wakes]
        exact gives.hands

-- One who looked again behind `x` in the same step had the device asked once more, and got the bytes.
def LoadedBehind (x : Exchange n m) (after : List (Exchange n m)) : Prop :=
  ∃ y ∈ after, y.place = x.place ∧ y.transfer.block = x.transfer.block ∧ y.Loads

theorem loaded_behind (sound : Sound a) (lined : a.machine.Lined []) (orderly : Orderly a task event)
    {before after : List (Exchange n m)} (made : a.machine.exchanges task event = before ++ x :: after)
    (reads : x.transfer.direction = .read) (failed : x.failed = true) :
    LoadedBehind x after ∨ Unloaded (a.next task event).machine x.place.cache x.transfer.block := by
  have steps := next_steps sound orderly
  have member : x ∈ a.machine.exchanges task event := made ▸ List.mem_append_right _ List.mem_cons_self
  have invalid : (x.machine.slot x.place).valid = false := (steps.proper x member).invalid reads
  have own := exchange_holds steps member
  refine or_iff_not_imp_left.mpr fun unserved i holds => ?_
  have here : (⟨x.place.cache, i⟩ : Place n m) = x.place :=
    same_place (next_sound sound orderly) rfl holds own
  rw [here]
  by_contra loaded
  have valid : ((a.next task event).machine.slot x.place).valid = true := by simpa using loaded
  rcases next_gains sound orderly lined x.place valid with ⟨tag, known⟩ | ⟨y, other, place, loads⟩
  · exact absurd (invalid.symm.trans ((steps.lasting x.place tag known).2 x member)) Bool.false_ne_true
  · have block : y.transfer.block = x.transfer.block :=
      ((Slot.holds_iff ..).mp (place ▸ exchange_holds steps other)).2.symm.trans
        ((Slot.holds_iff ..).mp own).2
    rw [made] at other
    rcases List.mem_append.mp other with early | late
    · -- Who was loaded before would have been found loaded.
      have once := List.pairwise_append.mp (made ▸ steps.once)
      have known := once.2.2 y early x List.mem_cons_self loads
      rw [place] at known
      exact absurd (invalid.symm.trans known) Bool.false_ne_true
    · rcases List.mem_cons.mp late with rfl | behind
      · exact absurd (loads.2.symm.trans failed) Bool.false_ne_true
      · exact unserved ⟨y, behind, place, block, loads⟩

-- As long as the device was not asked for the block again, whoever is answered with its bytes, or told that
-- the device has failed it, has the device asked for it in that step.
def AsksAgain (c : Fin m) (b : BlockId) (a : Account n m) : Prop :=
  ∀ z, Run (Unfetched c b) a z → ∀ task event, Orderly z task event → ∀ who request reply,
    Hears z task event who request reply → request.cache = c → request.block = b →
      request.loads = true →
      (∃ info bytes, reply = .done (.buffer info bytes)) ∨ reply = .halted (.disk b) →
      Fetches c b z task event

theorem unloaded_asks_again (sound : Sound a) (lined : a.machine.Lined [])
    (unloaded : Unloaded a.machine c b) : AsksAgain c b a := by
  intro z since task event orderly who request reply hears cache block loads ended
  have plain := since.weaken fun _ _ _ unfetched => unfetched.1
  have soundZ := run_sound plain sound
  have still := run_unloaded sound lined unloaded since
  subst cache block
  rcases ended with ⟨info, bytes, rfl⟩ | rfl
  · exact answers_fetch soundZ orderly (run_lined plain sound lined) still hears.answers loads
  · exact halted_fetch soundZ orderly hears loads

theorem enter_acquires {s t : Machine n m} {info : BufferInfo} {bytes : Block}
    (free : s.held.find? name = none)
    (acquired : s.enter task ⟨p, b, false, name⟩ = (.done (.buffer info bytes), t)) :
    t.held.find? name = some p ∧ s.enter task ⟨p, b, true, name⟩ =
      { t with held := t.held.erase name }.finish task ⟨p, b, true, name⟩ := by
  unfold enter at acquired ⊢
  dsimp only at acquired ⊢
  have same : (s.run task p.cache (Cache.enter p.slot)).2.held = s.held := rfl
  generalize s.run task p.cache (Cache.enter p.slot) = entered at acquired same ⊢
  obtain ⟨result, u⟩ := entered
  cases result with
  | error fault => cases acquired
  | ok taken =>
    cases taken with
    | false => cases acquired
    | true =>
      cases acquired
      have absent : u.held.find? name = none := by
        rw [same]
        exact free
      dsimp only
      rw [Registry.erase_put absent]
      exact ⟨(Registry.find?_put u.held name name p).trans (by simp), rfl⟩

theorem read_acquires {s t : Machine n m} {info : BufferInfo} {bytes : Block}
    (acquired : s.call task c b false name = (.done (.buffer info bytes), t)) :
    ∃ i, t.held.find? name = some ⟨c, i⟩ ∧ s.call task c b true name =
      { t with held := t.held.erase name }.finish task ⟨⟨c, i⟩, b, true, name⟩ := by
  cases unused : s.held.find? name with
  | some place =>
    rw [call, unused] at acquired
    cases acquired
  | none =>
    obtain ⟨gets, stops⟩ := call_claims unused task c b false
    cases claimed : (s.run task c (Cache.claim b)).1 with
    | error fault =>
      rw [stops fault claimed] at acquired
      cases acquired
    | ok i =>
      rw [gets i claimed] at acquired
      rw [(call_claims unused task c b true).1 i claimed]
      have free : (s.run task c (Cache.claim b)).2.held.find? name = none := unused
      exact ⟨i, enter_acquires free acquired⟩

-- The read has locked the buffer at `p`, and the device is going to fail it, however many others went to
-- sleep on the buffer in the meantime.
structure Loading (a : Account n m) (task : TaskId) (name : String) (p : Place n m) (b : BlockId) :
    Prop where
  awake : a.machine.isAsleep task = false
  known : a.machine.held.find? name = some p
  locked : (a.machine.slot p).data.holder = some task
  holds : (a.machine.slot p).holds b = true
  invalid : (a.machine.slot p).valid = false
  broken : a.machine.caches[p.cache].disk.fails task b = true

theorem loading_rolled_back (sound : Sound a) (lined : a.machine.Lined [])
    (loading : Loading a task name p b) :
    let s : Machine n m := { a.machine.opened with held := a.machine.held.erase name }
    ∃ t, s.finish task ⟨p, b, true, name⟩ = (.halted (.disk b), t) ∧ Undone s task p b 1 t ∧
      HandsOn t p b t.wake := by
  intro s
  have up : a.machine.asleep.find? task = none := by
    simpa [isAsleep, Registry.contains] using loading.awake
  have accounted : Accounted ⟨s, { a.ledger with grants := a.ledger.grants.erase name }, [p], [p]⟩ :=
    (sound_opened sound).giveBack loading.known
  have referenced : (s.slot p).refs ≠ 0 := referenced_hand accounted
  obtain ⟨t, ran, works⟩ := Works.load_fails (s := s) loading.invalid loading.broken
    (heldBy_iff.mpr loading.locked) referenced
  have ended : s.finish task ⟨p, b, true, name⟩ = (.halted (.disk b), t) := by
    unfold finish
    dsimp only
    rw [if_pos rfl, ran]
  have freed : s.Lined [] := ⟨lined.once, lined.stands, lined.sleeps, lined.locked⟩
  obtain ⟨-, moves⟩ := finish_moves (fun _ => True) task ⟨p, b, true, name⟩ accounted loading.holds
    loading.locked (unasked task accounted up)
  rw [ended] at moves
  have undone := works.undone loading.holds loading.invalid rfl rfl rfl (refs_stamp referenced) up
  refine ⟨t, ended, undone, ?_⟩
  exact wake_hands (works.released? rfl (by simp) (by simp)) undone.unlocked undone.holds
    (works.awaited freed rfl) (moves_accounted moves accounted)

-- In every state that the tasks can bring about:
-- a read that the device fails, at once or after its task was woken, ends its call, takes back what the call
-- did and has the device asked again by whoever reads the block next, in the same step or a later one;
-- a queue has exactly the tasks that sleep on its buffer, in the order in which they fell asleep;
-- a read is an acquisition and then a load, between which others may have gone to sleep on the buffer;
-- and a load that fails with them behind it is taken back before the first of them looks again.
theorem failed_loads_are_rolled_back (path : Run Orderly (start n disks) a) :
    (∀ task event, Orderly a task event → ∀ before x after,
      a.machine.exchanges task event = before ++ x :: after →
      x.transfer.direction = .read → x.failed = true → RolledBack disks a task event x ∧
        (LoadedBehind x after ∨ AsksAgain x.place.cache x.transfer.block (a.next task event))) ∧
    (∀ p, (a.machine.queue p).Pairwise (Precedes disks a) ∧
      ∀ who, who ∈ a.machine.queue p ↔
        ∃ call, a.machine.asleep.find? who = some call ∧ call.place = p) ∧
    (∀ task c b name info bytes t,
      a.machine.opened.call task c b false name = (.done (.buffer info bytes), t) →
        ∃ i, t.held.find? name = some ⟨c, i⟩ ∧ a.machine.opened.call task c b true name =
          { t with held := t.held.erase name }.finish task ⟨⟨c, i⟩, b, true, name⟩) ∧
    ∀ task name p b, Loading a task name p b →
      let s : Machine n m := { a.machine.opened with held := a.machine.held.erase name }
      ∃ t, s.finish task ⟨p, b, true, name⟩ = (.halted (.disk b), t) ∧ Undone s task p b 1 t ∧
        HandsOn t p b t.wake := by
  have sound := run_sound path (sound_start disks)
  have lined := run_lined path (sound_start disks) (lined_start disks)
  refine ⟨fun task event orderly before x after made reads failed => ?_,
    fun p => ⟨run_precedes path p, fun who => ⟨fun member => (lined.sleeps p who member).2, ?_⟩⟩,
    fun _ _ _ _ _ _ _ => read_acquires, fun _ _ _ _ => loading_rolled_back sound lined⟩
  · have member : x ∈ a.machine.exchanges task event := made ▸ List.mem_append_right _ List.mem_cons_self
    refine ⟨rolled_back path orderly member reads failed,
      (loaded_behind sound lined orderly made reads failed).imp_right fun unloaded => ?_⟩
    exact unloaded_asks_again (next_sound sound orderly) (next_lined sound orderly lined) unloaded
  · rintro ⟨call, found, rfl⟩
    exact lined.stands who call found List.not_mem_nil

-- Two readers and then one who loads nothing sleep on a buffer, and the device fails its block once. When
-- the buffer is given up the first reader fails, the second has the block loaded, and the third one waits.
theorem failed_loads_are_rolled_back_cascade :
    let b : BlockId := ⟨1, 5⟩
    let p : Place 2 1 := ⟨0, 0⟩
    let a := ((((((start 2 #v[.zeroed]).next ⟨1⟩ (.acquire 0 b "a")).next ⟨2⟩ (.read 0 b "b")).next ⟨3⟩
      (.read 0 b "c")).next ⟨1⟩ (.setFaultFor 0 ⟨1⟩ b true)).next ⟨1⟩ (.setFaultFor 0 ⟨2⟩ b true)).next ⟨4⟩
      (.acquire 0 b "d")
    let ended := a.machine.step ⟨1⟩ (.release "a")
    Run Orderly (start 2 #v[.zeroed]) a ∧ a.machine.queue p = [⟨2⟩, ⟨3⟩, ⟨4⟩] ∧
      (∃ x y, a.machine.exchanges ⟨1⟩ (.release "a") = [x, y] ∧ x.task = ⟨2⟩ ∧ y.task = ⟨3⟩ ∧ y.Loads ∧
        RolledBack #v[.zeroed] a ⟨1⟩ (.release "a") x) ∧
      (ended.2.slot p).data.holder = some ⟨3⟩ ∧ (ended.2.slot p).valid = true ∧
      ended.2.queue p = [⟨4⟩] ∧ Loading a ⟨1⟩ "a" p b := by
  intro b p a ended
  have path : Run Orderly (start 2 #v[.zeroed]) a := by
    refine .step (.step (.step (.step (.step (.step .refl ?_) ?_) ?_) ?_) ?_) ?_ <;>
      exact ⟨trivial, by decide +kernel⟩
  have two : (a.machine.exchanges ⟨1⟩ (.release "a")).length = 2 := by decide +kernel
  obtain ⟨x, y, made⟩ := List.length_eq_two.mp two
  have known : (a.machine.exchanges ⟨1⟩ (.release "a")).map
      (fun x => (x.task, x.transfer.direction, x.failed)) =
        [(⟨2⟩, .read, true), (⟨3⟩, .read, false)] := by decide +kernel
  simp only [made, List.map_cons, List.map_nil, List.cons.injEq, Prod.mk.injEq, and_true] at known
  obtain ⟨⟨mine, reads, failed⟩, other, loads⟩ := known
  have rolledBack := ((failed_loads_are_rolled_back path).1 ⟨1⟩ (.release "a")
    ⟨trivial, by decide +kernel⟩ [] x [y] made reads failed).1
  refine ⟨path, by decide +kernel, ⟨x, y, made, mine, other, loads, rolledBack⟩, by decide +kernel,
    by decide +kernel, by decide +kernel, ?_⟩
  constructor <;> decide +kernel

end Account

end KernelResources.Buffer
