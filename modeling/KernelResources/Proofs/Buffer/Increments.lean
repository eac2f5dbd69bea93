import KernelResources.Proofs.Buffer.Counting
import KernelResources.Proofs.Buffer.Visits

namespace KernelResources.Buffer

open Machine Stage

variable {n : Nat} {clients : List Client} {disk : Disk}

def expected (disk : Disk) (clients : List Client) (b : BlockId) : UInt64 :=
  (disk.content b).counter + UInt64.ofNat ((clients.flatMap (·.todo)).count b)

theorem machine_start (n : Nat) (disk : Disk) :
    (Account.start n #v[disk]).machine = Machine.start n 1 disk := by
  have caches : (#v[disk]).map (Cache.start n) = Vector.replicate 1 (Cache.start n disk) := by
    ext i inside
    simp
  rw [Account.start, caches]
  rfl

theorem only_disk_works (works : ∀ task b, disk.fails task b = false) (c : Fin 1) (task : TaskId)
    (b : BlockId) : (#v[disk])[c].fails task b = false := by
  rw [Subsingleton.elim c 0]
  exact works task b

namespace Working

theorem start (fresh : Fresh n clients) (disk : Disk) :
    Working #v[disk] (expected disk clients) clients (Account.start n #v[disk]) := by
  refine ⟨Account.sound_start _, Account.mirrors_start _, ⟨?_, ?_⟩,
    ⟨fresh.distinct, ?_, ?_, ?_, rfl, rfl, rfl⟩, fresh.few, fresh.counted, ?_⟩
  · intro c
    have same : (Account.start n #v[disk]).machine.caches[c].disk = (#v[disk])[c] := by
      rw [Subsingleton.elim c 0]
      simp [Account.start, Cache.start]
      rfl
    rw [same]
    exact ⟨rfl, rfl⟩
  · intro task call slept
    cases slept
  · intro c member
    exact .away (fresh.asking c member) rfl rfl
  · intro task request asked
    cases asked
  · intro name g held
    cases held
  · intro b
    have owed : clients.flatMap Client.owed = clients.flatMap (·.todo) := by
      apply List.flatMap_congr
      intro c member
      rw [Client.owed, fresh.asking c member]
    rw [owed]
    rfl

variable {a : Account n 1} {disks : Vector Disk 1} {goal : BlockId → UInt64}

theorem finished (working : Working disks goal clients a) (done : ∀ c ∈ clients, c.todo = [])
    (b : BlockId) : (a.machine.caches[(0 : Fin 1)].disk.content b).counter = goal b := by
  have owed : clients.flatMap Client.owed = [] := by
    apply List.flatMap_eq_nil_iff.mpr
    intro c member
    unfold Client.owed
    split <;> simp [done c member]
  have balance := working.balance b
  rw [owed] at balance
  rw [working.mirrors.contents, ← balance]
  simp

end Working

namespace Counters

theorem counter_zeroed (b : BlockId) : (Disk.zeroed.content b).counter = 0 := by
  show (Block.filled 0).counter = 0
  decide +kernel

theorem total_zeroed {s : Machine n 1} (zeroed : s.caches[(0 : Fin 1)].disk.initial = Disk.zeroed.initial)
    (b : BlockId) : total s b = (s.caches[(0 : Fin 1)].disk.content b).counter := by
  have same : s.caches[(0 : Fin 1)] = s.caches[0] := rfl
  rw [total, Disk.content, zeroed, same]
  cases s.caches[0].disk.written? b with
  | none => exact (counter_zeroed b).symm
  | some block => rfl

theorem total_finished {blocks : List BlockId} {threads rounds : Nat} {a : Account n 1}
    (working : Working #v[.zeroed] (expected .zeroed (Counters.clients blocks threads rounds)) clients a)
    (done : ∀ c ∈ clients, c.todo = []) (b : BlockId) :
    total a.machine b = UInt64.ofNat (threads * rounds * blocks.count b) := by
  have zeroed := (working.attended.devices 0).initial
  rw [total_zeroed zeroed.symm]
  refine (working.finished done b).trans ?_
  rw [expected, count_clients, counter_zeroed, UInt64.zero_add]

theorem fresh_clients (blocks : List BlockId) {threads : Nat} (rounds : Nat) (few : threads ≤ n)
    (counted : threads < UInt32.size) : Fresh n (Counters.clients blocks threads rounds) := by
  have length : (Counters.clients blocks threads rounds).length = threads := by
    simp [Counters.clients]
  refine .of_length ?_ ?_ (by rwa [length]) (by rwa [length])
  · rw [Counters.clients, List.map_map]
    refine List.Nodup.map ?_ List.nodup_range
    intro t u same
    simpa using same
  · intro c member
    obtain ⟨t, _, rfl⟩ := List.mem_map.mp member
    rfl

end Counters

namespace Team

-- No client has been stopped, and nothing that one of them does next is refused or ends in a fault, for
-- the client itself or for those whom it wakes.
def Unharmed (t : Team n) : Prop :=
  ∀ c ∈ t.clients, c.phase ≠ .stopped ∧
    ∀ event, c.request? t.machine = some event →
      ∀ reply ∈ (t.machine.step c.task event).1.reply ::
        (t.machine.step c.task event).1.woken.map (·.reply), GoesOn reply

theorem unharmed_working {a : Account n 1} {disks : Vector Disk 1} {goal : BlockId → UInt64}
    (working : Working disks goal clients a)
    (works : ∀ (c : Fin 1) (task : TaskId) (b : BlockId), disks[c].fails task b = false) : Unharmed ⟨clients, a.machine⟩ := by
  intro c member
  refine ⟨working.unstopped member, ?_⟩
  intro event asks reply told
  obtain ⟨before, after, rfl⟩ := List.append_of_mem member
  obtain ⟨own, woken, _⟩ := working.endsWell works asks
  rcases List.mem_cons.mp told with rfl | later
  · exact own
  · obtain ⟨w, present, rfl⟩ := List.mem_map.mp later
    exact woken w present

theorem turns_start (fresh : Fresh n clients) (works : ∀ task b, disk.fails task b = false) {t : Team n}
    (path : Turns (start clients disk) t) :
    ∃ a : Account n 1, a.machine = t.machine ∧ Working #v[disk] (expected disk clients) t.clients a :=
  (Working.start fresh disk).turns path (only_disk_works works) (machine_start n disk)

-- However the clients take their turns: nothing goes wrong; as long as there are blocks to count, some
-- client is awake and has a step to take; and when there are none left, each block has counted all
-- visits to it and the check of the pool finds nothing.
theorem every_increment_counts (fresh : Fresh n clients) (works : ∀ task b, disk.fails task b = false)
    {t : Team n} (path : Turns (start clients disk) t) :
    t.Unharmed ∧
    (¬ t.Finished → ∃ c ∈ t.clients, c.todo ≠ [] ∧ t.machine.isAsleep c.task = false ∧
      (c.request? t.machine).isSome = true) ∧
    (t.Finished →
      (∀ b, (t.machine.caches[(0 : Fin 1)].disk.content b).counter =
        (disk.content b).counter + UInt64.ofNat ((clients.flatMap (·.todo)).count b)) ∧
      t.machine.caches[(0 : Fin 1)].pool.audit = .ok () ∧
      ∀ blocks threads rounds, clients = Counters.clients blocks threads rounds → disk = .zeroed →
        ∀ b, Counters.total t.machine b = UInt64.ofNat (threads * rounds * blocks.count b)) := by
  obtain ⟨a, machine, working⟩ := turns_start fresh works path
  obtain ⟨clients', s⟩ := t
  dsimp only at machine working
  subst machine
  refine ⟨unharmed_working working (only_disk_works works), ?_, ?_⟩
  · intro unfinished
    apply working.somebody_asks
    simpa [Finished] using unfinished
  · intro done
    have counted := working.finished done
    refine ⟨counted, Pool.audit_intact (working.sound.intact 0), ?_⟩
    rintro blocks threads rounds rfl rfl
    exact Counters.total_finished working done

-- Two clients want the same block. After a round the second sleeps on the buffer of the first; in the end
-- both have counted.
theorem every_increment_counts_contended :
    let clients := Counters.clients [⟨1, 5⟩] 2 1
    let early := Counters.run 1 clients (.start 2 1 .zeroed)
    let late := Counters.run 9 clients (.start 2 1 .zeroed)
    Fresh 2 clients ∧ Turns (start clients .zeroed) ⟨early.1, early.2⟩ ∧
      Turns (start clients .zeroed) ⟨late.1, late.2⟩ ∧
      early.2.isAsleep ⟨2⟩ = true ∧
      (∃ c ∈ early.1, c.todo ≠ [] ∧ early.2.isAsleep c.task = false ∧
        (c.request? early.2).isSome = true) ∧
      Finished ⟨late.1, late.2⟩ ∧ Counters.total late.2 ⟨1, 5⟩ = 2 := by
  have fresh : Fresh 2 (Counters.clients [⟨1, 5⟩] 2 1) :=
    Counters.fresh_clients _ 1 (by decide) (by decide)
  have works : ∀ task b, Disk.zeroed.fails task b = false := fun _ _ => rfl
  have early := run_turns 1 (Counters.clients [⟨1, 5⟩] 2 1) (.start 2 1 .zeroed)
  have late := run_turns 9 (Counters.clients [⟨1, 5⟩] 2 1) (.start 2 1 .zeroed)
  have finished : Finished ⟨(Counters.run 9 (Counters.clients [⟨1, 5⟩] 2 1) (.start 2 1 .zeroed)).1,
      (Counters.run 9 (Counters.clients [⟨1, 5⟩] 2 1) (.start 2 1 .zeroed)).2⟩ := by decide +kernel
  exact ⟨fresh, early, late, by decide +kernel,
    (every_increment_counts fresh works early).2.1 (by decide +kernel), finished,
    ((every_increment_counts fresh works late).2.2 finished).2.2 _ _ _ rfl rfl _⟩

end Team

end KernelResources.Buffer
