import KernelResources.Proofs.Buffer.Queues

namespace KernelResources.Buffer

open Machine Stage

variable {n m : Nat}

namespace Machine

-- The call of `task` for block `b` in the buffer at `p` is undone. Of the references before it, `mine` were
-- those of the call.
structure Undone (s : Machine n m) (task : TaskId) (p : Place n m) (b : BlockId) (mine : Nat)
    (t : Machine n m) : Prop where
  -- The buffer.
  holds : (t.slot p).holds b = true
  invalid : (t.slot p).valid = false
  bytes : t.bytesAt p = s.bytesAt p
  refs : (t.slot p).refs.toNat + mine = (s.slot p).refs.toNat
  unlocked : (t.slot p).data.holder = none
  queue : t.queue p = s.queue p
  -- The clock was read once.
  released : (t.slot p).released = Clock.stamp s.clock.now
  clock : t.clock = s.clock.read.2
  -- Everything else.
  others : ∀ q, q ≠ p → t.slot q = s.slot q
  disks : ∀ c : Fin m, t.caches[c].disk = s.caches[c].disk
  held : t.held = s.held
  asleep : t.asleep = s.asleep.erase task
  cpu : ∀ who, t.cpu who = s.cpu who

-- Tasks that slept for block `b` on the buffer at `p`, which nobody has locked, look again one after the
-- other. Each that fails leaves the buffer to the next one, the first that does not fail has it, and those
-- behind it wait again.
inductive Passed (p : Place n m) (b : BlockId) :
    Machine n m → List Woken → Machine n m → Prop where
  | settles {s : Machine n m} (free : (s.slot p).data.holder = none) (nobody : s.queue p = []) :
      Passed p b s [] s
  | fails {s t z : Machine n m} {task : TaskId} {call : SleepingCall n m} {rest : List Woken}
      (found : s.asleep.find? task = some call) (place : call.place = p) (block : call.block = b)
      (broken : s.caches[p.cache].disk.fails task b = true)
      (looks : { s with asleep := s.asleep.erase task }.enter task call = (.halted (.disk b), t))
      (undone : Undone s task p b 1 t) (nobody : t.queue p = []) (later : Passed p b t rest z) :
      Passed p b s (⟨task, .halted (.disk b), (s.cpu task).enabled⟩ :: rest) z
  | gets {s t z : Machine n m} {task : TaskId} {call : SleepingCall n m} {info : BufferInfo}
      {bytes : Block} {rest : List Woken}
      (found : s.asleep.find? task = some call) (place : call.place = p) (block : call.block = b)
      (looks : { s with asleep := s.asleep.erase task }.enter task call =
        (.done (.buffer info bytes), t))
      (loaded : call.loads = true → (s.slot p).valid = false →
        s.caches[p.cache].disk.fails task b = false)
      (valid : (z.slot p).valid = ((s.slot p).valid || call.loads))
      (locked : (z.slot p).data.holder = some task) (again : ∀ woken ∈ rest, woken.reply = .asleep)
      (queue : z.queue p = rest.map (·.task)) :
      Passed p b s (⟨task, .done (.buffer info bytes), (s.cpu task).enabled⟩ :: rest) z

variable {s t u z : Machine n m} {l : Ledger m} {p : Place n m} {b : BlockId} {slot : Slot}
  {acts : List (Cache.Act n)} {task who : TaskId} {call : SleepingCall n m} {tasks : List TaskId}
  {woken : List Woken} {reply : Reply} {xs : List (Exchange n m)}

theorem Passed.ends (passed : Passed p b s woken z) :
    (∃ one ∈ woken, (z.slot p).data.holder = some one.task ∧
      ∃ info bytes, one.reply = .done (.buffer info bytes)) ∨
    (z.slot p).data.holder = none ∧ z.queue p = [] ∧ ∀ one ∈ woken, one.reply = .halted (.disk b) := by
  induction passed with
  | settles free nobody => exact .inr ⟨free, nobody, List.forall_mem_nil _⟩
  | gets _ _ _ _ _ _ locked => exact .inl ⟨_, List.mem_cons_self, locked, _, _, rfl⟩
  | fails _ _ _ _ _ _ _ _ ih =>
    rcases ih with ⟨one, member, has⟩ | ⟨free, nobody, failed⟩
    · exact .inl ⟨one, List.mem_cons_of_mem _ member, has⟩
    · exact .inr ⟨free, nobody, List.forall_mem_cons.mpr ⟨rfl, failed⟩⟩

theorem Passed.faults (passed : Passed p b s woken z) {one : Woken} (member : one ∈ woken)
    {fault : CacheFault} (failed : one.reply = .halted fault) : fault = .disk b := by
  induction passed with
  | settles => cases member
  | gets _ _ _ _ _ _ _ again =>
    rcases List.mem_cons.mp member with rfl | later
    · cases failed
    · cases (again one later).symm.trans failed
  | fails _ _ _ _ _ _ _ _ ih =>
    rcases List.mem_cons.mp member with rfl | later
    · cases failed
      rfl
    · exact ih later

theorem Passed.queue (passed : Passed p b s woken z) : z.queue p <:+ woken.map (·.task) := by
  induction passed with
  | settles _ nobody => exact nobody ▸ List.nil_suffix
  | gets _ _ _ _ _ _ _ _ queue => exact queue ▸ List.suffix_cons ..
  | fails _ _ _ _ _ _ _ _ ih => exact ih.trans (List.suffix_cons ..)

theorem Works.undone {mine : Nat} (works : Works s t p (slot.stamp s.clock.now) s.clock.read.2 acts)
    (holds : slot.holds b = true) (invalid : slot.valid = false) (free : slot.data.holder = none)
    (data : slot.data.data = (s.slot p).data.data) (sleepers : slot.data.sleepers = s.queue p)
    (refs : (slot.refs - 1).toNat + mine = (s.slot p).refs.toNat) (awake : s.asleep.find? task = none) :
    Undone s task p b mine t where
  holds := by
    rw [works.here]
    exact holds
  invalid := by
    rw [works.here]
    exact invalid
  bytes := by
    rw [bytesAt, works.here]
    exact data
  refs := by
    rw [works.here]
    exact refs
  unlocked := by
    rw [works.here]
    exact free
  queue := works.queue sleepers p
  released := by
    rw [works.here]
    rfl
  clock := works.traced.clock
  others := fun q other => by rw [works.slots, if_neg other]
  disks := works.disks
  held := works.held
  asleep := by rw [works.asleep, Registry.erase_absent awake]
  cpu := works.traced.cpu

theorem refs_stamp {refs : UInt32} (referenced : refs ≠ 0) : (refs - 1).toNat + 1 = refs.toNat := by
  have positive : refs.toNat ≠ 0 := fun none => referenced (UInt32.toNat_inj.mp none)
  have one : 1 ≤ refs := by
    rw [UInt32.le_iff_toNat_le]
    exact Nat.one_le_iff_ne_zero.mpr positive
  rw [UInt32.toNat_sub_of_le _ _ one]
  have small : (1 : UInt32).toNat = 1 := rfl
  omega

structure Awaited (s : Machine n m) (p : Place n m) (tasks : List TaskId) : Prop where
  once : tasks.Nodup
  asleep : ∀ task ∈ tasks, ∃ call, s.asleep.find? task = some call ∧ call.place = p
  lined : s.Lined tasks

structure Resumed (s : Machine n m) (p : Place n m) (tasks : List TaskId)
    (ended : List Woken × Machine n m) : Prop where
  names : ended.1.map (·.task) = tasks
  others : ∀ q, q ≠ p → ended.2.slot q = s.slot q
  flags : ∀ woken ∈ ended.1, woken.enabled = (s.cpu woken.task).enabled
  lined : ended.2.Lined []

structure First (s : Machine n m) (p : Place n m) (task : TaskId) (tasks : List TaskId)
    (call : SleepingCall n m) (reply : Reply) (t : Machine n m) : Prop where
  found : s.asleep.find? task = some call
  place : call.place = p
  holds : (s.slot p).holds call.block = true
  referenced : (s.slot p).refs ≠ 0
  looks : { s with asleep := s.asleep.erase task }.enter task call = (reply, t)
  looked : Looked { s with asleep := s.asleep.erase task } task call
    ({ s with asleep := s.asleep.erase task }.enterExchanges task call) reply t
  serves : ∀ x ∈ { s with asleep := s.asleep.erase task }.enterExchanges task call, x.Serves task call
  accounted : ∃ l, Accounted ⟨t, l, [], []⟩
  awaited : t.Awaited p tasks

theorem Looked.others (looked : Looked s task call xs reply t) {q : Place n m} (other : q ≠ call.place) :
    t.slot q = s.slot q := by
  cases looked with
  | waits _ works => exact (works.slots q).trans (if_neg other)
  | fails _ _ _ works => exact (works.slots q).trans (if_neg other)
  | gets _ works => exact (works.slots q).trans (if_neg other)

theorem Looked.cpu (looked : Looked s task call xs reply t) (who : TaskId) : t.cpu who = s.cpu who := by
  cases looked with
  | waits _ works => exact works.traced.cpu who
  | fails _ _ _ works => exact works.traced.cpu who
  | gets _ works => exact works.traced.cpu who

theorem Awaited.first (awaited : s.Awaited p (task :: tasks)) (accounted : Accounted ⟨s, l, [], []⟩) :
    ∃ call reply t, First s p task tasks call reply t := by
  obtain ⟨call, found, place⟩ := awaited.asleep task List.mem_cons_self
  obtain ⟨fresh, once⟩ := List.nodup_cons.mp awaited.once
  have roused : { s with asleep := s.asleep.erase task }.asleep.find? task = none :=
    (Registry.find?_erase s.asleep task task).trans (by simp)
  have referred := accounted.rouse found
  have holds := accounted.waits task call found
  have referenced := referenced_hand referred
  obtain ⟨-, moves⟩ := enter_moves (fun _ => True) task call referred holds roused
  have looked := enter_looked (s := { s with asleep := s.asleep.erase task }) task call referenced
  have sleeping : ∀ other ∈ tasks, ({ s with asleep := s.asleep.erase task }.enter task call).2.asleep.find?
      other = s.asleep.find? other := by
    intro other member
    have apart : other ≠ task := fun same => fresh (same ▸ member)
    rw [asleep_enter_other apart, Registry.find?_erase, if_neg (by simpa using apart)]
  have next : ({ s with asleep := s.asleep.erase task }.enter task call).2.Awaited p tasks :=
    ⟨once, fun other member => sleeping other member ▸
      awaited.asleep other (List.mem_cons_of_mem task member),
      looked.lined awaited.lined.rouse roused fresh⟩
  exact ⟨call, _, _, found, place, place ▸ holds, place ▸ referenced, rfl, looked,
    (enter_ends task call referred holds).serves, ⟨_, moves_accounted moves referred⟩, next⟩

theorem First.resumeAll (first : First s p task tasks call reply t) :
    s.resumeAll (task :: tasks) =
      (⟨task, reply, (s.cpu task).enabled⟩ :: (t.resumeAll tasks).1, (t.resumeAll tasks).2) := by
  have cpu : t.cpu task = s.cpu task := first.looked.cpu task
  rw [Machine.resumeAll, first.found]
  dsimp only
  rw [first.looks, cpu]

theorem First.resumed (first : First s p task tasks call reply t)
    (later : t.Resumed p tasks (t.resumeAll tasks)) :
    s.Resumed p (task :: tasks) (s.resumeAll (task :: tasks)) := by
  rw [first.resumeAll]
  refine ⟨congrArg (task :: ·) later.names, fun q other => ?_,
    List.forall_mem_cons.mpr ⟨rfl, fun woken member => ?_⟩, later.lined⟩
  · exact (later.others q other).trans (first.looked.others (first.place ▸ other))
  · rw [later.flags woken member, first.looked.cpu]
    rfl

structure Waited (s : Machine n m) (p : Place n m) (tasks : List TaskId)
    (ended : List Woken × Machine n m) : Prop where
  again : ∀ woken ∈ ended.1, woken.reply = .asleep
  queue : ended.2.queue p = s.queue p ++ tasks
  holder : (ended.2.slot p).data.holder = (s.slot p).data.holder
  valid : (ended.2.slot p).valid = (s.slot p).valid

theorem resumeAll_waited (awaited : s.Awaited p tasks) (accounted : Accounted ⟨s, l, [], []⟩)
    (busy : (s.slot p).data.holder ≠ none) :
    s.Waited p tasks (s.resumeAll tasks) ∧ s.Resumed p tasks (s.resumeAll tasks) := by
  induction tasks generalizing s l with
  | nil =>
    exact ⟨⟨List.forall_mem_nil _, (List.append_nil _).symm, rfl, rfl⟩, rfl, fun _ _ => rfl,
      List.forall_mem_nil _, awaited.lined⟩
  | cons task tasks ih =>
    obtain ⟨call, reply, t, first⟩ := awaited.first accounted
    obtain ⟨k, later⟩ := first.accounted
    obtain ⟨found, rfl, -, -, -, looked, -, -, next⟩ := id first
    cases looked with
    | fails free => exact absurd free busy
    | gets free => exact absurd free busy
    | @waits u _ works =>
      obtain ⟨sleepers, holder⟩ := queue_enter_busy busy task
      have same : (u.slot call.place).data.holder = (s.slot call.place).data.holder := by
        rw [works.here]
        exact holder
      obtain ⟨⟨again, queue, holders, valid⟩, resumed⟩ := ih next later (same ▸ busy)
      refine ⟨⟨?_, ?_, ?_, ?_⟩, first.resumed resumed⟩ <;> rw [first.resumeAll]
      · exact List.forall_mem_cons.mpr ⟨rfl, again⟩
      · have own : u.queue call.place = s.queue call.place ++ [task] := by
          rw [Machine.queue, works.here]
          exact sleepers
        refine queue.trans ?_
        rw [show s.queue call.place ++ task :: tasks = u.queue call.place ++ tasks by simp [own]]
        rfl
      · exact holders.trans same
      · have kept : (u.slot call.place).valid = (s.slot call.place).valid := by
          rw [works.here]
          rfl
        exact valid.trans kept

theorem First.undone (first : First s p task tasks call (.halted (.disk call.block)) t)
    (invalid : (s.slot p).valid = false) (free : (s.slot p).data.holder = none)
    (works : Works { s with asleep := s.asleep.erase task } t call.place
      ((s.slot call.place).stamp s.clock.now) s.clock.read.2 acts) :
    Undone s task p call.block 1 t := by
  obtain ⟨-, rfl, holds, referenced, -⟩ := first
  have awake : (s.asleep.erase task).find? task = none :=
    (Registry.find?_erase s.asleep task task).trans (by simp)
  have undone : Undone { s with asleep := s.asleep.erase task } task call.place call.block 1 t :=
    works.undone holds invalid free rfl rfl (refs_stamp referenced) awake
  exact ⟨undone.holds, undone.invalid, undone.bytes, undone.refs, undone.unlocked, undone.queue,
    undone.released, undone.clock, undone.others, undone.disks, undone.held, works.asleep, undone.cpu⟩

theorem resumeAll_passed (awaited : s.Awaited p tasks) (accounted : Accounted ⟨s, l, [], []⟩)
    (holds : (s.slot p).holds b = true) (free : (s.slot p).data.holder = none) :
    Passed p b s (s.resumeAll tasks).1 (s.resumeAll tasks).2 ∧
      s.Resumed p tasks (s.resumeAll tasks) := by
  induction tasks generalizing s l with
  | nil =>
    exact ⟨.settles free (awaited.lined.unqueued free), rfl, fun _ _ => rfl, List.forall_mem_nil _,
      awaited.lined⟩
  | cons task tasks ih =>
    obtain ⟨call, reply, t, first⟩ := awaited.first accounted
    obtain ⟨k, later⟩ := first.accounted
    have block : call.block = b :=
      ((Slot.holds_iff ..).mp first.holds).2.symm.trans ((Slot.holds_iff ..).mp holds).2
    have nobody := awaited.lined.unqueued free
    obtain ⟨found, rfl, -, -, looks, looked, -, -, next⟩ := id first
    subst block
    cases looked with
    | waits busy => exact absurd free busy
    | fails _ invalid broken works =>
      have undone := first.undone invalid free works
      obtain ⟨passed, resumed⟩ := ih next later undone.holds undone.unlocked
      refine ⟨?_, first.resumed resumed⟩
      rw [first.resumeAll]
      exact .fails found rfl rfl broken looks undone (undone.queue.trans nobody) passed
    | @gets u slot acts _ works keeps locked sleepers valid loaded =>
      have mine : (u.slot call.place).data.holder = some task := works.here ▸ locked
      have busy : (u.slot call.place).data.holder ≠ none := by simp [mine]
      obtain ⟨⟨again, queue, holder, kept⟩, resumed⟩ := resumeAll_waited next later busy
      have bytes : (u.slot call.place).valid = ((s.slot call.place).valid || call.loads) := by
        rw [works.here]
        exact valid
      have emptied : u.queue call.place = [] := (works.queue sleepers call.place).trans nobody
      refine ⟨?_, first.resumed resumed⟩
      rw [first.resumeAll]
      refine .gets found rfl rfl looks (fun loads invalid => (loaded loads invalid).1)
        (kept.trans bytes) (holder.trans mine) again ?_
      rw [resumed.names]
      exact queue.trans (congrArg (· ++ tasks) emptied)

end Machine

end KernelResources.Buffer
