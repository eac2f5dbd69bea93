import KernelResources.Proofs.Buffer.Scripts

namespace KernelResources.Buffer

open Effect PoolLock

variable {n m : Nat}

-- What was done about the spin locks of a cache, the newest first. `effect :: earlier` is the moment of an
-- effect.
structure Disciplined (past : List (Effect PoolLock (Cache.Act n))) : Prop where
  -- A lock that is taken was not held already.
  fresh : ∀ lock earlier, .acquire lock :: earlier <:+ past → lock ∉ locks earlier
  -- The pool lock is taken while no bucket is locked.
  first : ∀ earlier, .acquire .pool :: earlier <:+ past → ∀ b, .bucket b ∉ locks earlier
  -- Two buckets are locked at once under the pool lock only.
  paired : ∀ moment, moment <:+ past → ∀ b c, b ≠ c → .bucket b ∈ locks moment →
    .bucket c ∈ locks moment → .pool ∈ locks moment
  -- A lock that is given back was held.
  owned : ∀ lock earlier, .release lock :: earlier <:+ past → lock ∈ locks earlier
  -- Nothing is locked while a task goes for the lock of a buffer, sleeps, or lets the device work.
  outside : ∀ what earlier, .act what :: earlier <:+ past → what.Outside → locks earlier = []

theorem PoolLock.Obeyed.disciplined {past : List (Effect PoolLock (Cache.Act n))}
    (obeyed : Obeyed past) : Disciplined past where
  fresh := fun _ _ moment => (obeyed_suffix obeyed moment).1.fresh
  first := fun _ moment => (obeyed_suffix obeyed moment).1.first rfl
  paired := fun _ moment => obeyed_paired (obeyed_suffix obeyed moment)
  owned := fun _ _ moment => (obeyed_suffix obeyed moment).1.1
  outside := fun _ _ moment => (obeyed_suffix obeyed moment).1

structure Thread (n : Nat) where
  task : TaskId
  cpu : Processor
  past : List (Effect PoolLock (Cache.Act n))
  rest : Cache.Script n Unit

def Thread.Idle (thread : Thread n) : Prop := ∃ result, thread.rest = .ends result

structure Contention (ι : Type) (n : Nat) where
  shared : Cache n × Clock
  owner : PoolLock → Option ι
  threads : ι → Thread n

namespace Contention

variable {ι : Type} {x y : Contention ι n} {who whom : ι}

def start (ι : Type) (shared : Cache n × Clock) : Contention ι n :=
  ⟨shared, fun _ => none, fun _ => ⟨⟨0⟩, .fresh, [], .ends (.ok ())⟩⟩

def WaitsFor (x : Contention ι n) (who whom : ι) : Prop :=
  ∃ lock next, (x.threads who).rest = .takes lock next ∧ x.owner lock = some whom

structure Sound (x : Contention ι n) : Prop where
  lawful : ∀ who, Cache.Script.Lawful [] (locks (x.threads who).past) (x.threads who).rest
  obeyed : ∀ who, Obeyed (x.threads who).past
  owned : ∀ who lock, lock ∈ locks (x.threads who).past ↔ x.owner lock = some who

theorem sound_start (shared : Cache n × Clock) : (start ι shared).Sound where
  lawful := fun _ => rfl
  obeyed := fun _ => trivial
  owned := fun _ _ => ⟨nofun, nofun⟩

-- Who waits, and is waited for, has the pool lock.
theorem Sound.waiting_pool (sound : x.Sound) {third : ι} (waited : x.WaitsFor third who)
    (waits : x.WaitsFor who whom) : x.owner .pool = some who := by
  obtain ⟨held, _, _, own⟩ := waited
  obtain ⟨lock, next, here, _⟩ := waits
  have lawful := sound.lawful who
  rw [here] at lawful
  refine (sound.owned who .pool).mp (lawful.1.pool ?_)
  exact List.ne_nil_of_mem ((sound.owned who held).mpr own)

theorem Sound.waits_other (sound : x.Sound) : ¬x.WaitsFor who who := by
  rintro ⟨lock, next, here, own⟩
  have lawful := sound.lawful who
  rw [here] at lawful
  exact lawful.1.fresh ((sound.owned who lock).mpr own)

-- In a circle everybody would have the pool lock, so there would be one thread only, and it would wait for
-- a lock that it has.
theorem Sound.no_circle (sound : x.Sound) : ¬Relation.TransGen x.WaitsFor who who := by
  intro circle
  obtain ⟨whom, waits, back⟩ := Relation.TransGen.head'_iff.mp circle
  obtain ⟨last, _, waited⟩ := Relation.TransGen.tail'_iff.mp circle
  rcases Relation.ReflTransGen.cases_head back with rfl | ⟨next, onward, _⟩
  · exact sound.waits_other waits
  · have mine := sound.waiting_pool waited waits
    have theirs := sound.waiting_pool waits onward
    obtain rfl := Option.some.inj (mine.symm.trans theirs)
    exact sound.waits_other waits

section Interleaving

variable [DecidableEq ι]

def setThread (x : Contention ι n) (who : ι) (thread : Thread n) : Contention ι n :=
  { x with threads := fun other => if other = who then thread else x.threads other }

def setOwner (x : Contention ι n) (lock : PoolLock) (owner : Option ι) : Contention ι n :=
  { x with owner := fun other => if other = lock then owner else x.owner other }

def execution (x : Contention ι n) (who : ι) : Execution PoolLock (Cache.Act n) (Cache n × Clock) :=
  let thread := x.threads who
  ⟨thread.task, thread.cpu, thread.past, x.shared⟩

def resume (x : Contention ι n) (who : ι) (e : Execution PoolLock (Cache.Act n) (Cache n × Clock))
    (rest : Cache.Script n Unit) : Contention ι n :=
  { x.setThread who ⟨e.task, e.cpu, e.past, rest⟩ with shared := e.state }

inductive Step (may : Cache n × Clock → Cache n × Clock → Prop) (x : Contention ι n) :
    Contention ι n → Prop where
  -- Any task begins any operation, on any core and with any interrupt flag.
  | begins (who : ι) (idle : (x.threads who).Idle) (task : TaskId) (cpu : Processor)
      (call : Cache.Call n) (rounds : Nat) :
      Step may x (x.setThread who
        ⟨task, cpu, [], (call.script rounds).settle fun _ => .ends (.ok ())⟩)
  | works (who : ι) {β : Type} {part : Cache.Run n β} {next : Except CacheFault β → Cache.Script n Unit}
      (here : (x.threads who).rest = .works part next) :
      Step may x (x.resume who (part.run (x.execution who)).2 (next (part.run (x.execution who)).1))
  -- A lock is taken when nobody has it; until then the thread waits.
  | takes (who : ι) {lock : PoolLock} {next : Cache.Script n Unit}
      (here : (x.threads who).rest = .takes lock next) (free : x.owner lock = none) :
      Step may x ((x.resume who ((x.execution who).note (.acquire lock)) next).setOwner lock (some who))
  | gives (who : ι) {lock : PoolLock} {next : Cache.Script n Unit}
      (here : (x.threads who).rest = .gives lock next) :
      Step may x ((x.resume who ((x.execution who).note (.release lock)) next).setOwner lock none)
  -- What else happens to the buffers, the disk and the clock, as far as it may.
  | changes (shared : Cache n × Clock) (allowed : may x.shared shared) : Step may x { x with shared }

-- Whatever else happens.
def Reached (x : Contention ι n) : Prop :=
  ∃ shared, Relation.ReflTransGen (Step fun _ _ => True) (start ι shared) x

theorem sound_set (sound : x.Sound) {thread : Thread n} {owner : PoolLock → Option ι}
    {shared : Cache n × Clock} (lawful : Cache.Script.Lawful [] (locks thread.past) thread.rest)
    (obeyed : Obeyed thread.past) (own : ∀ lock, lock ∈ locks thread.past ↔ owner lock = some who)
    (others : ∀ other, other ≠ who → ∀ lock, owner lock = some other ↔ x.owner lock = some other) :
    Sound { shared, owner, threads := fun other => if other = who then thread else x.threads other } where
  lawful := by
    intro other
    dsimp only
    split
    · exact lawful
    · exact sound.lawful other
  obeyed := by
    intro other
    dsimp only
    split
    · exact obeyed
    · exact sound.obeyed other
  owned := by
    intro other lock
    dsimp only
    split
    · rename_i same
      rw [same]
      exact own lock
    · rename_i differs
      rw [others other differs]
      exact sound.owned other lock

theorem sound_begin (sound : x.Sound) (idle : (x.threads who).Idle) (task : TaskId) (cpu : Processor)
    (call : Cache.Call n) (rounds : Nat) :
    (x.setThread who ⟨task, cpu, [], (call.script rounds).settle fun _ => .ends (.ok ())⟩).Sound := by
  obtain ⟨result, ended⟩ := idle
  have free := sound.lawful who
  rw [ended] at free
  refine sound_set sound (Cache.Script.lawful_settle (call.script_lawful rounds) fun _ => rfl) trivial
    (fun lock => ?_) fun _ _ _ => .rfl
  rw [← sound.owned who lock, show locks (x.threads who).past = [] from free]
  exact .rfl

theorem sound_work (sound : x.Sound) {β : Type} {part : Cache.Run n β}
    {next : Except CacheFault β → Cache.Script n Unit} (here : (x.threads who).rest = .works part next) :
    (x.resume who (part.run (x.execution who)).2 (next (part.run (x.execution who)).1)).Sound := by
  have lawful := sound.lawful who
  rw [here] at lawful
  obtain ⟨made, past, quiet⟩ := lawful.1 (x.execution who)
  obtain ⟨obeyed, same⟩ := obeyed_quiet (sound.obeyed who) quiet
  rw [show made ++ (x.threads who).past = _ from past.symm] at obeyed same
  refine sound_set sound ?_ obeyed (fun lock => ?_) fun _ _ _ => .rfl
  · dsimp only
    rw [same]
    exact lawful.2 _
  · dsimp only
    rw [same]
    exact sound.owned who lock

theorem sound_take (sound : x.Sound) {lock : PoolLock} {next : Cache.Script n Unit}
    (here : (x.threads who).rest = .takes lock next) (free : x.owner lock = none) :
    ((x.resume who ((x.execution who).note (.acquire lock)) next).setOwner lock (some who)).Sound := by
  have lawful := sound.lawful who
  rw [here] at lawful
  refine sound_set sound lawful.2 ⟨lawful.1, sound.obeyed who⟩ (fun other => ?_) fun whom differs other => ?_
  · have owned := sound.owned who other
    change other ∈ lock :: locks (x.threads who).past ↔ (if other = lock then some who else x.owner other) = _
    rw [List.mem_cons, owned]
    split
    · rename_i same
      exact ⟨fun _ => rfl, fun _ => .inl same⟩
    · rename_i another
      exact ⟨fun either => either.resolve_left another, .inr⟩
  · change (if other = lock then some who else x.owner other) = _ ↔ _
    split
    · rename_i same
      rw [same, free]
      exact ⟨fun own => absurd (Option.some.inj own).symm differs, nofun⟩
    · exact .rfl

theorem sound_give (sound : x.Sound) {lock : PoolLock} {next : Cache.Script n Unit}
    (here : (x.threads who).rest = .gives lock next) :
    ((x.resume who ((x.execution who).note (.release lock)) next).setOwner lock none).Sound := by
  have lawful := sound.lawful who
  rw [here] at lawful
  obtain ⟨held, paired, rest⟩ := lawful
  refine sound_set sound rest ⟨⟨held, paired⟩, sound.obeyed who⟩ (fun other => ?_)
    fun whom differs other => ?_
  · have owned := sound.owned who other
    change other ∈ (locks (x.threads who).past).erase lock ↔ (if other = lock then none else x.owner other) = _
    rw [(obeyed_nodup (sound.obeyed who)).mem_erase_iff, owned]
    split
    · rename_i same
      exact ⟨fun both => absurd same both.1, nofun⟩
    · rename_i another
      exact ⟨And.right, fun own => ⟨another, own⟩⟩
  · change (if other = lock then none else x.owner other) = _ ↔ _
    split
    · rename_i same
      rw [same, (sound.owned who lock).mp held]
      exact ⟨nofun, fun own => absurd (Option.some.inj own).symm differs⟩
    · exact .rfl

theorem sound_step {may : Cache n × Clock → Cache n × Clock → Prop} (step : Step may x y) (sound : x.Sound) : y.Sound := by
  cases step with
  | begins who idle task cpu call rounds => exact sound_begin sound idle task cpu call rounds
  | works who here => exact sound_work sound here
  | takes who here free => exact sound_take sound here free
  | gives who here => exact sound_give sound here
  | changes shared allowed => exact ⟨sound.lawful, sound.obeyed, sound.owned⟩

theorem reached_sound (reached : x.Reached) : x.Sound := by
  obtain ⟨shared, steps⟩ := reached
  induction steps with
  | refl => exact sound_start shared
  | tail _ step ih => exact sound_step step ih

end Interleaving

end Contention

namespace Machine

variable {m : Nat} {s t : Machine n m} {who : TaskId → Prop}

def effectsAt (s : Machine n m) (c : Fin m) : List (Effect PoolLock (Cache.Act n)) :=
  (s.past.filter (·.1 == c)).map (·.2)

theorem effectsAt_run {α : Type} (s : Machine n m) (task : TaskId) (c d : Fin m) (op : Cache.Run n α) :
    (s.run task c op).2.effectsAt d =
      (if c = d then (op.run (s.entry task c)).2.past else []) ++ s.effectsAt d := by
  have past : (s.run task c op).2.past = (op.run (s.entry task c)).2.past.map (c, ·) ++ s.past := rfl
  rw [effectsAt, past, List.filter_append, List.map_append]
  congr 1
  split
  · rename_i here
    subst here
    rw [List.filter_eq_self.mpr (by simp), List.map_map]
    exact List.map_id' _
  · rename_i elsewhere
    rw [List.filter_eq_nil_iff.mpr (by simp [elsewhere])]
    rfl

open PoolLock in
theorem part_obeyed (part : Part who s t) (c : Fin m)
    (before : Obeyed (s.effectsAt c) ∧ locks (s.effectsAt c) = []) :
    Obeyed (t.effectsAt c) ∧ locks (t.effectsAt c) = [] := by
  cases part with
  | runs task one d call =>
    have ran := call.operation_obeyed (e := s.entry task d) rfl
    rw [effectsAt_run]
    split
    · exact ⟨obeyed_append before.2 before.1 ran.1, (locks_append before.2).trans ran.2⟩
    · exact before
  | rests t pools cpus past =>
    rw [show t.effectsAt c = s.effectsAt c by rw [effectsAt, past, effectsAt]]
    exact before

open PoolLock in
theorem step_obeyed (s : Machine n m) (task : TaskId) {event : Event m} (operates : event.Operates)
    (c : Fin m) : Obeyed ((s.step task event).2.effectsAt c) ∧
      locks ((s.step task event).2.effectsAt c) = [] := by
  have parts := parts_step s task operates (fun _ => anybody_is task) fun woken _ => anybody_is woken.task
  generalize (s.step task event).2 = t at parts
  induction parts with
  | refl => exact ⟨trivial, rfl⟩
  | tail _ part ih => exact part_obeyed part c ih

end Machine

-- Each operation takes and gives back the spin locks in order, run alone from anywhere, in a step with all
-- the calls that it wakes, and among any others that come in between; and nobody waits in a circle.
theorem spin_locks_in_order (n m : Nat) (ι : Type) [DecidableEq ι] :
    (∀ (call : Cache.Call n) (task : TaskId) (cpu : Processor) (state : Cache n × Clock),
      Disciplined (call.operation.run (.start task cpu state)).2.past ∧
        locks (call.operation.run (.start task cpu state)).2.past = []) ∧
    (∀ (s : Machine n m) (task : TaskId) (event : Machine.Event m), event.Operates → ∀ c : Fin m,
      Disciplined ((s.step task event).2.effectsAt c) ∧
        locks ((s.step task event).2.effectsAt c) = []) ∧
    (∀ call : Cache.Call n, (call.script (n + 1)).Follows call.operation) ∧
    ∀ x : Contention ι n, x.Reached →
      (∀ who, Disciplined (x.threads who).past ∧
        ((x.threads who).Idle → locks (x.threads who).past = [])) ∧
      ∀ who, ¬Relation.TransGen x.WaitsFor who who := by
  refine ⟨fun call task cpu state => ?_, fun s task event operates c => ?_, Cache.Call.script_follows,
    fun x reached => ?_⟩
  · obtain ⟨obeyed, free⟩ := call.operation_obeyed (e := .start task cpu state) rfl
    exact ⟨obeyed.disciplined, free⟩
  · obtain ⟨obeyed, free⟩ := s.step_obeyed task operates c
    exact ⟨obeyed.disciplined, free⟩
  · have sound := Contention.reached_sound reached
    refine ⟨fun who => ⟨(sound.obeyed who).disciplined, ?_⟩, fun who => sound.no_circle⟩
    rintro ⟨result, ended⟩
    have free := sound.lawful who
    rw [ended] at free
    exact free

-- Two look-ups of one block: the first has the lock of its bucket and the second waits for it.
theorem spin_locks_in_order_waiting :
    ((.audit 0 : Machine.Event 1).Operates ∧
      locks (((Machine.start 1 1 .zeroed).step ⟨0⟩ (.audit 0)).2.effectsAt 0) = []) ∧
    ∃ x : Contention Bool 1, x.Reached ∧ x.WaitsFor true false ∧ ¬Relation.TransGen x.WaitsFor true true := by
  refine ⟨⟨trivial, ?_⟩, ?_⟩
  · exact ((spin_locks_in_order 1 1 Bool).2.1 (.start 1 1 .zeroed) ⟨0⟩ (.audit 0) trivial 0).2
  · have begun : Relation.ReflTransGen (Contention.Step fun _ _ => True) _ _ :=
      .single (.begins (x := .start Bool (.start 1 .zeroed, .start)) false ⟨_, rfl⟩ ⟨1⟩ .fresh
        (.isCached ⟨0, 0⟩) 0)
    have masked := begun.tail (.works false rfl)
    have taken := masked.tail (.takes false rfl rfl)
    have joined := taken.tail (.begins true ⟨_, rfl⟩ ⟨2⟩ .fresh (.isCached ⟨0, 0⟩) 0)
    have reached : Contention.Reached _ := ⟨_, joined.tail (.works true rfl)⟩
    exact ⟨_, reached, ⟨_, _, rfl, rfl⟩, ((spin_locks_in_order 1 1 Bool).2.2.2 _ reached).2 true⟩

end KernelResources.Buffer
