import KernelResources.Proofs.Buffer.References
import KernelResources.Proofs.Buffer.Traces
import KernelResources.Proofs.Trails

namespace KernelResources.Buffer

open Machine Stage

variable {n m : Nat}

namespace Cache

open Operation

variable {e : Execution PoolLock (Act n) (Cache n × Clock)} {i : Fin n} {b : BlockId}

theorem load_deeds (invalid : e.state.1.pool.slots[i].valid = false) :
    [.effect (.act (.tells (.loading b))), .effect (.act (.transfers .read b e.cpu.enabled))] <+:
      (loadOrRelease i b).deeds e := by
  unfold loadOrRelease load transfer slot
  simp [invalid]

theorem write_deeds (held : e.state.1.pool.slots[i].data.heldBy e.task = true) :
    [.effect (.act (.transfers .write e.state.1.pool.slots[i].block e.cpu.enabled))] <+:
      (write i).deeds e := by
  unfold write transfer slot
  simp [held]

end Cache

-- A transfer for the buffer at `place`, made by `task` in the midst of a step, when the caches and the
-- tasks were as `machine` tells.
structure Exchange (n m : Nat) where
  machine : Machine n m
  task : TaskId
  place : Place n m
  transfer : Transfer

namespace Exchange

def slot (x : Exchange n m) : Slot := x.machine.slot x.place

def failed (x : Exchange n m) : Bool :=
  x.machine.caches[x.place.cache].disk.fails x.task x.transfer.block

def Loads (x : Exchange n m) : Prop := x.transfer.direction = .read ∧ x.failed = false

instance (x : Exchange n m) : Decidable x.Loads := inferInstanceAs (Decidable (_ ∧ _))

-- Made by the holder of a buffer for its block, under the interrupt flag of the holder; and nothing is
-- read into a buffer that has its bytes.
structure Proper (x : Exchange n m) : Prop where
  holds : x.slot.holds x.transfer.block = true
  locked : x.slot.data.holder = some x.task
  interrupts : x.transfer.interrupts = (x.machine.cpu x.task).enabled
  invalid : x.transfer.direction = .read → x.slot.valid = false

structure Serves (x : Exchange n m) (task : TaskId) (call : SleepingCall n m) : Prop where
  task : x.task = task
  place : x.place = call.place
  direction : x.transfer.direction = .read
  block : x.transfer.block = call.block
  loads : call.loads = true

end Exchange

namespace Machine

variable {α : Type}

-- While an operation on cache `c` is at work, which has come to `state` so far.
def amid (s : Machine n m) (c : Fin m) (state : Cache n × Clock) : Machine n m :=
  { s with caches := s.caches.set c state.1 c.isLt, clock := state.2 }

def exchange? (s : Machine n m) (p : Place n m) :
    Execution PoolLock (Cache.Act n) (Cache n × Clock) × Deed PoolLock (Cache.Act n) (Cache n × Clock) →
      Option (Exchange n m)
  | (moment, .effect (.act what)) =>
    what.transfer?.map fun transfer => ⟨s.amid p.cache moment.state, moment.task, p, transfer⟩
  | _ => none

def made (s : Machine n m) (task : TaskId) (p : Place n m) (op : Cache.Run n α) : List (Exchange n m) :=
  (op.trail (s.entry task p.cache)).filterMap (s.exchange? p)

def finishExchanges (s : Machine n m) (task : TaskId) (call : SleepingCall n m) : List (Exchange n m) :=
  if call.loads then s.made task call.place (Cache.loadOrRelease call.place.slot call.block) else []

def enterExchanges (s : Machine n m) (task : TaskId) (call : SleepingCall n m) : List (Exchange n m) :=
  match s.run task call.place.cache (Cache.enter call.place.slot) with
  | (.ok true, s) => s.finishExchanges task call
  | _ => []

def callExchanges (s : Machine n m) (task : TaskId) (c : Fin m) (b : BlockId) (loads : Bool)
    (name : String) : List (Exchange n m) :=
  match s.held.find? name with
  | some _ => []
  | none =>
    match s.run task c (Cache.claim b) with
    | (.error _, _) => []
    | (.ok i, s) => s.enterExchanges task ⟨⟨c, i⟩, b, loads, name⟩

def resumeExchanges : List TaskId → Machine n m → List (Exchange n m)
  | [], _ => []
  | task :: rest, s =>
    match s.asleep.find? task with
    | none => resumeExchanges rest s
    | some call =>
      let s := { s with asleep := s.asleep.erase task }
      s.enterExchanges task call ++ resumeExchanges rest (s.enter task call).2

def wakeExchanges (s : Machine n m) : List (Exchange n m) :=
  match s.released? with
  | none => []
  | some place =>
    let (sleepers, lock) := (s.slot place).data.wake
    (s.updateSlot place fun slot => { slot with data := lock }).resumeExchanges sleepers

def advanceExchanges (s : Machine n m) (task : TaskId) : Event m → List (Exchange n m)
  | .read c b name => s.callExchanges task c b true name
  | .acquire c b name => s.callExchanges task c b false name
  | .write name =>
    match s.held.find? name with
    | some place => s.made task place (Cache.write place.slot)
    | none => []
  | _ => []

def exchanges (s : Machine n m) (task : TaskId) (event : Event m) : List (Exchange n m) :=
  if s.isAsleep task then []
  else s.opened.advanceExchanges task event ++ (s.opened.advance task event).2.wakeExchanges

-- Part of a step: the transfers in it are made, no buffer goes to another block or loses its bytes, and
-- what was loaded stays loaded. Nobody is moved and no interrupt flag is changed.
structure Passes (s : Machine n m) (xs : List (Exchange n m)) (t : Machine n m) : Prop where
  transfers : ∀ c, t.transfers c = s.transfers c ++ (xs.filter (·.place.cache = c)).map (·.transfer)
  cpu : ∀ task, t.cpu task = s.cpu task
  cpus : ∀ x ∈ xs, ∀ task, x.machine.cpu task = s.cpu task
  proper : ∀ x ∈ xs, x.Proper
  tags : s.SameTags t
  kept : ∀ x ∈ xs, x.machine.SameTags t
  valid : ∀ p, (s.slot p).valid = true → (t.slot p).valid = true
  still : ∀ x ∈ xs, ∀ p, (s.slot p).valid = true → (x.machine.slot p).valid = true
  loads : ∀ x ∈ xs, x.Loads → (t.slot x.place).valid = true
  once : xs.Pairwise fun x y => x.Loads → (y.machine.slot x.place).valid = true

theorem transfers_silent {s t : Machine n m} {c : Fin m} {clock : Clock} {acts : List (Cache.Act n)}
    (traced : Traced s t c clock acts) (none : acts.filterMap Cache.Act.transfer? = []) (d : Fin m) :
    t.transfers d = s.transfers d := by
  rw [transfers_acts, transfers_acts, traced.acts, List.filterMap_append]
  split
  · rw [none]
    exact List.append_nil _
  · exact List.append_nil _

def Unreleasing (s t : Machine n m) : Prop :=
  ∀ (c : Fin m) (i : Fin n), .leavesLock i ∈ t.actsAt c → .leavesLock i ∈ s.actsAt c

theorem unreleasing_traced {s t : Machine n m} {c : Fin m} {clock : Clock} {acts : List (Cache.Act n)}
    (traced : Traced s t c clock acts) (none : ∀ i, .leavesLock i ∉ acts) : Unreleasing s t := by
  intro d i left
  rw [traced.acts, List.mem_append] at left
  rcases left with before | new
  · exact before
  · split at new
    · exact absurd new (none i)
    · cases new

namespace Passes

variable {s t u : Machine n m} {xs ys : List (Exchange n m)} {c : Fin m} {clock : Clock}
  {acts : List (Cache.Act n)}

theorem trans (first : Passes s xs t) (second : Passes t ys u) : Passes s (xs ++ ys) u where
  transfers := by
    intro c
    rw [second.transfers, first.transfers, List.filter_append, List.map_append, List.append_assoc]
  cpu := fun task => (second.cpu task).trans (first.cpu task)
  cpus := by
    intro x member task
    rcases List.mem_append.mp member with early | late
    · exact first.cpus x early task
    · exact (second.cpus x late task).trans (first.cpu task)
  proper := by
    intro x member
    rcases List.mem_append.mp member with early | late
    · exact first.proper x early
    · exact second.proper x late
  tags := first.tags.trans second.tags
  kept := by
    intro x member
    rcases List.mem_append.mp member with early | late
    · exact (first.kept x early).trans second.tags
    · exact second.kept x late
  valid := fun p valid => second.valid p (first.valid p valid)
  still := by
    intro x member p valid
    rcases List.mem_append.mp member with early | late
    · exact first.still x early p valid
    · exact second.still x late p (first.valid p valid)
  loads := by
    intro x member loads
    rcases List.mem_append.mp member with early | late
    · exact second.valid _ (first.loads x early loads)
    · exact second.loads x late loads
  once := List.pairwise_append.mpr ⟨first.once, second.once, fun x early y late loads =>
    second.still y late _ (first.loads x early loads)⟩

theorem silent (traced : Traced s t c clock acts) (none : acts.filterMap Cache.Act.transfer? = [])
    (tags : s.SameTags t) (valid : ∀ p, (s.slot p).valid = true → (t.slot p).valid = true) :
    Passes s [] t where
  transfers := by
    intro d
    rw [transfers_silent traced none]
    exact (List.append_nil _).symm
  cpu := traced.cpu
  cpus := nofun
  proper := nofun
  tags := tags
  kept := nofun
  valid := valid
  still := nofun
  loads := nofun
  once := .nil

theorem single {task : TaskId} {p : Place n m} {transfer : Transfer}
    (traced : Traced s t p.cache clock acts) (one : acts.filterMap Cache.Act.transfer? = [transfer])
    (tags : s.SameTags t) (valid : ∀ p, (s.slot p).valid = true → (t.slot p).valid = true)
    (proper : (Exchange.mk s task p transfer).Proper)
    (loads : (Exchange.mk s task p transfer).Loads → (t.slot p).valid = true) :
    Passes s [⟨s, task, p, transfer⟩] t where
  transfers := by
    intro d
    rw [transfers_acts, transfers_acts, traced.acts, List.filterMap_append]
    split
    · rename_i here
      rw [one, List.filter_cons_of_pos (by simpa using here)]
      rfl
    · rename_i elsewhere
      rw [List.filter_cons_of_neg (by simpa using elsewhere)]
      rfl
  cpu := traced.cpu
  cpus := List.forall_mem_singleton.mpr fun _ => rfl
  proper := List.forall_mem_singleton.mpr proper
  tags := tags
  kept := List.forall_mem_singleton.mpr tags
  valid := valid
  still := List.forall_mem_singleton.mpr fun _ => id
  loads := List.forall_mem_singleton.mpr loads
  once := List.pairwise_singleton ..

theorem rebook (passes : Passes s xs t) (caches : u.caches = t.caches) (past : u.past = t.past)
    (cpus : u.cpus = t.cpus) : Passes s xs u where
  transfers := by
    intro c
    rw [Machine.transfers, past]
    exact passes.transfers c
  cpu := by
    intro task
    rw [Machine.cpu, cpus]
    exact passes.cpu task
  cpus := passes.cpus
  proper := passes.proper
  tags := passes.tags.trans fun c => by
    rw [caches]
    exact .refl _
  kept := fun x member => (passes.kept x member).trans fun c => by
    rw [caches]
    exact .refl _
  valid := by
    intro p
    rw [show u.slot p = t.slot p by rw [slot, slot, caches]]
    exact passes.valid p
  still := passes.still
  loads := by
    intro x
    rw [show u.slot x.place = t.slot x.place by rw [slot, slot, caches]]
    exact passes.loads x
  once := passes.once

end Passes

theorem passes_refl (s : Machine n m) : Passes s [] s where
  transfers := by simp
  cpu := fun _ => rfl
  cpus := nofun
  proper := nofun
  tags := .refl s
  kept := nofun
  valid := fun _ => id
  still := nofun
  loads := nofun
  once := .nil

theorem valid_update {s t : Machine n m} {p : Place n m} {f : Slot → Slot}
    (agrees : t.Agrees (s.updateSlot p f)) (kept : (s.slot p).valid = true → (f (s.slot p)).valid = true)
    (q : Place n m) (valid : (s.slot q).valid = true) : (t.slot q).valid = true := by
  rw [agrees.slot, slot_updateSlot]
  split
  · rename_i here
    subst here
    exact kept valid
  · exact valid

theorem valid_released {s t : Machine n m} {p : Place n m} {now : UInt64}
    (agrees : t.Agrees ((s.updateSlot p .unlock).updateSlot p (.stamp now))) (q : Place n m)
    (valid : (s.slot q).valid = true) : (t.slot q).valid = true := by
  rw [slot_released agrees]
  split
  · rename_i here
    subst here
    exact valid
  · exact valid

variable {s : Machine n m} {l : Ledger m} {hand locks : List (Place n m)} {task : TaskId}
  {call : SleepingCall n m}

section Made

variable {p : Place n m} {op : Cache.Run n α} {result : Except CacheFault α} {state : Cache n × Clock}
  {acts : List (Cache.Act n)}

theorem amid_entry (s : Machine n m) (task : TaskId) (c : Fin m) : s.amid c (s.entry task c).state = s := by
  simp [amid, entry, Execution.start]

theorem made_transfers (ends : op.Ends (s.entry task p.cache) result state acts) :
    (s.made task p op).map (·.transfer) = acts.filterMap Cache.Act.transfer? := by
  rw [← Operation.acts_deeds _ ends, ← Operation.deeds_walk (s.entry task p.cache) (op.deeds _),
    List.filterMap_map, List.filterMap_filterMap, made, List.map_filterMap]
  refine List.filterMap_congr ?_
  rintro ⟨moment, deed⟩ -
  cases deed with
  | change => rfl
  | effect effect =>
    cases effect with
    | act what => cases what <;> rfl
    | _ => rfl

theorem made_none (ends : op.Ends (s.entry task p.cache) result state acts)
    (none : acts.filterMap Cache.Act.transfer? = []) : s.made task p op = [] :=
  List.map_eq_nil_iff.mp ((made_transfers ends).trans none)

theorem made_one {transfer : Transfer} (before : List (Deed PoolLock (Cache.Act n) (Cache n × Clock)))
    {what : Cache.Act n} (ends : op.Ends (s.entry task p.cache) result state acts)
    (one : acts.filterMap Cache.Act.transfer? = [transfer])
    (begins : before ++ [.effect (.act what)] <+: op.deeds (s.entry task p.cache))
    (same : what.transfer? = some transfer)
    (own : ((s.entry task p.cache).along before).task = task)
    (still : ((s.entry task p.cache).along before).state = (s.entry task p.cache).state) :
    s.made task p op = [⟨s, task, p, transfer⟩] := by
  have member : ⟨s, task, p, transfer⟩ ∈ s.made task p op := by
    refine List.mem_filterMap.mpr ⟨_, Operation.trail_prefix _ begins, ?_⟩
    simp only [exchange?, same, own, still, amid_entry, Option.map_some]
  obtain ⟨x, only, -⟩ := List.map_eq_singleton_iff.mp ((made_transfers ends).trans one)
  rw [only] at member ⊢
  exact congrArg ([·]) (List.mem_singleton.mp member).symm

theorem made_load {b : BlockId} {loaded : Except CacheFault Unit} (invalid : (s.slot p).valid = false)
    (ends : (Cache.loadOrRelease p.slot b).Ends (s.entry task p.cache) loaded state acts)
    (one : acts.filterMap Cache.Act.transfer? = [⟨.read, b, (s.cpu task).enabled⟩]) :
    s.made task p (Cache.loadOrRelease p.slot b) = [⟨s, task, p, ⟨.read, b, (s.cpu task).enabled⟩⟩] :=
  made_one [_] ends one (Cache.load_deeds invalid) rfl rfl rfl

theorem made_write {written : Except CacheFault Unit} (held : (s.slot p).data.heldBy task = true)
    (ends : (Cache.write p.slot).Ends (s.entry task p.cache) written state acts)
    (one : acts.filterMap Cache.Act.transfer? = [⟨.write, (s.slot p).block, (s.cpu task).enabled⟩]) :
    s.made task p (Cache.write p.slot) =
      [⟨s, task, p, ⟨.write, (s.slot p).block, (s.cpu task).enabled⟩⟩] :=
  made_one [] ends one (Cache.write_deeds held) rfl rfl rfl

end Made

structure Ends (s : Machine n m) (task : TaskId) (call : SleepingCall n m) (xs : List (Exchange n m))
    (ended : Reply × Machine n m) : Prop where
  passes : Passes s xs ended.2
  serves : ∀ x ∈ xs, x.Serves task call
  halted : ∀ fault, ended.1 = .halted fault → ∃ x ∈ xs, x.failed = true ∧ fault = .disk x.transfer.block
  asleep : ended.2.asleep = s.asleep ∨
    ended.2.asleep = s.asleep.put task call ∧ Unreleasing s ended.2
  locked : call.loads = false → Unreleasing s ended.2
  one : xs = [] ∨ xs.length = 1 ∧ ended.2.asleep = s.asleep

theorem Ends.length_le {xs : List (Exchange n m)} {ended : Reply × Machine n m}
    (ends : Ends s task call xs ended) : xs.length ≤ 1 := by
  rcases ends.one with rfl | ⟨single, -⟩
  · exact Nat.zero_le 1
  · exact single.le

theorem asleep_finish (s : Machine n m) (task : TaskId) (call : SleepingCall n m) :
    (s.finish task call).2.asleep = s.asleep := by
  unfold finish
  by_cases loads : call.loads = true
  · rw [if_pos loads]
    generalize ran : s.run task call.place.cache _ = ended
    obtain ⟨result, t⟩ := ended
    have kept : t.asleep = s.asleep := (congrArg (fun ended => ended.2.asleep) ran).symm
    cases result <;> exact kept
  · rw [if_neg loads]

theorem finish_ends (task : TaskId) (call : SleepingCall n m)
    (accounted : Accounted ⟨s, l, call.place :: hand, call.place :: locks⟩)
    (holds : (s.slot call.place).holds call.block = true)
    (locked : (s.slot call.place).data.holder = some task) :
    Ends s task call (s.finishExchanges task call) (s.finish task call) := by
  have kept := s.asleep_finish task call
  unfold finish at kept ⊢
  unfold finishExchanges
  cases loads : call.loads with
  | false =>
    rw [loads, if_neg Bool.false_ne_true] at kept
    rw [if_neg Bool.false_ne_true, if_neg Bool.false_ne_true]
    exact ⟨(passes_refl s).rebook rfl rfl rfl, List.forall_mem_nil _, by rintro _ ⟨⟩, .inl kept,
      fun _ _ _ => id, .inl rfl⟩
  | true =>
    rw [loads, if_pos rfl] at kept
    rw [if_pos rfl, if_pos rfl]
    have tags := tags_run s task call.place.cache
      (Cache.tags_loadOrRelease call.place.slot call.block)
    have unwanted : call.loads = false → ∀ t, Unreleasing s t :=
      fun silent => absurd (silent.symm.trans loads) Bool.false_ne_true
    cases valid : (s.slot call.place).valid with
    | true =>
      have ends := Cache.load_valid (s.entry task call.place.cache) call.block valid
      obtain ⟨t, ran, agrees⟩ := s.run_load_valid task call.block valid
      have traced := run_traced ends
      rw [ran] at traced tags kept ⊢
      rw [made_none ends rfl]
      refine ⟨(Passes.silent traced rfl tags fun p => ?_).rebook rfl rfl rfl, List.forall_mem_nil _,
        by rintro _ ⟨⟩, .inl kept, fun silent => unwanted silent _, .inl rfl⟩
      rw [agrees.slot]
      exact id
    | false =>
      have proper : (Exchange.mk s task call.place
          ⟨.read, call.block, (s.cpu task).enabled⟩).Proper :=
        ⟨holds, locked, rfl, fun _ => valid⟩
      cases fails : s.caches[call.place.cache].disk.fails task call.block with
      | false =>
        have ends := Cache.load_succeeds (s.entry task call.place.cache) valid fails
        obtain ⟨t, ran, agrees⟩ := s.run_load_succeeds task valid fails
        have traced := run_traced ends
        rw [ran] at traced tags kept ⊢
        rw [made_load valid ends rfl]
        refine ⟨(Passes.single traced rfl tags (valid_update agrees fun _ => rfl) proper ?_).rebook
          rfl rfl rfl, List.forall_mem_singleton.mpr ⟨rfl, rfl, rfl, rfl, loads⟩, by rintro _ ⟨⟩,
          .inl kept, fun silent => unwanted silent _, .inr ⟨rfl, kept⟩⟩
        intro _
        rw [agrees.slot, slot_updateSlot, if_pos rfl]
        rfl
      | true =>
        have ends := Cache.load_fails (s.entry task call.place.cache) valid fails
          (heldBy_iff.mpr locked) (referenced_hand accounted)
        obtain ⟨t, ran, agrees⟩ := s.run_load_fails task valid fails (heldBy_iff.mpr locked)
          (referenced_hand accounted)
        have traced := run_traced ends
        rw [ran] at traced tags kept ⊢
        rw [made_load valid ends rfl]
        refine ⟨Passes.single traced rfl tags (valid_released agrees) proper ?_,
          List.forall_mem_singleton.mpr ⟨rfl, rfl, rfl, rfl, loads⟩, ?_, .inl kept,
          fun silent => unwanted silent _, .inr ⟨rfl, kept⟩⟩
        · intro loads
          exact absurd (loads.2.symm.trans fails) Bool.false_ne_true
        · rintro fault ⟨rfl⟩
          exact ⟨_, List.mem_singleton_self _, fails, rfl⟩

theorem enter_ends (task : TaskId) (call : SleepingCall n m)
    (accounted : Accounted ⟨s, l, call.place :: hand, locks⟩)
    (holds : (s.slot call.place).holds call.block = true) :
    Ends s task call (s.enterExchanges task call) (s.enter task call) := by
  obtain ⟨t, ran, agrees⟩ := s.run_enter task call.place
  have traced := run_traced (Cache.enter_ends (s.entry task call.place.cache) call.place.slot)
  have tags := tags_run s task call.place.cache (Cache.tags_enter call.place.slot)
  rw [ran] at traced tags
  have entered : Passes s [] t := by
    refine Passes.silent traced ?_ tags (valid_update agrees fun valid => valid)
    split <;> rfl
  have locked : Unreleasing s t := by
    refine unreleasing_traced traced fun i => ?_
    split <;> simp
  have slotT : t.slot call.place = (s.slot call.place).enter task := by
    rw [agrees.slot, slot_updateSlot, if_pos rfl]
  unfold enter enterExchanges
  rw [ran]
  cases holder : (s.slot call.place).data.holder with
  | none =>
    have taken : Moves (fun _ => True) ⟨s, l, call.place :: hand, locks⟩
        ⟨t, l, call.place :: hand, call.place :: locks⟩ :=
      .step (.single (.lock call.place task holder)) (.still agrees.still)
    have finished := finish_ends task call (moves_accounted taken accounted)
      (by rw [slotT]; exact holds)
      (by rw [slotT, Slot.enter, (holder_enter _ task).1, holder]; rfl)
    have kept : (t.finish task call).2.asleep = s.asleep :=
      (asleep_finish t task call).trans agrees.asleep
    refine ⟨entered.trans finished.passes, finished.serves, finished.halted, .inl kept, ?_, ?_⟩
    · exact fun silent c i left => locked c i (finished.locked silent c i left)
    · exact finished.one.imp_right (And.imp_right fun _ => kept)
  | some other =>
    refine ⟨entered.rebook rfl rfl rfl, List.forall_mem_nil _, by rintro _ ⟨⟩, .inr ⟨?_, locked⟩,
      fun _ => locked, .inl rfl⟩
    exact congrArg (·.put task call) agrees.asleep

theorem asleep_enter (s : Machine n m) (task : TaskId) (call : SleepingCall n m) :
    (s.enter task call).2.asleep = s.asleep ∨ (s.enter task call).2.asleep = s.asleep.put task call := by
  unfold enter
  generalize ran : s.run task call.place.cache _ = ended
  obtain ⟨result, t⟩ := ended
  have kept : t.asleep = s.asleep := (congrArg (fun ended => ended.2.asleep) ran).symm
  match result with
  | .error fault => exact .inl kept
  | .ok true => exact .inl ((asleep_finish t task call).trans kept)
  | .ok false => exact .inr (congrArg (·.put task call) kept)

theorem asleep_entered {who : TaskId} {other : SleepingCall n m}
    (found : (s.enter task call).2.asleep.find? who = some other) :
    s.asleep.find? who = some other ∨ who = task ∧ other = call := by
  rcases asleep_enter s task call with kept | put
  · exact .inl (kept ▸ found)
  · rw [put, Registry.find?_put] at found
    split at found
    · rename_i same
      cases found
      exact .inr ⟨eq_of_beq same, rfl⟩
    · exact .inl found

theorem asleep_enter_other {who : TaskId} (other : who ≠ task) :
    (s.enter task call).2.asleep.find? who = s.asleep.find? who := by
  rcases asleep_enter s task call with kept | put
  · rw [kept]
  · rw [put, Registry.find?_put, if_neg (by simpa using other)]

theorem asleep_resumed (found : s.asleep.find? task = some call) {who : TaskId}
    {other : SleepingCall n m}
    (waits : ({ s with asleep := s.asleep.erase task }.enter task call).2.asleep.find? who =
      some other) : s.asleep.find? who = some other := by
  rcases asleep_entered waits with before | ⟨rfl, rfl⟩
  · dsimp only at before
    rw [Registry.find?_erase] at before
    split at before
    · cases before
    · exact before
  · exact found

-- Those who look again later sleep meanwhile, so this task is none of them.
theorem Ends.apart {xs ys : List (Exchange n m)} {ended : Reply × Machine n m}
    (ends : Ends { s with asleep := s.asleep.erase task } task call xs ended)
    (later : ∀ y ∈ ys, ∃ call, ended.2.asleep.find? y.task = some call)
    (apart : ys.Pairwise fun x y => x.task ≠ y.task) : (xs ++ ys).Pairwise fun x y => x.task ≠ y.task := by
  rcases ends.one with rfl | ⟨single, kept⟩
  · exact apart
  · obtain ⟨x, rfl⟩ := List.length_eq_one_iff.mp single
    have mine := (ends.serves x (List.mem_singleton_self x)).task
    refine List.pairwise_cons.mpr ⟨fun y member same => ?_, apart⟩
    obtain ⟨call, waits⟩ := later y member
    rw [kept, ← same, mine, Registry.find?_erase, if_pos (beq_self_eq_true task)] at waits
    cases waits

structure Wakes (s : Machine n m) (xs : List (Exchange n m)) (ended : List Woken × Machine n m) :
    Prop where
  passes : Passes s xs ended.2
  serves : ∀ x ∈ xs, ∃ call, s.asleep.find? x.task = some call ∧ x.Serves x.task call
  halted : ∀ woken ∈ ended.1, ∀ fault, woken.reply = .halted fault →
    ∃ x ∈ xs, x.task = woken.task ∧ x.failed = true ∧ fault = .disk x.transfer.block
  asleep : ∀ who call, ended.2.asleep.find? who = some call → s.asleep.find? who = some call
  apart : xs.Pairwise fun x y => x.task ≠ y.task

theorem resumeAll_wakes (tasks : List TaskId) (accounted : Accounted ⟨s, l, hand, locks⟩) :
    Wakes s (resumeExchanges tasks s) (resumeAll tasks s) := by
  induction tasks generalizing s l with
  | nil => exact ⟨passes_refl s, List.forall_mem_nil _, List.forall_mem_nil _, fun _ _ => id, .nil⟩
  | cons task rest ih =>
    unfold resumeExchanges resumeAll
    cases found : s.asleep.find? task with
    | none => exact ih accounted
    | some call =>
      have roused : Moves (fun _ => True) ⟨s, l, hand, locks⟩ _ := .single (.rouse task call found)
      have referred := moves_accounted roused accounted
      have holds := accounted.waits task call found
      have entered := enter_ends task call referred holds
      obtain ⟨_, moves⟩ := enter_moves (fun _ => True) task call referred holds
        ((Registry.find?_erase s.asleep task task).trans (by simp))
      have later := ih (moves_accounted moves referred)
      have opened : Passes s [] { s with asleep := s.asleep.erase task } :=
        (passes_refl s).rebook rfl rfl rfl
      refine ⟨opened.trans (entered.passes.trans later.passes), ?_, ?_, ?_, ?_⟩
      · intro x member
        rcases List.mem_append.mp member with own | other
        · have serves := entered.serves x own
          refine ⟨call, ?_, serves.task ▸ serves⟩
          rw [serves.task]
          exact found
        · obtain ⟨call', waits, serves⟩ := later.serves x other
          exact ⟨call', asleep_resumed found waits, serves⟩
      · intro woken member fault halted
        rcases List.mem_cons.mp member with rfl | other
        · obtain ⟨x, made, failed, told⟩ := entered.halted fault halted
          exact ⟨x, List.mem_append_left _ made, (entered.serves x made).task, failed, told⟩
        · obtain ⟨x, made, told⟩ := later.halted woken other fault halted
          exact ⟨x, List.mem_append_right _ made, told⟩
      · exact fun who other waits => asleep_resumed found (later.asleep who other waits)
      · exact entered.apart (fun y member => (later.serves y member).imp fun _ => And.left) later.apart

theorem wake_wakes (accounted : Accounted ⟨s, l, hand, locks⟩) : Wakes s s.wakeExchanges s.wake := by
  unfold wakeExchanges wake
  cases s.released? with
  | none => exact ⟨passes_refl s, List.forall_mem_nil _, List.forall_mem_nil _, fun _ _ => id, .nil⟩
  | some place =>
    have same : (s.updateSlot place fun slot => { slot with data := (s.slot place).data.wake.2 }) =
        s.updateSlot place fun slot => { slot with data := slot.data.wake.2 } :=
      s.updateSlot_congr place rfl
    have emptied : Passes s [] (s.updateSlot place fun slot => { slot with data := slot.data.wake.2 }) := by
      have agrees : (s.updateSlot place fun slot => { slot with data := slot.data.wake.2 }).Agrees
          (s.updateSlot place fun slot => { slot with data := slot.data.wake.2 }) := ⟨rfl, rfl, rfl, rfl⟩
      have traced : Traced s (s.updateSlot place fun slot => { slot with data := slot.data.wake.2 })
          place.cache s.clock [] := ⟨rfl, by simp [updateSlot, updateCache, actsAt], fun _ => rfl⟩
      exact Passes.silent traced rfl (tags_updateSlot s place fun _ => ⟨rfl, rfl⟩)
        (valid_update agrees fun valid => valid)
    have resumed := resumeAll_wakes (s.slot place).data.wake.1 (accounted.wake place)
    dsimp only
    rw [same]
    exact ⟨emptied.trans resumed.passes, resumed.serves, resumed.halted, resumed.asleep, resumed.apart⟩

end Machine

end KernelResources.Buffer
