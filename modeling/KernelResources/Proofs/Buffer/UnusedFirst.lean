import KernelResources.Proofs.Buffer.Claiming
import KernelResources.Proofs.Buffer.Wakings

namespace KernelResources.Buffer

open Machine Stage

variable {n m : Nat}

theorem Clock.stamp_ne_zero (t : UInt64) : Clock.stamp t ≠ 0 := by
  unfold Clock.stamp
  split
  · rename_i last
    intro zero
    rw [zero] at last
    cases last
  · assumption

namespace Slot

variable {s t : Slot}

-- A buffer as it was created, or one that carries a block. That one has a time of release unless somebody
-- has locked it.
def Dated (s : Slot) : Prop := s = .fresh ∨ s.mapped = true ∧ (s.data.holder = none → s.released ≠ 0)

theorem Dated.mapped (dated : s.Dated) (referenced : s.refs ≠ 0) : s.mapped = true := by
  rcases dated with rfl | ⟨mapped, -⟩
  · exact absurd rfl referenced
  · exact mapped

theorem Dated.change (dated : s.Dated) (used : s.mapped = true) (mapped : t.mapped = s.mapped)
    (holder : t.data.holder = s.data.holder) (released : t.released = s.released) : t.Dated := by
  rcases dated with rfl | ⟨-, stamped⟩
  · cases used
  · refine .inr ⟨mapped.trans used, fun free => ?_⟩
    rw [released]
    exact stamped (holder.symm.trans free)

theorem Dated.wake (dated : s.Dated) : Dated { s with data := s.data.wake.2 } := by
  rcases dated with rfl | used
  · exact .inl rfl
  · exact .inr used

end Slot

namespace Machine

variable {s t : Machine n m} {l : Ledger m} {p : Place n m} {slot : Slot} {c : Fin m} {b : BlockId}
  {task : TaskId} {call : SleepingCall n m} {xs : List (Exchange n m)} {reply : Reply} {loads : Bool}
  {name pinName : String} {event : Event m}

def Dated (s : Machine n m) : Prop := ∀ p, (s.slot p).Dated

theorem Dated.same (dated : s.Dated) (slots : ∀ p, t.slot p = s.slot p) : t.Dated := by
  intro p
  rw [slots]
  exact dated p

theorem Dated.one (others : ∀ q, q ≠ p → (s.slot q).Dated) (here : slot.Dated)
    (slots : ∀ q, t.slot q = if q = p then slot else s.slot q) : t.Dated := by
  intro q
  rw [slots]
  split
  · exact here
  · rename_i other
    exact others q other

theorem Dated.update (dated : s.Dated) {f : Slot → Slot} (here : (f (s.slot p)).Dated)
    (agrees : t.Agrees (s.updateSlot p f)) : t.Dated := by
  refine Dated.one (p := p) (fun q _ => dated q) here fun q => ?_
  rw [agrees.slot, slot_updateSlot]

theorem Looked.stamped (looked : Looked s task call xs reply t)
    (free : (t.slot call.place).data.holder = none) : (t.slot call.place).released ≠ 0 := by
  cases looked with
  | @waits u busy works =>
    have locked : (u.slot call.place).data.holder = (s.slot call.place).data.holder := by
      rw [works.here]
      exact (queue_enter_busy busy task).2
    exact absurd (locked.symm.trans free) busy
  | fails _ _ _ works =>
    rw [works.here]
    exact Clock.stamp_ne_zero _
  | @gets u _ _ _ works _ locked =>
    rw [← works.here] at locked
    cases locked.symm.trans free

theorem enter_dated (task : TaskId) (referenced : (s.slot call.place).refs ≠ 0)
    (mapped : (s.slot call.place).mapped = true) (others : ∀ q, q ≠ call.place → (s.slot q).Dated) :
    (s.enter task call).2.Dated := by
  have looked := enter_looked task call referenced
  have tag := (tags_enter s task call call.place.cache).2 call.place.slot
  intro q
  by_cases here : q = call.place
  · rw [here]
    exact .inr ⟨tag.1.symm.trans mapped, looked.stamped⟩
  · rw [looked.others here]
    exact others q here

theorem resumeAll_dated (tasks : List TaskId) (accounted : Accounted ⟨s, l, [], []⟩) (dated : s.Dated) :
    (s.resumeAll tasks).2.Dated := by
  induction tasks generalizing s l with
  | nil => exact dated
  | cons task tasks ih =>
    unfold resumeAll
    cases found : s.asleep.find? task with
    | none => exact ih accounted dated
    | some call =>
      have referred := accounted.rouse found
      have holds := accounted.waits task call found
      obtain ⟨-, moves⟩ := enter_moves (fun _ => True) task call referred holds
        ((Registry.find?_erase s.asleep task task).trans (by simp))
      refine ih (moves_accounted moves referred) ?_
      exact enter_dated task (referenced_hand referred) ((Slot.holds_iff ..).mp holds).1
        fun q _ => dated q

theorem wake_dated (accounted : Accounted ⟨s, l, [], []⟩) (dated : s.Dated) : s.wake.2.Dated := by
  cases released : s.released? with
  | none =>
    unfold wake
    rw [released]
    exact dated
  | some p =>
    rw [wake_released released]
    refine resumeAll_dated (s.queue p) (accounted.wake p) ?_
    exact Dated.one (fun q _ => dated q) (dated p).wake (slot_cleared s p)

theorem Calls.dated (calls : Calls s task c b loads name) (dated : s.Dated) :
    (s.call task c b loads name).2.Dated := by
  cases calls with
  | refused same =>
    rw [same]
    exact dated
  | exhausted ended agrees =>
    rw [ended]
    exact dated.same agrees.slot
  | @begins i t slot acts begun looks =>
    have holds := begun.holds
    have referenced := begun.referenced
    rw [← begun.works.here] at holds referenced
    rw [looks]
    refine enter_dated task referenced ((Slot.holds_iff ..).mp holds).1 fun q other => ?_
    rw [begun.works.slots, if_neg other]
    exact dated q

theorem release_dated (accounted : Accounted ⟨s, l, [], []⟩) (dated : s.Dated) (task : TaskId)
    (known : s.held.find? name = some p) :
    ({ s with held := s.held.erase name }.run task p.cache (Cache.release p.slot)).2.Dated := by
  cases held : (s.slot p).data.heldBy task with
  | false =>
    obtain ⟨t, ran, agrees⟩ := run_release_unheld { s with held := s.held.erase name } task held
    rw [ran]
    exact dated.same agrees.slot
  | true =>
    have referenced := referenced_hand (accounted.giveBack known)
    obtain ⟨t, ran, agrees⟩ := run_release_held { s with held := s.held.erase name } task held referenced
    have stamped : ((s.slot p).unlock.stamp s.clock.now).Dated :=
      .inr ⟨(dated p).mapped referenced, fun _ => Clock.stamp_ne_zero _⟩
    have slots := slot_released (s := { s with held := s.held.erase name }) agrees
    have last : t.Dated := Dated.one (fun q _ => dated q) stamped slots
    rw [ran]
    exact last

theorem write_dated (dated : s.Dated) (task : TaskId) (p : Place n m) :
    (s.run task p.cache (Cache.write p.slot)).2.Dated := by
  cases held : (s.slot p).data.heldBy task with
  | false =>
    obtain ⟨t, ran, agrees⟩ := s.run_write_unheld task held
    rw [ran]
    exact dated.same agrees.slot
  | true =>
    cases fails : s.caches[p.cache].disk.fails task (s.slot p).block with
    | true =>
      obtain ⟨t, ran, agrees⟩ := s.run_write_fails task held fails
      rw [ran]
      exact dated.same agrees.slot
    | false =>
      obtain ⟨t, ran, agrees⟩ := s.run_write_succeeds task held fails
      rw [ran]
      exact dated.same fun q => (agrees.slot q).trans (s.slot_store p q)

theorem unpin_dated (accounted : Accounted ⟨s, l, [], []⟩) (dated : s.Dated) (task : TaskId)
    (known : s.pins.find? pinName = some p) (c : Fin m) :
    ({ s with pins := s.pins.erase pinName }.run task c (Cache.unpin p.slot (p.cache = c))).2.Dated := by
  by_cases own : p.cache = c
  · subst own
    have referenced := referenced_hand (accounted.unpin known)
    obtain ⟨t, ran, agrees⟩ := run_unpin_own { s with pins := s.pins.erase pinName } task referenced
    have dropped : (s.slot p).unrefer.Dated :=
      (dated p).change ((dated p).mapped referenced) rfl rfl rfl
    rw [decide_eq_true rfl, ran]
    exact Dated.update (s := { s with pins := s.pins.erase pinName }) dated dropped agrees
  · obtain ⟨t, ran, agrees⟩ :=
      run_unpin_foreign { s with pins := s.pins.erase pinName } task (c := c) p.slot
    rw [decide_eq_false own, ran]
    exact dated.same agrees.slot

theorem dated_withBuffer (dated : s.Dated) {f : Place n m → Reply × Machine n m}
    (kept : ∀ p, s.held.find? name = some p → (f p).2.Dated) : (s.withBuffer name f).2.Dated := by
  unfold withBuffer
  split
  · rename_i p known
    exact kept p known
  · exact dated

theorem dated_withPin (dated : s.Dated) {f : Place n m → Reply × Machine n m}
    (kept : ∀ p, s.pins.find? pinName = some p → (f p).2.Dated) : (s.withPin pinName f).2.Dated := by
  unfold withPin
  split
  · rename_i p known
    exact kept p known
  · exact dated

theorem advance_dated (accounted : Accounted ⟨s, l, [], []⟩) (dated : s.Dated)
    (intact : ∀ c : Fin m, s.caches[c].pool.Intact) (up : s.isAsleep task = false)
    (regular : event.Regular)
    (room : ∀ p, s.takes? task event = some p → Account.references ⟨s, l⟩ p + 1 < UInt32.size) :
    (s.advance task event).2.Dated := by
  have changed : ∀ {name p} {f : Slot → Slot}, s.held.find? name = some p →
      (f (s.slot p)).mapped = (s.slot p).mapped →
      (f (s.slot p)).data.holder = (s.slot p).data.holder →
      (f (s.slot p)).released = (s.slot p).released → (f (s.slot p)).Dated := by
    intro name p f known mapped holder released
    have used := ((Slot.holds_iff ..).mp (named_holds accounted known)).1
    exact (dated p).change used mapped holder released
  have edited : ∀ {name p}, s.held.find? name = some p → ∀ f, (s.edit p f).Dated := by
    intro name p known f
    exact dated.update (changed known rfl rfl rfl) ⟨rfl, rfl, rfl, rfl⟩
  cases event with
  | tamper => exact regular.elim
  | read c b name =>
    have calls := call_calls accounted task c b true name (intact c) fun i free found =>
      room ⟨c, i⟩ (takes_call up free found).1
    exact calls.dated dated
  | acquire c b name =>
    have calls := call_calls accounted task c b false name (intact c) fun i free found =>
      room ⟨c, i⟩ (takes_call up free found).2
    exact calls.dated dated
  | write name => exact dated_withBuffer dated fun p _ => write_dated dated task p
  | release name => exact dated_withBuffer dated fun p known => release_dated accounted dated task known
  | pin name pinName =>
    refine dated_withBuffer dated fun p known => ?_
    cases s.pins.find? pinName with
    | some _ => exact dated
    | none =>
      obtain ⟨t, ran, agrees⟩ := s.run_pin task p
      have last : t.Dated := dated.update (changed known rfl rfl rfl) agrees
      dsimp only
      rw [ran]
      exact last
  | unpin c pinName => exact dated_withPin dated fun p known => unpin_dated accounted dated task known c
  | fill name byte => exact dated_withBuffer dated fun p known => edited known _
  | put name offset bytes =>
    refine dated_withBuffer dated fun p known => ?_
    split
    · exact edited known _
    · exact dated
  | bytes | info | record | forget => exact dated_withBuffer dated fun _ _ => dated
  | dropPin | pinInfo => exact dated_withPin dated fun _ _ => dated
  | isCached c b =>
    obtain ⟨t, ran, agrees⟩ := s.run_isCached task c b
    rw [advance, ran]
    exact dated.same agrees.slot
  | audit c =>
    obtain ⟨t, ran, agrees⟩ := s.run_audit task c
    rw [advance, ran]
    exact dated.same agrees.slot
  | capacity | setClock | moveTo | setInterrupts | disk => exact dated
  | setFault c b on => exact dated.same (s.slot_setFault c none b on)
  | setFaultFor c who b on => exact dated.same (s.slot_setFault c (some who) b on)

end Machine

namespace Pool

variable {p q : Pool n} {k : Nat} {b : BlockId} {v : Fin n} {result : Except CacheFault (Fin n)}
  {acts : List (Cache.Act n)}

structure Filled (p : Pool n) (k : Nat) : Prop where
  room : k ≤ n
  used : ∀ i : Fin n, p.slots[i].mapped = true ↔ i.val < k
  unused : ∀ i : Fin n, k ≤ i.val → p.slots[i] = .fresh
  listed : ∀ (i : Fin n) (b : Fin bucketCount), k ≤ i.val → (i ∈ p.buckets[b].members ↔ b.val = 0)
  released : ∀ i : Fin n, i.val < k → p.slots[i].refs = 0 → 1 ≤ p.slots[i].released

-- The first unused buffer is before all others that could be recycled: those in use were released at some
-- time, and the other unused ones have higher indices.
theorem Filled.victim (filled : p.Filled k) (unused : k < n) (victim : p.Victim v) : v = ⟨k, unused⟩ := by
  have fresh : p.slots[(⟨k, unused⟩ : Fin n)] = .fresh := filled.unused ⟨k, unused⟩ (Nat.le_refl k)
  have before := victim.2 ⟨k, unused⟩ (by rw [fresh]; rfl)
  rw [fresh] at before
  rcases before with earlier | ⟨never, low⟩
  · exact absurd earlier UInt64.not_lt_zero
  · by_contra other
    have below : v.val < k := lt_of_le_of_ne low fun same => other (Fin.ext same)
    have stamped := filled.released v below victim.1
    rw [never] at stamped
    exact absurd stamped (by decide)

theorem Filled.chooses (filled : p.Filled k) (unused : k < n) :
    p.leastRecentlyReleased = some ⟨k, unused⟩ := by
  cases chosen : p.leastRecentlyReleased with
  | none =>
    have referenced := referenced_of_none chosen ⟨k, unused⟩
    rw [filled.unused ⟨k, unused⟩ (Nat.le_refl k)] at referenced
    exact absurd rfl referenced
  | some v => rw [filled.victim unused (victim_leastRecentlyReleased chosen)]

theorem Claimed.fills (claimed : p.Claimed b result q acts) (filled : p.Filled k)
    (absent : ∀ i : Fin n, p.slots[i].holds b = false) :
    (∀ unused : k < n, result = .ok ⟨k, unused⟩ ∧ .tells (.takesUnused b k) ∈ acts) ∧
      ∀ i old, .tells (.evicts b i old) ∈ acts → k = n := by
  cases claimed with
  | cached holds => cases (absent _).symm.trans holds
  | @recycled v q _ victim =>
    have takes : ∀ unused : k < n, v = ⟨k, unused⟩ ∧ p.slots[v].mapped = false := by
      intro unused
      obtain rfl := filled.victim unused victim
      rw [filled.unused ⟨k, unused⟩ (Nat.le_refl k)]
      exact ⟨rfl, rfl⟩
    constructor
    · intro unused
      obtain ⟨rfl, unmapped⟩ := takes unused
      simp [unmapped]
    · intro i old told
      by_contra short
      obtain ⟨-, unmapped⟩ := takes (lt_of_le_of_ne filled.room short)
      simp [unmapped] at told
  | exhausted _ referenced =>
    refine ⟨fun unused => ?_, fun _ _ told => absurd told List.not_mem_nil⟩
    have taken := referenced ⟨k, unused⟩
    rw [filled.unused ⟨k, unused⟩ (Nat.le_refl k)] at taken
    exact absurd rfl taken

end Pool

namespace Machine

variable {s : Machine n m} {c d : Fin m} {k : Nat} {j : Fin n} {b : BlockId}

theorem used_recycle (filled : s.caches[c].pool.Filled k) (unused : k < n) (b : BlockId) (i : Fin n) :
    ((s.recycle ⟨c, ⟨k, unused⟩⟩ b).slot ⟨c, i⟩).mapped = true ↔ i.val < k + 1 := by
  rw [slot_recycle]
  by_cases here : i.val = k
  · obtain rfl : i = ⟨k, unused⟩ := Fin.ext here
    rw [if_pos rfl]
    exact ⟨fun _ => Nat.lt_succ_self k, fun _ => rfl⟩
  · have other : (⟨c, i⟩ : Place n m) ≠ ⟨c, ⟨k, unused⟩⟩ := fun same =>
      here (congrArg Fin.val (Place.mk.inj same).2)
    have used : (s.slot ⟨c, i⟩).mapped = true ↔ i.val < k := filled.used i
    rw [if_neg other, used]
    omega

theorem used_recycled (filled : s.caches[c].pool.Filled k)
    (chosen : s.caches[d].pool.leastRecentlyReleased = some j) (b : BlockId) :
    ∃ later, k ≤ later ∧ later ≤ n ∧
      ∀ i : Fin n, ((s.recycle ⟨d, j⟩ b).slot ⟨c, i⟩).mapped = true ↔ i.val < later := by
  by_cases here : d = c
  · subst here
    by_cases unused : k < n
    · obtain rfl := filled.victim unused (Pool.victim_leastRecentlyReleased chosen)
      exact ⟨k + 1, Nat.le_succ k, unused, used_recycle filled unused b⟩
    · have full : ∀ i : Fin n, i.val < k := fun i => lt_of_lt_of_le i.isLt (Nat.not_lt.mp unused)
      have used : ∀ i : Fin n, (s.slot ⟨d, i⟩).mapped = true := fun i => (filled.used i).mpr (full i)
      refine ⟨k, Nat.le_refl k, filled.room, fun i => ?_⟩
      rw [slot_recycle]
      split
      · exact ⟨fun _ => full i, fun _ => rfl⟩
      · exact ⟨fun _ => full i, fun _ => used i⟩
  · refine ⟨k, Nat.le_refl k, filled.room, fun i => ?_⟩
    rw [slot_recycle, if_neg fun same => here (Place.mk.inj same).1.symm]
    exact filled.used i

end Machine

namespace Account

variable {a z : Account n m} {task : TaskId} {event : Event m} {c : Fin m} {k : Nat} {b : BlockId}
  {name : String} {i : Fin n}

theorem unlocked_unreferenced (sound : Sound a) {p : Place n m} (unreferenced : (a.machine.slot p).refs = 0) :
    (a.machine.slot p).data.holder = none := by
  have users := sound.accounted.exclusive p
  have unused := (sound.accounted.unused unreferenced).1
  simp only [Stage.users, List.count_nil] at users
  simp only [references, Ledger.leakedAt] at unused
  cases holder : (a.machine.slot p).data.holder with
  | none => rfl
  | some task =>
    rw [holder] at users
    simp at users
    omega

theorem filled_used (sound : Sound a) (dated : a.machine.Dated) (room : k ≤ n)
    (used : ∀ i : Fin n, (a.machine.slot ⟨c, i⟩).mapped = true ↔ i.val < k) :
    a.machine.caches[c].pool.Filled k := by
  have unused : ∀ i : Fin n, k ≤ i.val → a.machine.slot ⟨c, i⟩ = .fresh := by
    intro i above
    rcases dated ⟨c, i⟩ with fresh | ⟨mapped, -⟩
    · exact fresh
    · exact absurd ((used i).mp mapped) (Nat.not_lt.mpr above)
  refine ⟨room, used, unused, ?_, ?_⟩
  · intro i b above
    have home : (a.machine.slot ⟨c, i⟩).home = ⟨0, by decide⟩ := by
      rw [unused i above]
      rfl
    rw [(sound.intact c).listed]
    refine (iff_of_eq (congrArg (· = b) home)).trans ?_
    rw [Fin.ext_iff]
    exact eq_comm
  · intro i below unreferenced
    rcases dated ⟨c, i⟩ with fresh | ⟨-, stamped⟩
    · have mapped := (used i).mpr below
      rw [fresh] at mapped
      cases mapped
    · have positive := stamped (unlocked_unreferenced sound unreferenced)
      rw [UInt64.le_iff_toNat_le]
      exact Nat.one_le_iff_ne_zero.mpr fun zero => positive (UInt64.toNat_inj.mp zero)

theorem next_dated (sound : Sound a) (orderly : Orderly a task event) (dated : a.machine.Dated) :
    (a.next task event).machine.Dated := by
  cases awake : a.machine.isAsleep task with
  | true =>
    rw [next, step_asleep awake]
    exact dated
  | false =>
    have advanced : (a.machine.opened.advance task event).2.Dated :=
      advance_dated (sound_opened sound) dated sound.intact awake orderly.1 orderly.2
    rw [next, step_awake awake]
    exact wake_dated (sound_advance sound orderly awake).2 advanced

theorem next_filled (sound : Sound a) (orderly : Orderly a task event) (dated : a.machine.Dated)
    (filled : a.machine.caches[c].pool.Filled k) :
    ∃ later, k ≤ later ∧ (a.next task event).machine.caches[c].pool.Filled later := by
  have filled_next := fun later => filled_used (c := c) (k := later) (next_sound sound orderly)
    (next_dated sound orderly dated)
  rcases next_tags orderly.1 with same | ⟨d, b, j, chosen, same⟩
  · refine ⟨k, Nat.le_refl k, filled_next k filled.room fun i => ?_⟩
    rw [← (same ⟨c, i⟩).1]
    exact filled.used i
  · obtain ⟨later, more, room, used⟩ := used_recycled filled chosen b
    refine ⟨later, more, filled_next later room fun i => ?_⟩
    rw [← (same ⟨c, i⟩).1]
    exact used i

theorem run_dated (path : Run Orderly a z) (sound : Sound a) (dated : a.machine.Dated) :
    z.machine.Dated := by
  induction path with
  | refl => exact dated
  | step path orderly ih => exact next_dated (run_sound path sound) orderly ih

theorem run_filled (path : Run Orderly a z) (sound : Sound a) (dated : a.machine.Dated)
    (filled : a.machine.caches[c].pool.Filled k) :
    ∃ later, k ≤ later ∧ z.machine.caches[c].pool.Filled later := by
  induction path with
  | refl => exact ⟨k, Nat.le_refl k, filled⟩
  | step path orderly ih =>
    obtain ⟨middle, more, filled⟩ := ih
    obtain ⟨later, evenMore, filled⟩ :=
      next_filled (run_sound path sound) orderly (run_dated path sound dated) filled
    exact ⟨later, Nat.le_trans more evenMore, filled⟩

theorem dated_start (disks : Vector Disk m) : (start n disks).machine.Dated :=
  fun p => .inl (slot_start disks p)

theorem filled_start (disks : Vector Disk m) (c : Fin m) :
    (start n disks).machine.caches[c].pool.Filled 0 := by
  refine filled_used (sound_start disks) (dated_start disks) (Nat.zero_le n) fun i => ?_
  rw [slot_start]
  exact ⟨nofun, nofun⟩

theorem next_evicts (regular : event.Regular) (filled : a.machine.caches[c].pool.Filled k)
    (used : (a.machine.slot ⟨c, i⟩).mapped = true)
    (changed : ((a.next task event).machine.slot ⟨c, i⟩).block ≠ (a.machine.slot ⟨c, i⟩).block) :
    k = n := by
  rcases next_tags regular with same | ⟨d, b, j, chosen, same⟩
  · exact absurd (same ⟨c, i⟩).2.symm changed
  · have tag := same ⟨c, i⟩
    rw [slot_recycle] at tag
    split at tag
    · rename_i here
      obtain ⟨rfl, rfl⟩ := Place.mk.inj here
      by_contra short
      have unused := lt_of_le_of_ne filled.room short
      have first := filled.victim unused (Pool.victim_leastRecentlyReleased chosen)
      have below := (filled.used i).mp used
      rw [first] at below
      exact Nat.lt_irrefl k below
    · exact absurd tag.2.symm changed

structure Misses (a : Account n m) (task : TaskId) (c : Fin m) (b : BlockId) (event : Event m) : Prop where
  awake : a.machine.isAsleep task = false
  asks : ∃ name, a.machine.held.find? name = none ∧ (event = .read c b name ∨ event = .acquire c b name)
  absent : ∀ i : Fin n, (a.machine.slot ⟨c, i⟩).holds b = false

theorem misses_recycle (intact : a.machine.caches[c].pool.Intact) (misses : Misses a task c b event)
    (chosen : a.machine.caches[c].pool.leastRecentlyReleased = some i) :
    (a.machine.recycle ⟨c, i⟩ b).SameTags (a.next task event).machine := by
  obtain ⟨awake, ⟨name, free, asked⟩, absent⟩ := misses
  have unfound := (Pool.find?_none _ intact b).mpr absent
  have called := fun loads =>
    (tags_miss (s := a.machine.opened) free unfound chosen task loads).trans (tags_wake _)
  rcases asked with rfl | rfl <;> rw [next, step_awake awake]
  · exact called true
  · exact called false

-- The first `k` buffers of the cache are in use, and however it goes on it will never be fewer. An unused
-- buffer goes before any cached block, and the first one before the others.
structure FillsUp (a : Account n m) (c : Fin m) (k : Nat) : Prop where
  filled : a.machine.caches[c].pool.Filled k
  onward : ∀ z, Run Orderly a z → ∃ later, k ≤ later ∧ z.machine.caches[c].pool.Filled later
  claims : ∀ task b, (∀ i : Fin n, (a.machine.slot ⟨c, i⟩).holds b = false) →
    let ran := a.machine.opened.run task c (Cache.claim b)
    (∀ unused : k < n, ran.1 = .ok ⟨k, unused⟩ ∧ .tells (.takesUnused b k) ∈ ran.2.actsAt c) ∧
      ∀ i old, .tells (.evicts b i old) ∈ ran.2.actsAt c → k = n
  takes : ∀ task b event, Orderly a task event → Misses a task c b event → ∀ unused : k < n,
    (a.next task event).machine.caches[c].pool.Filled (k + 1) ∧
      ((a.next task event).machine.slot ⟨c, ⟨k, unused⟩⟩).holds b = true
  evicts : ∀ task event, Orderly a task event → ∀ i : Fin n, (a.machine.slot ⟨c, i⟩).mapped = true →
    ((a.next task event).machine.slot ⟨c, i⟩).block ≠ (a.machine.slot ⟨c, i⟩).block → k = n

theorem next_takes (sound : Sound a) (orderly : Orderly a task event) (dated : a.machine.Dated)
    (filled : a.machine.caches[c].pool.Filled k) (misses : Misses a task c b event) (unused : k < n) :
    (a.next task event).machine.caches[c].pool.Filled (k + 1) ∧
      ((a.next task event).machine.slot ⟨c, ⟨k, unused⟩⟩).holds b = true := by
  have same := misses_recycle (sound.intact c) misses (filled.chooses unused)
  have tag : ∀ i : Fin n, ((a.machine.recycle ⟨c, ⟨k, unused⟩⟩ b).slot ⟨c, i⟩).SameTag
    ((a.next task event).machine.slot ⟨c, i⟩) := (same c).2
  constructor
  · refine filled_used (next_sound sound orderly) (next_dated sound orderly dated) unused fun i => ?_
    rw [← (tag i).1]
    exact used_recycle filled unused b i
  · have kept := tag ⟨k, unused⟩
    rw [slot_recycle, if_pos rfl] at kept
    rw [Slot.holds, ← kept.1, ← kept.2]
    exact Slot.holds_retag _ b

-- In every state that the tasks can bring about, whatever the clock and the disks do.
theorem unused_buffers_go_first {disks : Vector Disk m} {a : Account n m}
    (path : Run Orderly (start n disks) a) (c : Fin m) : ∃ k, FillsUp a c k := by
  have sound := run_sound path (sound_start disks)
  have dated := run_dated path (sound_start disks) (dated_start disks)
  obtain ⟨k, -, filled⟩ := run_filled path (sound_start disks) (dated_start disks) (filled_start disks c)
  refine ⟨k, filled, ?_, ?_, ?_, ?_⟩
  · intro z onward
    exact run_filled onward sound dated filled
  · intro task b absent
    exact (run_claim_claimed a.machine.opened task c b (sound.intact c) rfl).1.fills filled absent
  · intro task b event orderly misses unused
    exact next_takes sound orderly dated filled misses unused
  · intro task event orderly i used changed
    exact next_evicts orderly.1 filled used changed

-- One of two buffers was used and given back when the clock showed its last word. The next block goes to
-- the other one.
theorem unused_buffers_go_first_released :
    let a := (((start 2 #v[.zeroed]).next ⟨1⟩ (.read 0 ⟨1, 5⟩ "a")).next ⟨2⟩
      (.setClock (some 18446744073709551615) none)).next ⟨1⟩ (.release "a")
    let event : Event 1 := .read 0 ⟨1, 6⟩ "b"
    Run Orderly (start 2 #v[.zeroed]) a ∧ FillsUp a 0 1 ∧
      (a.machine.slot ⟨0, 0⟩).refs = 0 ∧ (a.machine.slot ⟨0, 0⟩).released = 18446744073709551615 ∧
      Orderly a ⟨2⟩ event ∧ Misses a ⟨2⟩ 0 ⟨1, 6⟩ event ∧
      ((a.next ⟨2⟩ event).machine.slot ⟨0, 1⟩).holds ⟨1, 6⟩ = true := by
  intro a event
  have path : Run Orderly (start 2 #v[.zeroed]) a := by
    refine .step (.step (.step .refl ?_) ?_) ?_ <;> exact ⟨trivial, by decide +kernel⟩
  obtain ⟨k, fills⟩ := unused_buffers_go_first path 0
  have one : k = 1 := by
    have first := (fills.filled.used 0).mp (by decide +kernel)
    have second := mt (fills.filled.used 1).mpr (by decide +kernel)
    dsimp at first second
    omega
  subst one
  have orderly : Orderly a ⟨2⟩ event := ⟨trivial, by decide +kernel⟩
  have misses : Misses a ⟨2⟩ 0 ⟨1, 6⟩ event :=
    ⟨by decide +kernel, ⟨"b", by decide +kernel, .inl rfl⟩, by decide +kernel⟩
  exact ⟨path, fills, by decide +kernel, by decide +kernel, orderly, misses,
    (fills.takes ⟨2⟩ ⟨1, 6⟩ event orderly misses (by decide)).2⟩

end Account

end KernelResources.Buffer
