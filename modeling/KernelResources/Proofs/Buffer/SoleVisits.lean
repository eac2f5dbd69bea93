import KernelResources.Proofs.Buffer.Attendance
import KernelResources.Proofs.Buffer.CacheStructure
import KernelResources.Proofs.Buffer.Traces

namespace KernelResources.Buffer

variable {n m : Nat}

namespace Machine

variable {s : Machine n m} {task : TaskId} {p : Place n m} {b : BlockId} {name : String}

structure Works (s t : Machine n m) (p : Place n m) (slot : Slot) (clock : Clock)
    (acts : List (Cache.Act n)) : Prop where
  slots : ∀ q, t.slot q = if q = p then slot else s.slot q
  disks : ∀ c : Fin m, t.caches[c].disk = s.caches[c].disk
  held : t.held = s.held
  asleep : t.asleep = s.asleep
  traced : Traced s t p.cache clock acts

namespace Works

variable {t u : Machine n m} {x y : Slot} {clock later : Clock} {acts more : List (Cache.Act n)}

theorem here (works : Works s t p x clock acts) : t.slot p = x := by
  rw [works.slots, if_pos rfl]

theorem trans (first : Works s t p x clock acts) (second : Works t u p y later more) :
    Works s u p y later (acts ++ more) where
  slots := by
    intro q
    rw [second.slots, first.slots]
    split
    · rfl
    · rfl
  disks := fun c => (second.disks c).trans (first.disks c)
  held := second.held.trans first.held
  asleep := second.asleep.trans first.asleep
  traced := first.traced.trans second.traced

theorem of_update {f : Slot → Slot} (agrees : t.Agrees (s.updateSlot p f))
    (traced : Traced s t p.cache clock acts) : Works s t p (f (s.slot p)) clock acts where
  slots := by
    intro q
    rw [agrees.slot, slot_updateSlot]
  disks := by
    intro c
    rw [agrees.caches, disk_updateSlot]
  held := agrees.held
  asleep := agrees.asleep
  traced := traced

theorem of_recycle (agrees : t.Agrees (s.recycle p b)) (traced : Traced s t p.cache clock acts) :
    Works s t p ((s.slot p).retag b) clock acts where
  slots := by
    intro q
    rw [agrees.slot, slot_recycle]
  disks := by
    intro c
    rw [agrees.caches, disk_recycle]
  held := agrees.held
  asleep := agrees.asleep
  traced := traced

theorem of_still (agrees : t.Agrees s) (traced : Traced s t p.cache clock acts) :
    Works s t p (s.slot p) clock acts where
  slots := by
    intro q
    rw [agrees.slot]
    split
    · rename_i same
      rw [same]
    · rfl
  disks := by
    intro c
    rw [agrees.caches]
  held := agrees.held
  asleep := agrees.asleep
  traced := traced

theorem claim_found {i : Fin n} {c : Fin m} (found : s.caches[c].pool.find? b = some i)
    (task : TaskId) : ∃ t, s.run task c (Cache.claim b) = (.ok i, t) ∧
      Works s t ⟨c, i⟩ (s.slot ⟨c, i⟩).refer s.clock [.counts i] := by
  obtain ⟨t, ran, agrees⟩ := s.run_claim_found task found
  have traced := run_traced (Cache.claim_found (s.entry task c) found)
  rw [ran] at traced
  exact ⟨t, ran, of_update agrees traced⟩

theorem claim_recycles {i : Fin n} {c : Fin m} (absent : s.caches[c].pool.find? b = none)
    (chosen : s.caches[c].pool.leastRecentlyReleased = some i) (task : TaskId) :
    ∃ t notice, s.run task c (Cache.claim b) = (.ok i, t) ∧
      Works s t ⟨c, i⟩ ((s.slot ⟨c, i⟩).retag b) s.clock
        [.relinks (s.slot ⟨c, i⟩).home, .tells notice, .counts i, .relinks b.bucket] := by
  obtain ⟨t, ran, agrees⟩ := s.run_claim_recycles task absent chosen
  have traced := run_traced (Cache.claim_recycles (s.entry task c) absent chosen)
  rw [ran] at traced
  exact ⟨t, _, ran, of_recycle agrees traced⟩

theorem enter (s : Machine n m) (task : TaskId) (p : Place n m) :
    ∃ t, s.run task p.cache (Cache.enter p.slot) = (.ok (s.slot p).data.holder.isNone, t) ∧
      Works s t p ((s.slot p).enter task) s.clock
        [if ((s.slot p).data.enter task).1 then .takesLock p.slot else .sleepsOn p.slot] := by
  obtain ⟨t, ran, agrees⟩ := s.run_enter task p
  have traced := run_traced (Cache.enter_ends (s.entry task p.cache) p.slot)
  rw [ran] at traced
  exact ⟨t, ran, of_update agrees traced⟩

theorem load_valid (b : BlockId) (valid : (s.slot p).valid = true) (task : TaskId) :
    ∃ t, s.run task p.cache (Cache.loadOrRelease p.slot b) = (.ok (), t) ∧
      Works s t p (s.slot p) s.clock [] := by
  obtain ⟨t, ran, agrees⟩ := s.run_load_valid task b valid
  have traced := run_traced (Cache.load_valid (s.entry task p.cache) b valid)
  rw [ran] at traced
  exact ⟨t, ran, of_still agrees traced⟩

theorem load_succeeds {task : TaskId} (invalid : (s.slot p).valid = false)
    (healthy : s.caches[p.cache].disk.fails task b = false) :
    ∃ t, s.run task p.cache (Cache.loadOrRelease p.slot b) = (.ok (), t) ∧
      Works s t p ((s.slot p).load (s.caches[p.cache].disk.content b)) s.clock
        [.tells (.loading b), .transfers .read b (s.cpu task).enabled] := by
  obtain ⟨t, ran, agrees⟩ := s.run_load_succeeds task invalid healthy
  have traced := run_traced (Cache.load_succeeds (s.entry task p.cache) invalid healthy)
  rw [ran] at traced
  exact ⟨t, ran, of_update agrees traced⟩

theorem release (held : (s.slot p).data.heldBy task = true) (referenced : (s.slot p).refs ≠ 0) :
    ∃ t, s.run task p.cache (Cache.release p.slot) = (.ok (), t) ∧
      Works s t p ((s.slot p).unlock.stamp s.clock.now) s.clock.read.2
        [.leavesLock p.slot, .counts p.slot, .stamps p.slot] := by
  obtain ⟨t, ran, agrees⟩ := s.run_release_held task held referenced
  have traced := run_traced (Cache.release_held (s.entry task p.cache) held referenced)
  rw [ran] at traced
  refine ⟨t, ran, ?_, ?_, agrees.held, agrees.asleep, traced⟩
  · exact slot_released agrees
  · intro c
    rw [agrees.caches, disk_updateSlot, disk_updateSlot]

theorem transfers (works : Works s t p x clock acts) (fresh : s.past = []) :
    t.transfers p.cache = acts.filterMap Cache.Act.transfer? := by
  rw [transfers_acts, works.traced.acts, if_pos rfl, actsAt, fresh]
  rfl

end Works

structure Leaves (s : Machine n m) (p : Place n m) (slot : Slot) (clock : Clock)
    (transfers : List Transfer) (t : Machine n m) : Prop where
  slots : ∀ q, t.slot q = if q = p then slot else s.slot q
  disks : ∀ c : Fin m, t.caches[c].disk = s.caches[c].disk
  asleep : t.asleep = s.asleep
  clock : t.clock = clock
  transfers : t.transfers p.cache = transfers

theorem read_claimed {t : Machine n m} {x y : Slot} {acts : List (Cache.Act n)}
    (more : List (Cache.Act n)) (awake : s.isAsleep task = false) (free : s.held.find? name = none)
    (claimed : s.opened.run task p.cache (Cache.claim b) = (.ok p.slot, t))
    (claim : Works s.opened t p x s.clock acts) (unlocked : x.data.holder = none)
    (loads : ∀ u, Works s.opened u p (x.enter task) s.clock (acts ++ [.takesLock p.slot]) →
      ∃ v, u.run task p.cache (Cache.loadOrRelease p.slot b) = (.ok (), v) ∧
        Works u v p y u.clock more)
    (quiet : ∀ i, .leavesLock i ∉ acts ++ more) :
    ∃ info bytes enabled t, s.step task (.read p.cache b name) =
        (⟨.done (.buffer info bytes), enabled, []⟩, t) ∧
      t.held = s.held.put name p ∧
      s.Leaves p y s.clock ((acts ++ more).filterMap Cache.Act.transfer?) t := by
  obtain ⟨u, entered, enter⟩ := Works.enter t task p
  have taken : (t.slot p).data.holder = none := by
    rw [claim.here]
    exact unlocked
  rw [claim.here, claim.traced.clock, if_pos ((SleepLock.enter_taken ..).mpr unlocked)] at enter
  have inside := claim.trans enter
  obtain ⟨v, ran, load⟩ := loads u inside
  rw [inside.traced.clock] at load
  have works := inside.trans load
  let last : Machine n m := { v with held := v.held.put name p }
  have advanced : s.opened.advance task (.read p.cache b name) =
      (.done (.buffer (v.infoAt p) (v.bytesAt p)), last) := by
    have unused : s.opened.held.find? name = none := free
    have ok : (t.slot p).data.holder.isNone = true := by rw [taken]; rfl
    rw [ok] at entered
    simp only [advance, Machine.call, unused, claimed, Machine.enter, entered, Machine.finish, if_true,
      ran]
    rfl
  have woken : last.wake = ([], last) := by
    apply wake_unreleased
    intro c i
    have done : last.actsAt c = _ := works.traced.acts c
    have silent := quiet i
    simp only [List.mem_append, not_or] at silent
    rw [done]
    split <;> simp [actsAt, opened, silent, Effect.acts]
  refine ⟨v.infoAt p, v.bytesAt p, (last.cpu task).enabled, last, ?_, congrArg (·.put name p) works.held,
    works.slots, works.disks, works.asleep, works.traced.clock, ?_⟩
  · rw [step_awake awake, advanced, woken]
  · refine Eq.trans (b := v.transfers p.cache) rfl ((works.transfers rfl).trans ?_)
    simp [Cache.Act.transfer?, List.filterMap_cons]

theorem read_hit (awake : s.isAsleep task = false) (free : s.held.find? name = none)
    (found : s.caches[p.cache].pool.find? b = some p.slot) (unlocked : (s.slot p).data.holder = none)
    (valid : (s.slot p).valid = true) :
    ∃ info bytes enabled t, s.step task (.read p.cache b name) =
        (⟨.done (.buffer info bytes), enabled, []⟩, t) ∧
      t.held = s.held.put name p ∧ s.Leaves p ((s.slot p).refer.enter task) s.clock [] t := by
  obtain ⟨t, claimed, claim⟩ := Works.claim_found (s := s.opened) found task
  refine read_claimed [] awake free claimed claim unlocked ?_ (by simp)
  intro u entered
  have loaded : (u.slot p).valid = true := by
    rw [entered.here]
    exact valid
  have load := Works.load_valid b loaded task
  rw [entered.here] at load
  exact load

theorem read_miss (awake : s.isAsleep task = false) (free : s.held.find? name = none)
    (absent : s.caches[p.cache].pool.find? b = none)
    (chosen : s.caches[p.cache].pool.leastRecentlyReleased = some p.slot)
    (unlocked : (s.slot p).data.holder = none) (healthy : s.caches[p.cache].disk.fails task b = false) :
    ∃ info bytes enabled t, s.step task (.read p.cache b name) =
        (⟨.done (.buffer info bytes), enabled, []⟩, t) ∧
      t.held = s.held.put name p ∧
      ∃ interrupts, s.Leaves p
        ((((s.slot p).retag b).enter task).load (s.caches[p.cache].disk.content b)) s.clock
        [⟨.read, b, interrupts⟩] t := by
  obtain ⟨t, notice, claimed, claim⟩ := Works.claim_recycles (s := s.opened) absent chosen task
  have read := read_claimed (y := (((s.slot p).retag b).enter task).load
      (s.caches[p.cache].disk.content b))
    [.tells (.loading b), .transfers .read b (s.cpu task).enabled] awake free claimed claim unlocked ?_
    (by simp)
  · obtain ⟨info, bytes, enabled, last, stepped, held, leaves⟩ := read
    exact ⟨info, bytes, enabled, last, stepped, held, _, leaves⟩
  · intro u entered
    have invalid : (u.slot p).valid = false := by
      rw [entered.here]
      rfl
    have works : u.caches[p.cache].disk.fails task b = false := by
      rw [entered.disks]
      exact healthy
    have load := Works.load_succeeds invalid works
    rw [entered.here, entered.disks, entered.traced.cpu] at load
    exact load

theorem updateSlot_self (s : Machine n m) (p : Place n m) {f : Slot → Slot}
    (same : f (s.slot p) = s.slot p) : s.updateSlot p f = s := by
  have pool : s.caches[p.cache].pool.updateSlot p.slot f = s.caches[p.cache].pool := by
    rw [Pool.updateSlot, show f s.caches[p.cache].pool.slots[p.slot] = _ from same]
    exact congrArg (Pool.mk · _) (set_entry ..)
  rw [updateSlot, updateCache, pool]
  exact congrArg (fun caches => { s with caches }) (set_entry ..)

theorem wake_alone (released : s.released? = some p) (alone : (s.slot p).data.sleepers = []) :
    s.wake = ([], s) := by
  have emptied : (s.slot p).data.wake.2 = (s.slot p).data := by
    unfold SleepLock.wake
    rw [← alone]
  have same : (s.updateSlot p fun slot => { slot with data := (s.slot p).data.wake.2 }) = s := by
    apply updateSlot_self
    rw [emptied]
  unfold wake
  rw [released]
  dsimp only
  rw [same, show (s.slot p).data.wake.1 = [] from alone]
  rfl

theorem release_alone (awake : s.isAsleep task = false) (known : s.held.find? name = some p)
    (held : (s.slot p).data.holder = some task) (alone : (s.slot p).data.sleepers = [])
    (referenced : (s.slot p).refs ≠ 0) :
    ∃ enabled t, s.step task (.release name) = (⟨.done .unit, enabled, []⟩, t) ∧
      t.held = s.held.erase name ∧
      s.Leaves p ((s.slot p).unlock.stamp s.clock.now) s.clock.read.2 [] t := by
  let given : Machine n m := { s.opened with held := s.held.erase name }
  obtain ⟨t, ran, works⟩ := Works.release (s := given) (heldBy_iff.mpr held) referenced
  have advanced : s.opened.advance task (.release name) = (.done .unit, t) := by
    have known : s.opened.held.find? name = some p := known
    simp only [advance, withBuffer, known]
    exact congrArg (fun ended => report ended fun _ => Answer.unit) ran
  have released : t.released? = some p := by
    have acts := (Cache.release_held (given.entry task p.cache) (heldBy_iff.mpr held) referenced).acts
    have unlocked := released?_run (s := given) rfl task p.cache (Cache.release p.slot)
    rw [ran, acts] at unlocked
    exact unlocked
  have empty : (t.slot p).data.sleepers = [] := by
    rw [works.here]
    exact alone
  refine ⟨(t.cpu task).enabled, t, ?_, works.held, works.slots, works.disks, works.asleep,
    works.traced.clock, ?_⟩
  · rw [step_awake awake, advanced, wake_alone released empty]
  · exact works.transfers rfl

end Machine

end KernelResources.Buffer
