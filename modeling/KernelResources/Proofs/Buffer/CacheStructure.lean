import KernelResources.Proofs.Buffer.Ledger
import KernelResources.Proofs.Buffer.PoolAudit
import KernelResources.Proofs.Buffer.Upkeep

namespace KernelResources.Buffer

variable {n m : Nat}

namespace Cache

open Operation

def SameTags (s t : Cache n × Clock) : Prop := s.1.pool.SameTags t.1.pool

theorem SameTags.refl (s : Cache n × Clock) : SameTags s s := Pool.SameTags.refl _

theorem SameTags.trans (a b c : Cache n × Clock) : SameTags a b → SameTags b c → SameTags a c :=
  Pool.SameTags.trans

theorem tags_updateSlot (i : Fin n) {f : Slot → Slot} (same : ∀ s : Slot, s.SameTag (f s)) :
    (updateSlot i f).Keeps SameTags :=
  fun e => Pool.sameTags_updateSlot e.state.1.pool i (same _)

theorem tags_still {α : Type} {op : Run n α} (still : ∀ e, (op.run e).2.state = e.state) :
    op.Keeps SameTags := keeps_still SameTags.refl still

theorem tags_bind {α β : Type} {op : Run n α} {rest : α → Run n β} (first : op.Keeps SameTags)
    (later : ∀ value, (rest value).Keeps SameTags) : (op >>= rest).Keeps SameTags :=
  keeps_bind SameTags.trans first later

theorem tags_contents {α : Type} {op : Run n α} (kept : op.Keeps SameContents) : op.Keeps SameTags :=
  fun e => (kept e).tags

theorem tags_load (i : Fin n) (b : BlockId) : (load i b).Keeps SameTags := by
  refine tags_bind (tags_still fun _ => rfl) fun before => ?_
  split
  · refine tags_bind (tags_still fun _ => rfl) fun _ =>
      tags_bind (tags_contents (contents_transfer .read b)) fun _ => ?_
    refine tags_bind (tags_still fun _ => rfl) fun bytes => ?_
    exact tags_updateSlot i fun _ => ⟨rfl, rfl⟩
  · exact tags_still fun _ => rfl

theorem tags_loadOrRelease (i : Fin n) (b : BlockId) : (loadOrRelease i b).Keeps SameTags :=
  keeps_tryCatch SameTags.trans (tags_load i b) fun _ =>
    tags_bind (tags_contents (contents_release i)) fun _ => tags_still fun _ => rfl

theorem tags_enter (i : Fin n) : (enter i).Keeps SameTags := tags_contents (contents_enter i)

theorem tags_write (i : Fin n) : (write i).Keeps SameTags := tags_contents (contents_write i)

end Cache

namespace Machine

def SameTags (s t : Machine n m) : Prop := ∀ c : Fin m, s.caches[c].pool.SameTags t.caches[c].pool

theorem SameTags.refl (s : Machine n m) : s.SameTags s := fun _ => .refl _

theorem SameTags.symm {s t : Machine n m} (same : s.SameTags t) : t.SameTags s := fun c => (same c).symm

theorem SameTags.trans {s t u : Machine n m} (first : s.SameTags t) (second : t.SameTags u) :
    s.SameTags u := fun c => (first c).trans (second c)

theorem tags_run {α : Type} (s : Machine n m) (task : TaskId) (c : Fin m) {op : Cache.Run n α}
    (kept : op.Keeps Cache.SameTags) : s.SameTags (s.run task c op).2 := by
  intro d
  rw [cache_run]
  split
  · rename_i here
    subst here
    exact kept (.start task (s.cpu task) (s.caches[c], s.clock))
  · exact .refl _

theorem tags_updateSlot (s : Machine n m) (p : Place n m) {f : Slot → Slot}
    (same : ∀ slot : Slot, slot.SameTag (f slot)) : s.SameTags (s.updateSlot p f) := by
  intro d
  rw [updateSlot, cache_updateCache]
  split
  · rename_i here
    subst here
    exact Pool.sameTags_updateSlot _ p.slot (same _)
  · exact .refl _

theorem tags_finish (s : Machine n m) (task : TaskId) (call : SleepingCall n m) :
    s.SameTags (s.finish task call).2 := by
  unfold finish
  by_cases loads : call.loads = true
  · have loaded := tags_run s task call.place.cache
      (Cache.tags_loadOrRelease call.place.slot call.block)
    rw [if_pos loads]
    generalize s.run task call.place.cache _ = ended at loaded ⊢
    obtain ⟨result, t⟩ := ended
    cases result <;> exact loaded
  · rw [if_neg loads]
    exact .refl s

theorem tags_enter (s : Machine n m) (task : TaskId) (call : SleepingCall n m) :
    s.SameTags (s.enter task call).2 := by
  have entered := tags_run s task call.place.cache (Cache.tags_enter call.place.slot)
  unfold enter
  generalize s.run task call.place.cache _ = ended at entered ⊢
  obtain ⟨result, t⟩ := ended
  match result with
  | .error fault => exact entered
  | .ok true => exact entered.trans (tags_finish t task call)
  | .ok false => exact entered

theorem tags_resumeAll (tasks : List TaskId) (s : Machine n m) :
    s.SameTags (resumeAll tasks s).2 := by
  induction tasks generalizing s with
  | nil => exact .refl s
  | cons task rest ih =>
    unfold resumeAll
    split
    · exact ih s
    · rename_i call _
      exact (tags_enter { s with asleep := s.asleep.erase task } task call).trans (ih _)

theorem tags_wake (s : Machine n m) : s.SameTags s.wake.2 := by
  unfold wake
  split
  · exact .refl s
  · rename_i place _
    have emptied := tags_updateSlot s place
      (f := fun slot => { slot with data := (s.slot place).data.wake.2 }) fun _ => ⟨rfl, rfl⟩
    exact emptied.trans (tags_resumeAll (s.slot place).data.wake.1 _)

theorem SameContents.tags {s t : Machine n m} (same : s.SameContents t) : s.SameTags t :=
  fun c => (same c).tags

theorem tags_withBuffer {s : Machine n m} {name : String} {f : Place n m → Reply × Machine n m}
    (kept : ∀ place, s.SameTags (f place).2) : s.SameTags (s.withBuffer name f).2 := by
  unfold withBuffer
  split
  · exact kept _
  · exact .refl s

theorem tags_advance (s : Machine n m) (task : TaskId) (event : Event m) (regular : event.Regular)
    (other : ∀ c b name, event ≠ .read c b name ∧ event ≠ .acquire c b name) :
    s.SameTags (s.advance task event).2 := by
  cases event with
  | read c b name => exact absurd rfl (other c b name).1
  | acquire c b name => exact absurd rfl (other c b name).2
  | tamper => exact absurd regular id
  | fill name byte => exact tags_withBuffer fun place => tags_updateSlot s place fun _ => ⟨rfl, rfl⟩
  | put name offset bytes =>
    refine tags_withBuffer fun place => ?_
    split
    · exact tags_updateSlot s place fun _ => ⟨rfl, rfl⟩
    · exact .refl s
  | _ => exact SameContents.tags (contents_advance s task trivial)

theorem tags_agrees {s t : Machine n m} (agrees : s.Agrees t) : s.SameTags t := by
  intro c
  rw [agrees.caches]
  exact .refl _

theorem tags_miss {s : Machine n m} {c : Fin m} {b : BlockId} {name : String} {i : Fin n}
    (free : s.held.find? name = none) (absent : s.caches[c].pool.find? b = none)
    (chosen : s.caches[c].pool.leastRecentlyReleased = some i) (task : TaskId) (loads : Bool) :
    (s.recycle ⟨c, i⟩ b).SameTags (s.call task c b loads name).2 := by
  obtain ⟨t, ran, agrees⟩ := s.run_claim_recycles task absent chosen
  unfold call
  rw [free, ran]
  exact (tags_agrees agrees).symm.trans (tags_enter t task _)

theorem tags_call (s : Machine n m) (task : TaskId) (c : Fin m) (b : BlockId) (loads : Bool)
    (name : String) :
    s.SameTags (s.call task c b loads name).2 ∨
      s.caches[c].pool.find? b = none ∧
        ∃ i : Fin n, s.caches[c].pool.leastRecentlyReleased = some i ∧
          (s.recycle ⟨c, i⟩ b).SameTags (s.call task c b loads name).2 := by
  cases free : s.held.find? name with
  | some place =>
    rw [call, free]
    exact .inl (.refl s)
  | none =>
    cases found : s.caches[c].pool.find? b with
    | some i =>
      obtain ⟨t, ran, agrees⟩ := s.run_claim_found task found
      have referred := tags_updateSlot s ⟨c, i⟩ (f := .refer) fun _ => ⟨rfl, rfl⟩
      rw [call, free, ran]
      exact .inl ((referred.trans (tags_agrees agrees).symm).trans (tags_enter t task _))
    | none =>
      cases chosen : s.caches[c].pool.leastRecentlyReleased with
      | some i => exact .inr ⟨rfl, i, rfl, tags_miss free found chosen task loads⟩
      | none =>
        obtain ⟨t, ran, agrees⟩ := s.run_claim_exhausted task found chosen
        rw [call, free, ran]
        exact .inl (tags_agrees agrees).symm

theorem tags_step (s : Machine n m) (task : TaskId) (event : Event m) (regular : event.Regular) :
    s.SameTags (s.step task event).2 ∨
      ∃ c b, (∃ name, event = .read c b name ∨ event = .acquire c b name) ∧
        s.caches[c].pool.find? b = none ∧
          ∃ i : Fin n, s.caches[c].pool.leastRecentlyReleased = some i ∧
            (s.recycle ⟨c, i⟩ b).SameTags (s.step task event).2 := by
  cases asleep : s.isAsleep task with
  | true =>
    rw [step_asleep asleep]
    exact .inl (.refl s)
  | false =>
    rw [step_awake asleep]
    have woken := tags_wake (s.opened.advance task event).2
    have calls : ∀ c b loads name, s.opened.advance task event = s.opened.call task c b loads name →
        (∃ name, event = .read c b name ∨ event = .acquire c b name) →
        s.SameTags (s.opened.advance task event).2.wake.2 ∨
          ∃ c b, (∃ name, event = .read c b name ∨ event = .acquire c b name) ∧
            s.caches[c].pool.find? b = none ∧
              ∃ i : Fin n, s.caches[c].pool.leastRecentlyReleased = some i ∧
                (s.recycle ⟨c, i⟩ b).SameTags (s.opened.advance task event).2.wake.2 := by
      intro c b loads name called asked
      rw [called] at woken ⊢
      rcases tags_call s.opened task c b loads name with same | ⟨absent, i, chosen, same⟩
      · exact .inl (SameTags.trans same woken)
      · exact .inr ⟨c, b, asked, absent, i, chosen, SameTags.trans same woken⟩
    cases event with
    | read c b name => exact calls c b true name rfl ⟨name, .inl rfl⟩
    | acquire c b name => exact calls c b false name rfl ⟨name, .inr rfl⟩
    | _ => exact .inl ((tags_advance s.opened task _ regular (by simp)).trans woken)

theorem intact_machine {s : Machine n m} (intact : ∀ c : Fin m, s.caches[c].pool.Intact)
    (task : TaskId) (event : Event m) (regular : event.Regular) (c : Fin m) :
    (s.step task event).2.caches[c].pool.Intact := by
  rcases tags_step s task event regular with same | ⟨d, b, _, absent, i, _, same⟩
  · exact Pool.intact_sameTags (intact c) (same c)
  · refine Pool.intact_sameTags ?_ (same c)
    rw [recycle, cache_updateCache]
    split
    · exact Pool.intact_recycle (intact d) i ((Pool.find?_none _ (intact d) b).mp absent)
    · exact intact c

end Machine

namespace Account

theorem intact_start (disks : Vector Disk m) (c : Fin m) :
    (start n disks).machine.caches[c].pool.Intact := by
  simpa [start, Cache.start] using Pool.intact_start n

theorem run_intact {a b : Account n m} (path : Run Regular a b)
    (intact : ∀ c : Fin m, a.machine.caches[c].pool.Intact) (c : Fin m) :
    b.machine.caches[c].pool.Intact := by
  induction path generalizing c with
  | refl => exact intact c
  | step _ regular ih => exact Machine.intact_machine ih _ _ regular c

theorem next_tags {a : Account n m} {task : TaskId} {event : Machine.Event m} (regular : event.Regular) :
    (∀ p, (a.machine.slot p).SameTag ((a.next task event).machine.slot p)) ∨
      ∃ (c : Fin m) (b : BlockId) (i : Fin n),
        a.machine.caches[c].pool.leastRecentlyReleased = some i ∧
          ∀ p, ((a.machine.recycle ⟨c, i⟩ b).slot p).SameTag ((a.next task event).machine.slot p) := by
  rcases Machine.tags_step a.machine task event regular with same | ⟨c, b, -, -, i, chosen, same⟩
  · exact .inl fun p => (same p.cache).2 p.slot
  · exact .inr ⟨c, b, i, chosen, fun p => (same p.cache).2 p.slot⟩

-- The lists and tags in every state that the tasks can bring about, what the check says of them, and
-- what the next step can do to them: nothing, or else a call takes a member off its list and puts it
-- in front of a list of which it is no member then.
theorem lists_stay_intact {disks : Vector Disk m} {a : Account n m}
    (path : Run Regular (start n disks) a) (c : Fin m) :
    let pool := a.machine.caches[c].pool
    (∀ i : Fin n,
      ((List.finRange bucketCount).flatMap fun b => pool.buckets[b].members).count i = 1) ∧
    (∀ (b : Fin bucketCount) (i : Fin n), i ∈ pool.buckets[b].members ↔ pool.slots[i].home = b) ∧
    (∀ b : Fin bucketCount, pool.buckets[b].Represents pool.buckets[b].members) ∧
    (∀ i j : Fin n, pool.slots[i].mapped = true → pool.slots[j].mapped = true →
      pool.slots[i].block = pool.slots[j].block → i = j) ∧
    (∀ task, (a.machine.run task c Cache.audit).1 = .ok (.ok ())) ∧
    ∀ task event, event.Regular →
      (a.next task event).machine.caches[c].pool.buckets = pool.buckets ∨
      ∃ i b name, (event = .read c b name ∨ event = .acquire c b name) ∧
        i ∈ pool.buckets[pool.slots[i].home].members ∧
        i ∉ (pool.unlink i).buckets[b.bucket].members ∧
        (a.next task event).machine.caches[c].pool.buckets =
          ((pool.unlink i).updateBucket b.bucket (·.pushFront i)).buckets := by
  have all := run_intact path (intact_start disks)
  have intact := all c
  refine ⟨Pool.listed_once intact, intact.listed, intact.represented, intact.distinct, ?_, ?_⟩
  · intro task
    obtain ⟨t, ran, _⟩ := a.machine.run_audit task c
    rw [ran, Pool.audit_intact intact]
  · intro task event regular
    rcases Machine.tags_step a.machine task event regular with
      same | ⟨d, b, ⟨name, asked⟩, absent, i, _, same⟩
    · exact .inl (same c).1.symm
    · by_cases here : d = c
      · subst here
        refine .inr ⟨i, b, name, asked, (intact.listed _ i).mpr rfl, Pool.absent_unlink intact i _, ?_⟩
        have lists := (same d).1.symm
        rw [Machine.recycle, Machine.cache_updateCache, if_pos rfl] at lists
        exact lists
      · have lists := (same c).1.symm
        rw [Machine.recycle, Machine.cache_updateCache, if_neg here] at lists
        exact .inl lists

-- The only buffer of a cache goes from one block to another, which is on another list.
theorem lists_stay_intact_recycled :
    let a := (((start 1 #v[.zeroed]).next ⟨1⟩ (.read 0 ⟨1, 5⟩ "a")).next ⟨1⟩ (.release "a")).next ⟨2⟩
      (.read 0 ⟨1, 6⟩ "b")
    let pool := a.machine.caches[(0 : Fin 1)].pool
    Run Regular (start 1 #v[.zeroed]) a ∧
      (pool.buckets[(5 : Fin 13)].members, pool.buckets[(6 : Fin 13)].members) = ([], [0]) ∧
      ((List.finRange bucketCount).flatMap fun b => pool.buckets[b].members).count 0 = 1 ∧
      (a.machine.run ⟨1⟩ 0 Cache.audit).1 = .ok (.ok ()) := by
  have path : Run Regular (start 1 #v[.zeroed]) ((((start 1 #v[.zeroed]).next ⟨1⟩
      (.read 0 ⟨1, 5⟩ "a")).next ⟨1⟩ (.release "a")).next ⟨2⟩ (.read 0 ⟨1, 6⟩ "b")) :=
    .step (.step (.step .refl trivial) trivial) trivial
  obtain ⟨once, _, _, _, audited, _⟩ := lists_stay_intact path 0
  exact ⟨path, by decide +kernel, once 0, audited ⟨1⟩⟩

end Account

end KernelResources.Buffer
