import KernelResources.Proofs.Buffer.Cascade

namespace KernelResources.Buffer

open Machine Stage

variable {n m : Nat}

namespace Machine

variable {s t u : Machine n m} {l : Ledger m} {p : Place n m} {b : BlockId} {slot : Slot} {clock : Clock}
  {acts more : List (Cache.Act n)} {task : TaskId} {c : Fin m} {i : Fin n} {loads : Bool} {name : String}
  {event : Event m}

theorem mem_actsAt {what : Cache.Act n} : what ∈ s.actsAt c ↔ (c, .act what) ∈ s.past := by
  unfold actsAt Effect.acts
  rw [List.mem_filterMap]
  constructor
  · rintro ⟨effect, member, same⟩
    obtain ⟨⟨d, other⟩, kept, rfl⟩ := List.mem_map.mp (List.mem_reverse.mp member)
    obtain ⟨past, here⟩ := List.mem_filter.mp kept
    obtain rfl := eq_of_beq here
    cases other with
    | act done =>
      cases same
      exact past
    | _ => cases same
  · intro past
    refine ⟨.act what, List.mem_reverse.mpr (List.mem_map.mpr ⟨_, List.mem_filter.mpr ⟨past, ?_⟩, rfl⟩), rfl⟩
    exact beq_self_eq_true c

theorem released?_some (left : .leavesLock p.slot ∈ s.actsAt p.cache)
    (only : ∀ c i, .leavesLock i ∈ s.actsAt c → (⟨c, i⟩ : Place n m) = p) : s.released? = some p := by
  cases released : s.released? with
  | none => exact absurd (List.findSome?_eq_none_iff.mp released _ (mem_actsAt.mp left)) nofun
  | some q =>
    obtain ⟨⟨d, effect⟩, member, told⟩ := List.exists_of_findSome?_eq_some released
    cases effect with
    | act done =>
      cases done with
      | leavesLock i =>
        cases told
        rw [only d i (mem_actsAt.mpr member)]
      | _ => cases told
    | _ => cases told

theorem Works.released? (works : Works s t p slot clock acts) (fresh : s.past = [])
    (left : .leavesLock p.slot ∈ acts) (only : ∀ i, .leavesLock i ∈ acts → i = p.slot) :
    t.released? = some p := by
  have silent : ∀ d, s.actsAt d = [] := fun d => by
    rw [actsAt, fresh]
    rfl
  have done : ∀ d, t.actsAt d = if p.cache = d then acts else [] := by
    intro d
    rw [works.traced.acts, silent, List.nil_append]
  refine released?_some ?_ ?_
  · rw [done, if_pos rfl]
    exact left
  · intro d i member
    rw [done] at member
    split at member
    · rename_i here
      rw [only i member, ← here]
    · cases member

theorem unreleased_fresh (fresh : s.past = []) (keeps : Unreleasing s t) : t.released? = none := by
  refine released?_none fun d i left => ?_
  have early := keeps d i left
  rw [actsAt, fresh] at early
  cases early

def cleared (s : Machine n m) (p : Place n m) : Machine n m :=
  s.updateSlot p fun slot => { slot with data := slot.data.wake.2 }

theorem slot_cleared (s : Machine n m) (p q : Place n m) :
    (s.cleared p).slot q =
      if q = p then { s.slot p with data := (s.slot p).data.wake.2 } else s.slot q :=
  slot_updateSlot s p q _

theorem cleared_eq (s : Machine n m) (p : Place n m) :
    (s.updateSlot p fun slot => { slot with data := (s.slot p).data.wake.2 }) = s.cleared p :=
  s.updateSlot_congr p rfl

theorem wake_released (released : s.released? = some p) : s.wake = (s.cleared p).resumeAll (s.queue p) := by
  unfold wake
  rw [released]
  dsimp only
  rw [cleared_eq]
  rfl

def Settled (p : Place n m) (b : BlockId) (ended : List Woken × Machine n m) : Prop :=
  (∃ one ∈ ended.1, (ended.2.slot p).data.holder = some one.task ∧
    ∃ info bytes, one.reply = .done (.buffer info bytes)) ∨
  (ended.2.slot p).data.holder = none ∧
    (∀ who call, ended.2.asleep.find? who = some call → call.place ≠ p) ∧
    ∀ one ∈ ended.1, one.reply = .halted (.disk b)

-- All who sleep on the buffer at `p`, which carries block `b` and was given up in `u`, look again in the
-- order of its queue.
structure HandsOn (u : Machine n m) (p : Place n m) (b : BlockId) (ended : List Woken × Machine n m) :
    Prop where
  tasks : ended.1.map (·.task) = u.queue p
  passed : Passed p b (u.cleared p) ended.1 ended.2
  settled : Settled p b ended
  others : ∀ q, q ≠ p → ended.2.slot q = u.slot q
  flags : ∀ one ∈ ended.1, one.enabled = (u.cpu one.task).enabled
  lined : ended.2.Lined []

theorem wake_hands (released : u.released? = some p) (free : (u.slot p).data.holder = none)
    (holds : (u.slot p).holds b = true) (awaited : (u.cleared p).Awaited p (u.queue p))
    (accounted : Accounted ⟨u, l, [], []⟩) : HandsOn u p b u.wake := by
  have here : (u.cleared p).slot p = { u.slot p with data := (u.slot p).data.wake.2 } := by
    rw [slot_cleared, if_pos rfl]
  obtain ⟨passed, names, others, flags, lined⟩ := resumeAll_passed awaited (accounted.wake p)
    (by rw [here]; exact holds) (by rw [here]; exact free)
  rw [wake_released released]
  refine ⟨names, passed, ?_, fun q other => ?_, flags, lined⟩
  · rcases passed.ends with has | ⟨free, nobody, failed⟩
    · exact .inl has
    · refine .inr ⟨free, fun who call found place => ?_, failed⟩
      have member := lined.stands who call found List.not_mem_nil
      rw [place, nobody] at member
      cases member
  · rw [others q other, slot_cleared, if_neg other]

inductive Stirs (s : Machine n m) (task : TaskId) (event : Event m) (u : Machine n m) : Prop where
  | stays (nobody : u.released? = none) (lined : u.Lined [])
      (queues : ∀ q, u.queue q = s.queue q ∨ u.queue q = s.queue q ++ [task] ∧
        ∃ call : SleepingCall n m, event = call.event ∧ u.asleep.find? task = some call)
  | gives {p : Place n m} {b : BlockId} (released : u.released? = some p)
      (free : (u.slot p).data.holder = none) (holds : (u.slot p).holds b = true)
      (queues : ∀ q, u.queue q = s.queue q) (awaited : (u.cleared p).Awaited p (u.queue p))

theorem Works.awaited (works : Works s t p slot clock acts) (lined : s.Lined [])
    (sleepers : slot.data.sleepers = s.queue p) : (t.cleared p).Awaited p (t.queue p) := by
  have queue : t.queue p = s.queue p := works.queue sleepers p
  have emptied : (t.cleared p).queue p = [] := by
    rw [Machine.queue, slot_cleared, if_pos rfl]
    rfl
  have others : ∀ q, q ≠ p → (t.cleared p).slot q = s.slot q := by
    intro q other
    rw [slot_cleared, if_neg other, works.slots, if_neg other]
  have asleep : (t.cleared p).asleep = s.asleep := works.asleep
  rw [queue]
  refine ⟨lined.once p, fun who member => ?_, lined.dismiss asleep emptied others⟩
  rw [asleep]
  exact (lined.sleeps p who member).2

theorem Works.stirs (works : Works s t p slot clock acts) (lined : s.Lined []) (fresh : s.past = [])
    (left : .leavesLock p.slot ∈ acts) (only : ∀ i, .leavesLock i ∈ acts → i = p.slot)
    (free : slot.data.holder = none) (holds : slot.holds b = true)
    (sleepers : slot.data.sleepers = s.queue p) : Stirs s task event t :=
  .gives (works.released? fresh left only) (works.here ▸ free) (works.here ▸ holds)
    (works.queue sleepers) (works.awaited lined sleepers)

theorem Undisturbed.stirs (still : s.Undisturbed t) (lined : s.Lined []) (fresh : s.past = []) :
    Stirs s task event t := by
  refine .stays (unreleased_fresh fresh still.keeps)
    (lined.kept still.asleep still.queues fun q some => ?_) fun q => .inl (still.queues q)
  rw [still.holders]
  exact lined.locked q some

structure Begun (s : Machine n m) (p : Place n m) (b : BlockId) (t : Machine n m) (slot : Slot)
    (acts : List (Cache.Act n)) : Prop where
  works : Works s t p slot s.clock acts
  keeps : ∀ i, .leavesLock i ∉ acts
  holds : slot.holds b = true
  lock : slot.data = (s.slot p).data
  refs : slot.refs = (s.slot p).refs + 1
  referenced : slot.refs ≠ 0
  kept : slot.valid = true → (s.slot p).SameTag slot ∧ (s.slot p).valid = true

inductive Calls (s : Machine n m) (task : TaskId) (c : Fin m) (b : BlockId) (loads : Bool) (name : String) :
    Prop where
  | refused (same : s.call task c b loads name = (.refused (.handleInUse name), s))
      (silent : s.callExchanges task c b loads name = [])
  | exhausted {t : Machine n m} (ended : s.call task c b loads name = (.halted .noBuffers, t))
      (agrees : t.Agrees s) (traced : Traced s t c s.clock [])
      (silent : s.callExchanges task c b loads name = [])
  | begins {i : Fin n} {t : Machine n m} {slot : Slot} {acts : List (Cache.Act n)}
      (begun : Begun s ⟨c, i⟩ b t slot acts)
      (looks : s.call task c b loads name = t.enter task ⟨⟨c, i⟩, b, loads, name⟩)
      (exchanges : s.callExchanges task c b loads name = t.enterExchanges task ⟨⟨c, i⟩, b, loads, name⟩)
      (serves : ∀ x ∈ t.enterExchanges task ⟨⟨c, i⟩, b, loads, name⟩,
        x.Serves task ⟨⟨c, i⟩, b, loads, name⟩)

theorem call_calls (accounted : Accounted ⟨s, l, [], []⟩) (task : TaskId) (c : Fin m) (b : BlockId)
    (loads : Bool) (name : String) (intact : s.caches[c].pool.Intact)
    (room : ∀ i, s.held.find? name = none → s.caches[c].pool.find? b = some i →
      Account.references ⟨s, l⟩ ⟨c, i⟩ + 1 < UInt32.size) : Calls s task c b loads name := by
  cases free : s.held.find? name with
  | some place => exact .refused (by rw [call, free]) (by rw [callExchanges, free])
  | none =>
    have ended := claim_ends accounted task c b intact (room · free)
    -- With the buffer that is claimed its reference is, whatever it was before.
    have begins : ∀ {i : Fin n} {t : Machine n m} {slot : Slot} {acts : List (Cache.Act n)},
        s.run task c (Cache.claim b) = (.ok i, t) → Works s t ⟨c, i⟩ slot s.clock acts →
        (∀ j, .leavesLock j ∉ acts) → slot.data = (s.slot ⟨c, i⟩).data →
        slot.refs = (s.slot ⟨c, i⟩).refs + 1 →
        (slot.valid = true → (s.slot ⟨c, i⟩).SameTag slot ∧ (s.slot ⟨c, i⟩).valid = true) →
        Calls s task c b loads name := by
      intro i t slot acts ran works keeps lock refs kept
      rcases ended with ⟨j, other, claimed, claims⟩ | ⟨-, -, other, claimed, -⟩ <;> rw [ran] at claimed
      · cases claimed
        have serves := (enter_ends task ⟨⟨c, i⟩, b, loads, name⟩ claims.accounted claims.holds).serves
        have holds := claims.holds
        have referenced := referenced_hand claims.accounted
        rw [works.here] at holds referenced
        exact .begins ⟨works, keeps, holds, lock, refs, referenced, kept⟩ (by rw [call, free, ran])
          (by rw [callExchanges, free, ran]) serves
      · cases claimed
    cases found : s.caches[c].pool.find? b with
    | some i =>
      obtain ⟨t, ran, works⟩ := Works.claim_found found task
      exact begins ran works (by simp) rfl rfl fun valid => ⟨⟨rfl, rfl⟩, valid⟩
    | none =>
      cases chosen : s.caches[c].pool.leastRecentlyReleased with
      | some i =>
        obtain ⟨t, notice, ran, works⟩ := Works.claim_recycles found chosen task
        have unreferenced : (s.slot ⟨c, i⟩).refs = 0 := Pool.refs_leastRecentlyReleased chosen
        exact begins ran works (by simp) rfl (by rw [unreferenced]; rfl) fun valid => by cases valid
      | none =>
        obtain ⟨t, ran, agrees⟩ := s.run_claim_exhausted task found chosen
        have traced := run_traced (Cache.claim_exhausted (s.entry task c) found chosen)
        rw [ran] at traced
        exact .exhausted (by rw [call, free, ran]) agrees traced (by rw [callExchanges, free, ran])

theorem Begun.lined (begun : Begun s p b t slot acts) (lined : s.Lined []) : t.Lined [] := by
  refine lined.works begun.works (congrArg (·.sleepers) begun.lock) fun some => ?_
  rw [begun.lock]
  exact lined.locked p some

theorem Begun.queue (begun : Begun s p b t slot acts) (q : Place n m) : t.queue q = s.queue q :=
  begun.works.queue (congrArg (·.sleepers) begun.lock) q

theorem Begun.unreleasing (begun : Begun s p b t slot acts) : Unreleasing s t :=
  unreleasing_traced begun.works.traced begun.keeps

theorem Begun.fails (begun : Begun s ⟨c, i⟩ b t slot acts)
    (works : Works t u ⟨c, i⟩ ((t.slot ⟨c, i⟩).stamp t.clock.now) t.clock.read.2 more) :
    Works s u ⟨c, i⟩ (slot.stamp s.clock.now) s.clock.read.2 (acts ++ more) := by
  rw [begun.works.here, begun.works.traced.clock] at works
  exact begun.works.trans works

theorem Begun.looked (begun : Begun s ⟨c, i⟩ b t slot acts) (task : TaskId) (loads : Bool) (name : String) :
    Looked t task ⟨⟨c, i⟩, b, loads, name⟩ (t.enterExchanges task ⟨⟨c, i⟩, b, loads, name⟩)
      (t.enter task ⟨⟨c, i⟩, b, loads, name⟩).1 (t.enter task ⟨⟨c, i⟩, b, loads, name⟩).2 := by
  refine enter_looked task _ ?_
  rw [begun.works.here]
  exact begun.referenced

theorem Calls.stirs (calls : Calls s task c b loads name) (lined : s.Lined []) (fresh : s.past = [])
    (awake : s.asleep.find? task = none)
    (called : ∀ i : Fin n, event = (SleepingCall.mk (Place.mk c i) b loads name).event) :
    Stirs s task event (s.call task c b loads name).2 := by
  cases calls with
  | refused same =>
    rw [same]
    exact (undisturbed_refl s).stirs lined fresh
  | exhausted ended agrees traced =>
    rw [ended]
    exact (undisturbed_slots traced (by simp) agrees.asleep agrees.slot).stirs lined fresh
  | @begins i t slot acts begun looks =>
    have looked := begun.looked task loads name
    have after := looked.lined (begun.lined lined) (begun.works.asleep ▸ awake) List.not_mem_nil
    have queues := looked.queues
    simp only [begun.queue] at queues
    have stays : ∀ {u : Machine n m}, u.Lined [] → Unreleasing t u →
        (∀ q, u.queue q = s.queue q ∨ q = ⟨c, i⟩ ∧ (t.enter task ⟨⟨c, i⟩, b, loads, name⟩).1 = .asleep ∧
          u.queue q = s.queue q ++ [task] ∧
            u.asleep.find? task = some ⟨⟨c, i⟩, b, loads, name⟩) → Stirs s task event u := by
      intro u lined keeps queues
      refine .stays (unreleased_fresh fresh fun d j left => begun.unreleasing d j (keeps d j left)) lined ?_
      exact fun q => (queues q).imp_right fun ⟨_, _, queue, slept⟩ => ⟨queue, _, called i, slept⟩
    rw [looks]
    generalize t.enter task _ = ended at looked after queues stays ⊢
    obtain ⟨reply, u⟩ := ended
    cases looked with
    | waits _ works =>
      have keeps := unreleasing_traced works.traced (by simp)
      exact stays after (fun d j => keeps d j) queues
    | gets _ works silent =>
      have keeps := unreleasing_traced works.traced silent
      exact stays after (fun d j => keeps d j) queues
    | fails free invalid broken works =>
      refine (begun.fails works).stirs lined fresh (by simp) ?_ ?_ begun.holds (congrArg (·.sleepers) begun.lock)
      · intro j left
        rcases List.mem_append.mp left with early | late
        · exact absurd early (begun.keeps j)
        · simpa using late
      · rw [begun.works.here] at free
        exact free

theorem release_stirs (accounted : Accounted ⟨s, l, [], []⟩) (lined : s.Lined []) (fresh : s.past = [])
    (known : s.held.find? name = some p) :
    Stirs s task event ({ s with held := s.held.erase name }.run task p.cache (Cache.release p.slot)).2 := by
  cases held : (s.slot p).data.heldBy task with
  | false =>
    obtain ⟨t, ran, agrees⟩ := run_release_unheld { s with held := s.held.erase name } task held
    have traced := run_traced (Cache.release_unheld
      (entry { s with held := s.held.erase name } task p.cache) (i := p.slot) held)
    rw [ran] at traced ⊢
    have stopped := undisturbed_slots traced (by simp) agrees.asleep agrees.slot
    have still : s.Undisturbed t := ⟨stopped.queues, stopped.holders, stopped.asleep, stopped.keeps⟩
    exact still.stirs lined fresh
  | true =>
    have referenced := referenced_hand (accounted.giveBack known)
    obtain ⟨t, ran, works⟩ :=
      Works.release (s := { s with held := s.held.erase name }) held referenced
    have freed : Lined { s with held := s.held.erase name } [] :=
      ⟨lined.once, lined.stands, lined.sleeps, lined.locked⟩
    have holds : ((s.slot p).unlock.stamp s.clock.now).holds (s.slot p).block = true :=
      named_holds accounted known
    have stirs : Stirs { s with held := s.held.erase name } task event t :=
      works.stirs freed fresh (by simp) (by simp) rfl holds rfl
    rw [ran]
    cases stirs with
    | stays nobody lined queues => exact .stays nobody lined queues
    | gives released free holds queues awaited => exact .gives released free holds queues awaited

theorem advance_stirs (accounted : Accounted ⟨s, l, [], []⟩) (lined : s.Lined []) (fresh : s.past = [])
    (intact : ∀ c : Fin m, s.caches[c].pool.Intact) (awake : s.asleep.find? task = none)
    (regular : event.Regular)
    (room : ∀ p, s.takes? task event = some p → Account.references ⟨s, l⟩ p + 1 < UInt32.size) :
    Stirs s task event (s.advance task event).2 := by
  have up : s.isAsleep task = false := by
    rw [isAsleep, Registry.contains, awake]
    rfl
  cases event with
  | tamper => exact regular.elim
  | read c b name =>
    have calls := call_calls accounted task c b true name (intact c) fun i free found =>
      room ⟨c, i⟩ (takes_call up free found).1
    exact calls.stirs lined fresh awake fun _ => rfl
  | acquire c b name =>
    have calls := call_calls accounted task c b false name (intact c) fun i free found =>
      room ⟨c, i⟩ (takes_call up free found).2
    exact calls.stirs lined fresh awake fun _ => rfl
  | release name =>
    cases known : s.held.find? name with
    | some p =>
      simp only [advance, withBuffer, known]
      exact release_stirs accounted lined fresh known
    | none =>
      simp only [advance, withBuffer, known]
      exact (undisturbed_refl s).stirs lined fresh
  | _ =>
    refine (advance_undisturbed accounted task ?_).stirs lined fresh
    trivial

theorem Calls.undone (calls : Calls s task c b loads name) (awake : s.asleep.find? task = none)
    {x : Exchange n m} (member : x ∈ s.callExchanges task c b loads name) (failed : x.failed = true) :
    (s.call task c b loads name).1 = .halted (.disk b) ∧ (s.slot x.place).data.holder = none ∧
      Undone s task x.place b 0 (s.call task c b loads name).2 := by
  cases calls with
  | refused _ silent =>
    rw [silent] at member
    cases member
  | exhausted _ _ _ silent =>
    rw [silent] at member
    cases member
  | @begins i t slot acts begun looks exchanges serves =>
    have looked := begun.looked task loads name
    rw [exchanges] at member
    have place : x.place = ⟨c, i⟩ := (serves x member).place
    rw [looks, place]
    generalize t.enter task _ = ended at looked ⊢
    obtain ⟨reply, u⟩ := ended
    cases looked with
    | waits _ _ silent =>
      rw [silent] at member
      cases member
    | gets _ _ _ _ _ _ _ sound => cases (sound x member).symm.trans failed
    | fails free invalid broken works =>
      rw [begun.works.here] at free invalid
      rw [begun.lock] at free
      have refs : (slot.refs - 1).toNat + 0 = (s.slot ⟨c, i⟩).refs.toNat := by
        rw [begun.refs, UInt32.add_sub_cancel, Nat.add_zero]
      refine ⟨rfl, free, (begun.fails works).undone begun.holds invalid ?_ ?_ ?_ refs awake⟩
      · rw [begun.lock]
        exact free
      · rw [begun.lock]
      · rw [begun.lock]
        rfl

end Machine

end KernelResources.Buffer
