import KernelResources.Proofs.Buffer.Attendance
import KernelResources.Proofs.Buffer.Exchanges

namespace KernelResources.Buffer

open Machine Stage

variable {n m : Nat}

def SleepingCall.event (call : SleepingCall n m) : Event m :=
  if call.loads then .read call.place.cache call.block call.name
  else .acquire call.place.cache call.block call.name

def Machine.Event.Steady : Event m → Prop
  | .moveTo _ | .setInterrupts _ => False
  | _ => True

namespace Machine

-- The mistakes for which a step is stopped before it has changed anything in any cache.
inductive Stops (s : Machine n m) (task : TaskId) : Event m → CacheFault → Prop where
  | read {c : Fin m} {b : BlockId} {name : String} (free : s.held.find? name = none)
      (uncached : ∀ i : Fin n, (s.slot ⟨c, i⟩).holds b = false)
      (referenced : ∀ i : Fin n, (s.slot ⟨c, i⟩).refs ≠ 0) : Stops s task (.read c b name) .noBuffers
  | acquire {c : Fin m} {b : BlockId} {name : String} (free : s.held.find? name = none)
      (uncached : ∀ i : Fin n, (s.slot ⟨c, i⟩).holds b = false)
      (referenced : ∀ i : Fin n, (s.slot ⟨c, i⟩).refs ≠ 0) :
      Stops s task (.acquire c b name) .noBuffers
  | write {name : String} {p : Place n m} (known : s.held.find? name = some p)
      (foreign : (s.slot p).data.holder ≠ some task) :
      Stops s task (.write name) (.writeUnheld p.slot task)
  | release {name : String} {p : Place n m} (known : s.held.find? name = some p)
      (foreign : (s.slot p).data.holder ≠ some task) :
      Stops s task (.release name) (.releaseUnheld p.slot task)
  | unpin {c : Fin m} {pinName : String} {p : Place n m} (known : s.pins.find? pinName = some p)
      (foreign : p.cache ≠ c) : Stops s task (.unpin c pinName) (.unpinForeign p.slot)

inductive Asks (s : Machine n m) (task : TaskId) (x : Exchange n m) : Event m → Prop where
  | read {name : String} (direction : x.transfer.direction = .read) (own : x.task = task) :
      Asks s task x (.read x.place.cache x.transfer.block name)
  | write {name : String} (direction : x.transfer.direction = .write) (own : x.task = task)
      (known : s.held.find? name = some x.place) : Asks s task x (.write name)

structure Begins (s u : Machine n m) : Prop where
  transfers : ∀ c, u.transfers c = s.transfers c
  valid : ∀ p, (s.slot p).SameTag (u.slot p) → (s.slot p).valid = true → (u.slot p).valid = true

structure Acts (s : Machine n m) (task : TaskId) (event : Event m) (xs : List (Exchange n m))
    (ended : Reply × Machine n m) : Prop where
  begins : ∃ u, s.Begins u ∧ Passes u xs ended.2
  cpu : event.Steady → ∀ who, ended.2.cpu who = s.cpu who
  asks : ∀ x ∈ xs, Asks s task x event
  halted : ∀ fault, ended.1 = .halted fault →
    Stops s task event fault ∨ ∃ x ∈ xs, x.failed = true ∧ fault = .disk x.transfer.block
  asleep : ended.2.asleep = s.asleep ∨ ∃ call : SleepingCall n m, event = call.event ∧
    ended.2.asleep = s.asleep.put task call ∧ ended.2.released? = none
  one : xs.length ≤ 1

variable {s t : Machine n m} {l : Ledger m} {task : TaskId} {event : Event m} {c : Fin m}
  {clock : Clock} {acts : List (Cache.Act n)} {reply : Reply} {name pinName : String}

theorem begins_refl (s : Machine n m) : s.Begins s := ⟨fun _ => rfl, fun _ _ => id⟩

theorem begins_traced (traced : Traced s t c clock acts)
    (none : acts.filterMap Cache.Act.transfer? = [])
    (valid : ∀ p, (s.slot p).valid = true → (t.slot p).valid = true) : s.Begins t :=
  ⟨transfers_silent traced none, fun p _ => valid p⟩

theorem valid_still (agrees : t.Agrees s) (p : Place n m) (valid : (s.slot p).valid = true) :
    (t.slot p).valid = true := by
  rw [agrees.slot]
  exact valid

theorem acts_silent (begins : s.Begins t)
    (cpu : event.Steady → ∀ who, t.cpu who = s.cpu who)
    (halted : ∀ fault, reply = .halted fault → Stops s task event fault) (asleep : t.asleep = s.asleep) :
    Acts s task event [] (reply, t) where
  begins := ⟨t, begins, passes_refl t⟩
  cpu := cpu
  asks := nofun
  halted := fun fault told => .inl (halted fault told)
  asleep := .inl asleep
  one := Nat.zero_le 1

theorem acts_refused (why : Refusal) : Acts s task event [] (.refused why, s) :=
  acts_silent (begins_refl s) (fun _ _ => rfl) nofun rfl

theorem acts_done (answer : Answer) (begins : s.Begins t)
    (cpu : event.Steady → ∀ who, t.cpu who = s.cpu who) (asleep : t.asleep = s.asleep) :
    Acts s task event [] (.done answer, t) :=
  acts_silent begins cpu nofun asleep

theorem acts_withBuffer {f : Place n m → Reply × Machine n m}
    (found : ∀ p, s.held.find? name = some p → Acts s task event [] (f p)) :
    Acts s task event [] (s.withBuffer name f) := by
  unfold withBuffer
  split
  · rename_i place held
    exact found place held
  · exact acts_refused _

theorem acts_withPin {f : Place n m → Reply × Machine n m}
    (found : ∀ p, s.pins.find? pinName = some p → Acts s task event [] (f p)) :
    Acts s task event [] (s.withPin pinName f) := by
  unfold withPin
  split
  · rename_i place pinned
    exact found place pinned
  · exact acts_refused _

structure Claims (s t : Machine n m) (l : Ledger m) (p : Place n m) (b : BlockId) : Prop where
  begins : s.Begins t
  cpu : ∀ who, t.cpu who = s.cpu who
  holds : (t.slot p).holds b = true
  asleep : t.asleep = s.asleep
  unreleasing : Unreleasing s t
  accounted : Accounted ⟨t, l, [p], []⟩

theorem claim_ends (accounted : Accounted ⟨s, l, [], []⟩) (task : TaskId) (c : Fin m) (b : BlockId)
    (intact : s.caches[c].pool.Intact)
    (room : ∀ i, s.caches[c].pool.find? b = some i →
      Account.references ⟨s, l⟩ ⟨c, i⟩ + 1 < UInt32.size) :
    (∃ i t, s.run task c (Cache.claim b) = (.ok i, t) ∧ Claims s t l ⟨c, i⟩ b) ∨
      s.caches[c].pool.find? b = none ∧ (∀ i : Fin n, (s.slot ⟨c, i⟩).refs ≠ 0) ∧
        ∃ t, s.run task c (Cache.claim b) = (.error .noBuffers, t) ∧ t.Agrees s ∧
          Traced s t c s.clock [] := by
  cases found : s.caches[c].pool.find? b with
  | some i =>
    obtain ⟨t, ran, agrees⟩ := s.run_claim_found task found
    have traced := run_traced (Cache.claim_found (s.entry task c) found)
    rw [ran] at traced
    have referred : Moves (fun _ => True) ⟨s, l, [], []⟩ ⟨t, l, [⟨c, i⟩], []⟩ :=
      .step (.single (.refer ⟨c, i⟩ (room i found))) (.still agrees.still)
    refine .inl ⟨i, t, ran, ?_, traced.cpu, ?_, agrees.asleep, ?_, moves_accounted referred accounted⟩
    · exact begins_traced traced rfl (valid_update agrees fun valid => valid)
    · rw [agrees.slot, slot_updateSlot, if_pos rfl]
      exact Pool.find?_holds found
    · exact unreleasing_traced traced (by simp)
  | none =>
    cases chosen : s.caches[c].pool.leastRecentlyReleased with
    | some i =>
      obtain ⟨t, ran, agrees⟩ := s.run_claim_recycles task found chosen
      have traced := run_traced (Cache.claim_recycles (s.entry task c) found chosen)
      rw [ran] at traced
      have unreferenced : (s.slot ⟨c, i⟩).refs = 0 := Pool.refs_leastRecentlyReleased chosen
      have recycled : Moves (fun _ => True) ⟨s, l, [], []⟩ ⟨t, l, [⟨c, i⟩], []⟩ :=
        .step (.single (.recycle ⟨c, i⟩ b found unreferenced)) (.still agrees.still)
      refine .inl ⟨i, t, ran, ⟨?_, ?_⟩, traced.cpu, ?_, agrees.asleep, ?_,
        moves_accounted recycled accounted⟩
      · intro d
        rw [transfers_acts, transfers_acts, traced.acts, List.filterMap_append]
        split <;> exact List.append_nil _
      · -- A buffer that lost its bytes has another block now: nobody had this one.
        intro p tag valid
        rw [agrees.slot, slot_recycle] at tag ⊢
        split
        · rename_i here
          rw [if_pos here, here] at tag
          have free := (Pool.find?_none _ intact b).mp found i
          have holds : (s.slot ⟨c, i⟩).holds b = true :=
            (Slot.holds_iff ..).mpr ⟨tag.1, tag.2⟩
          exact absurd (free.symm.trans holds) Bool.false_ne_true
        · exact valid
      · rw [agrees.slot, slot_recycle, if_pos rfl]
        exact Slot.holds_retag _ b
      · exact unreleasing_traced traced (by simp)
    | none =>
      obtain ⟨t, ran, agrees⟩ := s.run_claim_exhausted task found chosen
      have traced := run_traced (Cache.claim_exhausted (s.entry task c) found chosen)
      rw [ran] at traced
      exact .inr ⟨rfl, fun i => Pool.referenced_of_none chosen i, t, ran, agrees, traced⟩

theorem call_unreleasing (accounted : Accounted ⟨s, l, [], []⟩) (task : TaskId) (c : Fin m) (b : BlockId)
    (name : String) (intact : s.caches[c].pool.Intact)
    (room : ∀ i, s.held.find? name = none → s.caches[c].pool.find? b = some i →
      Account.references ⟨s, l⟩ ⟨c, i⟩ + 1 < UInt32.size) :
    Unreleasing s (s.call task c b false name).2 := by
  unfold call
  cases free : s.held.find? name with
  | some place => exact fun _ _ => id
  | none =>
    rcases claim_ends accounted task c b intact (room · free) with
      ⟨i, t, ran, claims⟩ | ⟨_, _, t, ran, _, traced⟩
    · rw [ran]
      have entered := enter_ends task ⟨⟨c, i⟩, b, false, name⟩ claims.accounted claims.holds
      exact fun d j left => claims.unreleasing d j (entered.locked rfl d j left)
    · rw [ran]
      exact unreleasing_traced traced fun _ => List.not_mem_nil

theorem call_acts (accounted : Accounted ⟨s, l, [], []⟩) (c : Fin m) (b : BlockId) (loads : Bool)
    (name : String) (intact : s.caches[c].pool.Intact)
    (room : ∀ i, s.held.find? name = none → s.caches[c].pool.find? b = some i →
      Account.references ⟨s, l⟩ ⟨c, i⟩ + 1 < UInt32.size)
    (stops : s.held.find? name = none → (∀ i : Fin n, (s.slot ⟨c, i⟩).holds b = false) →
      (∀ i : Fin n, (s.slot ⟨c, i⟩).refs ≠ 0) → Stops s task event .noBuffers)
    (asks : ∀ x : Exchange n m, ∀ i, x.Serves task ⟨⟨c, i⟩, b, loads, name⟩ → Asks s task x event)
    (called : ∀ i : Fin n, event = (SleepingCall.mk (Place.mk c i) b loads name).event)
    (silent : ∀ (c : Fin m) i, .leavesLock i ∉ s.actsAt c) :
    Acts s task event (s.callExchanges task c b loads name) (s.call task c b loads name) := by
  unfold call callExchanges
  cases free : s.held.find? name with
  | some place => exact acts_refused _
  | none =>
    rcases claim_ends accounted task c b intact (room · free) with
      ⟨i, t, ran, claims⟩ | ⟨absent, referenced, t, ran, agrees, traced⟩
    · rw [ran]
      have ends := enter_ends task ⟨⟨c, i⟩, b, loads, name⟩ claims.accounted claims.holds
      obtain ⟨passes, serves, halted, asleep, -, -⟩ := id ends
      refine ⟨⟨t, claims.begins, passes⟩, ?_, ?_, ?_, ?_, ?_⟩
      · intro _ who
        exact (passes.cpu who).trans (claims.cpu who)
      · exact fun x member => asks x i (serves x member)
      · exact fun fault told => .inr (halted fault told)
      · rcases asleep with kept | ⟨slept, unreleasing⟩
        · exact .inl (kept.trans claims.asleep)
        · refine .inr ⟨_, called i, claims.asleep ▸ slept, ?_⟩
          exact released?_none fun d j left =>
            silent d j (claims.unreleasing d j (unreleasing d j left))
      · exact ends.length_le
    · rw [ran]
      refine acts_silent (begins_traced traced rfl (valid_still agrees)) (fun _ => traced.cpu) ?_
        agrees.asleep
      · rintro fault ⟨rfl⟩
        exact stops free ((Pool.find?_none _ intact b).mp absent) referenced

theorem named_holds (accounted : Accounted ⟨s, l, [], []⟩) {p : Place n m}
    (known : s.held.find? name = some p) : (s.slot p).holds (s.slot p).block = true := by
  obtain ⟨g, _, _, fits⟩ := accounted.granted known
  exact (Slot.holds_iff ..).mpr ⟨((Slot.holds_iff ..).mp fits.holds).1, rfl⟩

theorem write_acts (accounted : Accounted ⟨s, l, [], []⟩) {p : Place n m}
    (known : s.held.find? name = some p) :
    Acts s task (.write name) (s.made task p (Cache.write p.slot))
      (report (s.run task p.cache (Cache.write p.slot)) fun _ => .unit) := by
  cases held : (s.slot p).data.heldBy task with
  | false =>
    have ends := Cache.write_unheld (s.entry task p.cache) held
    obtain ⟨t, ran, agrees⟩ := s.run_write_unheld task held
    have traced := run_traced ends
    rw [ran] at traced ⊢
    rw [made_none ends rfl]
    refine acts_silent (begins_traced traced rfl (valid_still agrees)) (fun _ => traced.cpu) ?_
      agrees.asleep
    rintro fault ⟨rfl⟩
    exact .write known (unheld_iff.mp held)
  | true =>
    have proper : (Exchange.mk s task p ⟨.write, (s.slot p).block, (s.cpu task).enabled⟩).Proper :=
      ⟨named_holds accounted known, heldBy_iff.mp held, rfl, nofun⟩
    cases fails : s.caches[p.cache].disk.fails task (s.slot p).block with
    | true =>
      have ends := Cache.write_fails (s.entry task p.cache) held fails
      obtain ⟨t, ran, agrees⟩ := s.run_write_fails task held fails
      have traced := run_traced ends
      rw [ran] at traced ⊢
      rw [made_write held ends rfl]
      have passes := Passes.single traced rfl (tags_agrees agrees).symm (valid_still agrees) proper nofun
      refine ⟨⟨s, begins_refl s, passes⟩, fun _ => traced.cpu,
        List.forall_mem_singleton.mpr (.write rfl rfl known), ?_, .inl agrees.asleep, le_rfl⟩
      rintro fault ⟨rfl⟩
      exact .inr ⟨_, List.mem_singleton_self _, fails, rfl⟩
    | false =>
      have ends := Cache.write_succeeds (s.entry task p.cache) held fails
      obtain ⟨t, ran, agrees⟩ := s.run_write_succeeds task held fails
      have traced := run_traced ends
      rw [ran] at traced ⊢
      rw [made_write held ends rfl]
      have tags := tags_run s task p.cache (Cache.tags_write p.slot)
      rw [ran] at tags
      have valid : ∀ q, (s.slot q).valid = true → (t.slot q).valid = true := by
        intro q
        rw [agrees.slot, slot_store]
        exact id
      have passes := Passes.single traced rfl tags valid proper nofun
      exact ⟨⟨s, begins_refl s, passes⟩, fun _ => traced.cpu,
        List.forall_mem_singleton.mpr (.write rfl rfl known), nofun, .inl agrees.asleep, le_rfl⟩

theorem release_acts (accounted : Accounted ⟨s, l, [], []⟩) {p : Place n m}
    (known : s.held.find? name = some p) :
    Acts s task (.release name) []
      (report ({ s with held := s.held.erase name }.run task p.cache (Cache.release p.slot))
        fun _ => .unit) := by
  cases held : (s.slot p).data.heldBy task with
  | false =>
    obtain ⟨t, ran, agrees⟩ := run_release_unheld { s with held := s.held.erase name } task held
    have traced := run_traced (Cache.release_unheld
      (entry { s with held := s.held.erase name } task p.cache) (i := p.slot) held)
    rw [ran] at traced ⊢
    have begins := begins_traced traced rfl (valid_still agrees)
    refine acts_silent ⟨begins.transfers, begins.valid⟩ (fun _ => traced.cpu) ?_ agrees.asleep
    rintro fault ⟨rfl⟩
    exact .release known (unheld_iff.mp held)
  | true =>
    have referenced := referenced_hand (accounted.giveBack known)
    obtain ⟨t, ran, agrees⟩ := run_release_held { s with held := s.held.erase name } task held referenced
    have traced := run_traced (Cache.release_held
      (entry { s with held := s.held.erase name } task p.cache) (i := p.slot) held referenced)
    rw [ran] at traced ⊢
    have begins := begins_traced traced rfl (valid_released agrees)
    exact acts_done _ ⟨begins.transfers, begins.valid⟩ (fun _ => traced.cpu) agrees.asleep

theorem pin_acts (s : Machine n m) (task : TaskId) (event : Event m) (pinName : String) (p : Place n m) :
    ∃ t, s.run task p.cache (Cache.pin p.slot) = (.ok (), t) ∧
      ∀ answer, Acts s task event [] (.done answer, { t with pins := t.pins.put pinName p }) := by
  obtain ⟨t, ran, agrees⟩ := s.run_pin task p
  have traced := run_traced (Cache.pin_ends (s.entry task p.cache) p.slot)
  rw [ran] at traced
  have begins := begins_traced traced rfl (valid_update agrees fun valid => valid)
  exact ⟨t, ran, fun answer =>
    acts_done answer ⟨begins.transfers, begins.valid⟩ (fun _ => traced.cpu) agrees.asleep⟩

theorem unpin_acts (accounted : Accounted ⟨s, l, [], []⟩) {p : Place n m}
    (known : s.pins.find? pinName = some p) :
    Acts s task (.unpin c pinName) []
      (report ({ s with pins := s.pins.erase pinName }.run task c (Cache.unpin p.slot (p.cache = c)))
        fun _ => .unit) := by
  by_cases own : p.cache = c
  · subst own
    have referenced := referenced_hand (accounted.unpin known)
    obtain ⟨t, ran, agrees⟩ := run_unpin_own { s with pins := s.pins.erase pinName } task referenced
    have traced := run_traced (Cache.unpin_own
      (entry { s with pins := s.pins.erase pinName } task p.cache) (i := p.slot) referenced)
    rw [ran] at traced
    rw [decide_eq_true rfl, ran]
    have begins := begins_traced traced rfl (valid_update agrees fun valid => valid)
    exact acts_done _ ⟨begins.transfers, begins.valid⟩ (fun _ => traced.cpu) agrees.asleep
  · obtain ⟨t, ran, agrees⟩ :=
      run_unpin_foreign { s with pins := s.pins.erase pinName } task (c := c) p.slot
    have traced := run_traced (Cache.unpin_foreign
      (entry { s with pins := s.pins.erase pinName } task c) p.slot)
    rw [ran] at traced
    rw [decide_eq_false own, ran]
    have begins := begins_traced traced rfl (valid_still agrees)
    refine acts_silent ⟨begins.transfers, begins.valid⟩ (fun _ => traced.cpu) ?_ agrees.asleep
    rintro fault ⟨rfl⟩
    exact .unpin known own

theorem edit_acts (p : Place n m) (f : Block → Block) :
    Acts s task event [] (.done .unit, s.edit p f) := by
  refine acts_done _ ⟨fun _ => rfl, fun q _ valid => ?_⟩ (fun _ _ => rfl) rfl
  rw [edit, slot_updateSlot]
  split
  · rename_i here
    rw [← here]
    exact valid
  · exact valid

theorem takes_call (awake : s.isAsleep task = false) {b : BlockId} {i : Fin n}
    (free : s.held.find? name = none) (found : s.caches[c].pool.find? b = some i) :
    s.takes? task (.read c b name) = some ⟨c, i⟩ ∧ s.takes? task (.acquire c b name) = some ⟨c, i⟩ := by
  simp [takes?, awake, Registry.contains, free, found]

theorem advance_acts (accounted : Accounted ⟨s, l, [], []⟩) (intact : ∀ c : Fin m, s.caches[c].pool.Intact)
    (fresh : s.past = []) (awake : s.asleep.find? task = none) (event : Event m)
    (regular : event.Regular)
    (room : ∀ p, s.takes? task event = some p → Account.references ⟨s, l⟩ p + 1 < UInt32.size) :
    Acts s task event (s.advanceExchanges task event) (s.advance task event) := by
  have up : s.isAsleep task = false := by
    rw [isAsleep, Registry.contains, awake]
    rfl
  have silent : ∀ (c : Fin m) i, .leavesLock i ∉ s.actsAt c := by
    intro c i
    rw [actsAt, fresh]
    exact List.not_mem_nil
  cases event with
  | tamper => exact absurd regular id
  | read c b name =>
    refine call_acts accounted c b true name (intact c) ?_ .read ?_ ?_ silent
    · exact fun i free found => room ⟨c, i⟩ (takes_call up free found).1
    · intro x i serves
      have same : Event.read c b name = .read x.place.cache x.transfer.block name := by
        rw [serves.place, serves.block]
      rw [same]
      exact .read serves.direction serves.task
    · exact fun _ => rfl
  | acquire c b name =>
    refine call_acts accounted c b false name (intact c) ?_ .acquire ?_ ?_ silent
    · exact fun i free found => room ⟨c, i⟩ (takes_call up free found).2
    · intro x i serves
      exact absurd serves.loads Bool.false_ne_true
    · exact fun _ => rfl
  | write name =>
    simp only [advance, withBuffer, advanceExchanges]
    cases known : s.held.find? name with
    | some p => exact write_acts accounted known
    | none => exact acts_refused _
  | release name => exact acts_withBuffer fun p known => release_acts accounted known
  | pin name pinName =>
    refine acts_withBuffer fun p known => ?_
    split
    · exact acts_refused _
    · obtain ⟨t, ran, acts⟩ := pin_acts s task (.pin name pinName) pinName p
      rw [ran]
      exact acts _
  | unpin c pinName => exact acts_withPin fun p known => unpin_acts accounted known
  | dropPin pinName =>
    exact acts_withPin fun p _ =>
      acts_done _ ⟨fun _ => rfl, fun _ _ => id⟩ (fun _ _ => rfl) rfl
  | fill name byte => exact acts_withBuffer fun p _ => edit_acts p _
  | put name offset bytes =>
    refine acts_withBuffer fun p _ => ?_
    split
    · exact edit_acts p _
    · exact acts_refused _
  | bytes name | info name | record name | forget name =>
    exact acts_withBuffer fun p _ =>
      acts_done _ ⟨fun _ => rfl, fun _ _ => id⟩ (fun _ _ => rfl) rfl
  | pinInfo pinName =>
    exact acts_withPin fun p _ => acts_done _ (begins_refl s) (fun _ _ => rfl) rfl
  | isCached c b =>
    obtain ⟨t, ran, agrees⟩ := s.run_isCached task c b
    have traced := run_traced (Cache.isCached_ends (s.entry task c) b)
    rw [ran] at traced
    rw [advance, ran]
    exact acts_done _ (begins_traced traced rfl (valid_still agrees)) (fun _ => traced.cpu) agrees.asleep
  | audit c =>
    obtain ⟨t, ran, agrees⟩ := s.run_audit task c
    have traced := run_traced (Cache.audit_ends (s.entry task c))
    rw [ran] at traced
    rw [advance, ran, Pool.audit_intact (intact c)]
    exact acts_done _ (begins_traced traced rfl (valid_still agrees)) (fun _ => traced.cpu) agrees.asleep
  | moveTo core =>
    exact acts_done _ ⟨fun _ => rfl, fun _ _ => id⟩ False.elim rfl
  | setInterrupts on =>
    exact acts_done _ ⟨fun _ => rfl, fun _ _ => id⟩ False.elim rfl
  | capacity | setClock | disk =>
    exact acts_done _ ⟨fun _ => rfl, fun _ _ => id⟩ (fun _ _ => rfl) rfl
  | setFault c b on =>
    exact acts_done _ ⟨fun _ => rfl, fun p _ valid => by rwa [slot_setFault]⟩ (fun _ _ => rfl) rfl
  | setFaultFor c who b on =>
    exact acts_done _ ⟨fun _ => rfl, fun p _ valid => by rwa [slot_setFault]⟩ (fun _ _ => rfl) rfl

theorem Asks.own {x : Exchange n m} (asks : Asks s task x event) : x.task = task := by
  cases asks with
  | read direction own => exact own
  | write direction own known => exact own

theorem isAsleep_found {call : SleepingCall n m} (found : s.asleep.find? task = some call) :
    s.isAsleep task = true := by
  rw [isAsleep, Registry.contains, found]
  rfl

inductive Resumes (s : Machine n m) (x : Exchange n m) : Prop where
  | load {call : SleepingCall n m} (asleep : s.asleep.find? x.task = some call)
      (serves : x.Serves x.task call) : Resumes s x

structure Steps (s : Machine n m) (task : TaskId) (event : Event m) : Prop where
  transfers : ∀ c, (s.step task event).2.transfers c =
    ((s.exchanges task event).filter (·.place.cache = c)).map (·.transfer)
  proper : ∀ x ∈ s.exchanges task event, x.Proper
  cpu : ∀ x ∈ s.exchanges task event, x.machine.cpu x.task = s.cpu x.task
  cpus : ∀ who, who ≠ task → (s.step task event).2.cpu who = s.cpu who
  steady : event.Steady → ∀ who, (s.step task event).2.cpu who = s.cpu who
  source : ∀ x ∈ s.exchanges task event, Asks s task x event ∨ Resumes s x
  tags : ∀ x ∈ s.exchanges task event, x.machine.SameTags (s.step task event).2
  lasting : ∀ p, (s.slot p).SameTag ((s.step task event).2.slot p) → (s.slot p).valid = true →
    ((s.step task event).2.slot p).valid = true ∧
      ∀ x ∈ s.exchanges task event, (x.machine.slot p).valid = true
  loads : ∀ x ∈ s.exchanges task event, x.Loads → ((s.step task event).2.slot x.place).valid = true
  once : (s.exchanges task event).Pairwise fun x y => x.Loads → (y.machine.slot x.place).valid = true
  apart : (s.exchanges task event).Pairwise fun x y => x.task ≠ y.task
  halted : ∀ fault, (s.step task event).1.reply = .halted fault → Stops s task event fault ∨
    ∃ x ∈ s.exchanges task event, Asks s task x event ∧ x.failed = true ∧
      fault = .disk x.transfer.block
  woken : ∀ woken ∈ (s.step task event).1.woken, ∀ fault, woken.reply = .halted fault →
    ∃ x ∈ s.exchanges task event, x.task = woken.task ∧ x.failed = true ∧
      fault = .disk x.transfer.block
  sleepers : ∀ who call, (s.step task event).2.asleep.find? who = some call →
    s.asleep.find? who = some call ∨ who = task ∧ event = call.event

theorem Acts.others {xs : List (Exchange n m)} {ended : Reply × Machine n m}
    (acts : Acts s task event xs ended) {who : TaskId} (other : who ≠ task) :
    ended.2.asleep.find? who = s.asleep.find? who := by
  rcases acts.asleep with kept | ⟨call, _, slept, _⟩
  · rw [kept]
  · rw [slept, Registry.find?_put, if_neg (by simpa using other)]

theorem Acts.sleepers {xs : List (Exchange n m)} {ended : Reply × Machine n m}
    (acts : Acts s task event xs ended) {who : TaskId} {call : SleepingCall n m}
    (found : ended.2.asleep.find? who = some call) :
    s.asleep.find? who = some call ∨ who = task ∧ event = call.event := by
  rcases acts.asleep with kept | ⟨other, asked, slept, _⟩
  · exact .inl (kept ▸ found)
  · rw [slept, Registry.find?_put] at found
    split at found
    · rename_i same
      cases found
      exact .inr ⟨eq_of_beq same, asked⟩
    · exact .inl found

theorem stops_opened {fault : CacheFault} (stops : Stops s.opened task event fault) :
    Stops s task event fault := by
  cases stops with
  | read free uncached referenced => exact .read free uncached referenced
  | acquire free uncached referenced => exact .acquire free uncached referenced
  | write known foreign => exact .write known foreign
  | release known foreign => exact .release known foreign
  | unpin known foreign => exact .unpin known foreign

theorem asks_opened {x : Exchange n m} (asks : Asks s.opened task x event) : Asks s task x event := by
  cases asks with
  | read direction own => exact .read direction own
  | write direction own known => exact .write direction own known

theorem cpu_steady (acts : Acts s.opened task event (s.opened.advanceExchanges task event)
      (s.opened.advance task event)) (x : Exchange n m)
    (member : x ∈ s.opened.advanceExchanges task event ++ (s.opened.advance task event).2.wakeExchanges)
    (who : TaskId) : (s.opened.advance task event).2.cpu who = s.cpu who := by
  cases event with
  | moveTo core => cases member
  | setInterrupts on => cases member
  | _ => exact acts.cpu trivial who

theorem cpu_other (acts : Acts s.opened task event (s.opened.advanceExchanges task event)
      (s.opened.advance task event)) {who : TaskId} (other : who ≠ task) :
    (s.opened.advance task event).2.cpu who = s.cpu who := by
  have own : ∀ cpu, (s.setCpu task cpu).cpu who = s.cpu who := by
    intro cpu
    rw [Machine.cpu, setCpu, Registry.find?_put, if_neg (by simpa using other)]
    rfl
  cases event with
  | moveTo core => exact own _
  | setInterrupts on => exact own _
  | _ => exact acts.cpu trivial who

theorem steps_asleep (asleep : s.isAsleep task = true) (event : Event m) : Steps s task event := by
  have none : s.exchanges task event = [] := if_pos asleep
  have step := step_asleep asleep event
  refine ⟨?_, ?_, ?_, ?_, ?_, ?_, ?_, ?_, ?_, ?_, ?_, ?_, ?_, ?_⟩ <;> simp only [none, step]
  · exact fun _ => rfl
  · exact List.forall_mem_nil _
  · exact List.forall_mem_nil _
  · exact fun _ _ => rfl
  · exact fun _ _ => rfl
  · exact List.forall_mem_nil _
  · exact List.forall_mem_nil _
  · exact fun p _ valid => ⟨valid, List.forall_mem_nil _⟩
  · exact List.forall_mem_nil _
  · exact .nil
  · exact .nil
  · rintro _ ⟨⟩
  · exact List.forall_mem_nil _
  · exact fun _ _ => .inl

theorem steps_awake (awake : s.isAsleep task = false)
    (acts : Acts s.opened task event (s.opened.advanceExchanges task event) (s.opened.advance task event))
    (wakes : Wakes (s.opened.advance task event).2 (s.opened.advance task event).2.wakeExchanges
      (s.opened.advance task event).2.wake) : Steps s task event := by
  have made : s.exchanges task event = s.opened.advanceExchanges task event ++
      (s.opened.advance task event).2.wakeExchanges := if_neg (by simp [awake])
  have step := step_awake awake event
  obtain ⟨u, begins, passes⟩ := acts.begins
  have all := passes.trans wakes.passes
  refine ⟨?_, ?_, ?_, ?_, ?_, ?_, ?_, ?_, ?_, ?_, ?_, ?_, ?_, ?_⟩ <;> simp only [made, step]
  · intro c
    rw [all.transfers, begins.transfers]
    rfl
  · exact all.proper
  · intro x member
    rw [all.cpus x member, ← passes.cpu, cpu_steady acts x member]
  · intro who other
    rw [wakes.passes.cpu, cpu_other acts other]
  · intro steady who
    rw [wakes.passes.cpu, acts.cpu steady]
    rfl
  · intro x member
    rcases List.mem_append.mp member with own | other
    · exact .inl (asks_opened (acts.asks x own))
    · obtain ⟨call, found, serves⟩ := wakes.serves x other
      rcases acts.asleep with kept | ⟨_, _, _, nobody⟩
      · rw [kept] at found
        exact .inr (.load found serves)
      · rw [wakeExchanges, nobody] at other
        cases other
  · exact all.kept
  · intro p tag valid
    have before : (s.slot p).SameTag (u.slot p) := by
      have after := (all.tags p.cache).2 p.slot
      exact ⟨tag.1.trans after.1.symm, tag.2.trans after.2.symm⟩
    have begun := begins.valid p before valid
    exact ⟨all.valid p begun, fun x member => all.still x member p begun⟩
  · exact all.loads
  · exact all.once
  · -- A task that is awake is none of those whom it wakes.
    have own : (s.opened.advanceExchanges task event).Pairwise fun x y => x.task ≠ y.task := by
      match s.opened.advanceExchanges task event, acts.one with
      | [], _ => exact .nil
      | [x], _ => exact List.pairwise_singleton ..
    refine List.pairwise_append.mpr ⟨own, wakes.apart, fun x mine y other same => ?_⟩
    obtain ⟨call, found, -⟩ := wakes.serves y other
    rcases acts.asleep with kept | ⟨_, _, _, nobody⟩
    · rw [kept, ← same, (acts.asks x mine).own] at found
      exact absurd (awake.symm.trans (isAsleep_found found)) Bool.false_ne_true
    · rw [wakeExchanges, nobody] at other
      cases other
  · intro fault told
    rcases acts.halted fault told with stops | ⟨x, member, failed⟩
    · exact .inl (stops_opened stops)
    · exact .inr ⟨x, List.mem_append_left _ member, asks_opened (acts.asks x member), failed⟩
  · intro woken member fault told
    obtain ⟨x, made, failed⟩ := wakes.halted woken member fault told
    exact ⟨x, List.mem_append_right _ made, failed⟩
  · exact fun who call waits => acts.sleepers (wakes.asleep who call waits)

end Machine

namespace Account

variable {a : Account n m} {task : TaskId} {event : Event m}

theorem sound_opened (sound : Sound a) : Accounted ⟨a.machine.opened, a.ledger, [], []⟩ := by
  have opening : Move (fun _ => True) ⟨a.machine, a.ledger, [], []⟩ ⟨a.machine.opened, a.ledger, [], []⟩ :=
    .still (Agrees.mk rfl rfl rfl rfl : a.machine.opened.Agrees a.machine).still
  exact move_accounted opening sound.accounted

theorem sound_advance (sound : Sound a) (orderly : Orderly a task event)
    (awake : a.machine.isAsleep task = false) :
    Acts a.machine.opened task event (a.machine.opened.advanceExchanges task event)
        (a.machine.opened.advance task event) ∧
      Accounted ⟨(a.machine.opened.advance task event).2,
        a.ledger.note task event (a.machine.opened.advance task event).1, [], []⟩ := by
  obtain ⟨regular, room⟩ := orderly
  have begun := sound_opened sound
  have up : a.machine.asleep.find? task = none := by
    simpa [isAsleep, Registry.contains] using awake
  obtain ⟨_, advanced⟩ := follows_advance (fun _ => True) task begun up sound.intact event regular
    room fun _ _ _ _ _ _ => trivial
  exact ⟨advance_acts begun sound.intact rfl up event regular room, moves_accounted advanced begun⟩

theorem next_steps (sound : Sound a) (orderly : Orderly a task event) : Steps a.machine task event := by
  cases asleep : a.machine.isAsleep task with
  | true => exact steps_asleep asleep event
  | false =>
    obtain ⟨acts, accounted⟩ := sound_advance sound orderly asleep
    exact steps_awake asleep acts (wake_wakes accounted)

theorem acquire_exchanges (sound : Sound a) {c : Fin m} {b : BlockId} {name : String}
    (orderly : Orderly a task (.acquire c b name)) : a.machine.exchanges task (.acquire c b name) = [] := by
  cases asleep : a.machine.isAsleep task with
  | true => exact if_pos asleep
  | false =>
    have own : a.machine.opened.advanceExchanges task (.acquire c b name) = [] := by
      refine List.eq_nil_iff_forall_not_mem.mpr fun x member => ?_
      cases (sound_advance sound orderly asleep).1.asks x member
    have unreleasing := call_unreleasing (sound_opened sound) task c b name (sound.intact c)
      fun i free found => orderly.2 ⟨c, i⟩ (takes_call asleep free found).2
    have nobody : (a.machine.opened.advance task (.acquire c b name)).2.released? = none :=
      released?_none fun d i left => List.not_mem_nil (unreleasing d i left)
    rw [exchanges, if_neg (by simp [asleep]), own, wakeExchanges, nobody]
    rfl

end Account

end KernelResources.Buffer
