import KernelResources.Proofs.Lock.Handover

namespace KernelResources.SleepRoom

variable {n : Nat} {r after : SleepRoom n} {l : Ledger n} {task first : TaskId} {call : SleepingCall n}
  {lock : Fin n} {name : String} {rest : List TaskId}

structure Sound (r : SleepRoom n) (l : Ledger n) : Prop where
  named : ∀ name, r.guards.find? name = (l.guards.find? name).map (·.lock)
  distinct : l.guards.keys.Nodup
  waiting : ∀ task, l.waits.find? task = (r.asleep.find? task).map fun call => (call.lock, call.name)
  owned : ∀ lock : Fin n, l.guardsOf lock = (r.locks[lock].holder.map (Grasp.mk lock)).toList
  queueing : ∀ (lock : Fin n) (task : TaskId), task ∈ r.locks[lock].sleepers ↔
    ∃ call, r.asleep.find? task = some call ∧ call.lock = lock
  once : ∀ lock : Fin n, r.locks[lock].sleepers.Nodup
  attended : ∀ lock : Fin n, r.locks[lock].holder = none → r.locks[lock].sleepers = []
  order : ∀ lock : Fin n,
    Ledger.tasksAt l.queued lock = Ledger.tasksAt l.served lock ++ r.locks[lock].sleepers

theorem sound_start (names : Vector String n) : Sound (start names) .empty where
  named := fun _ => rfl
  distinct := .nil
  waiting := fun _ => rfl
  owned := by simp [start, SleepLock.named, Ledger.guardsOf, Ledger.undropped, Ledger.empty]
  queueing := by simp [start, SleepLock.named, Registry.find?]
  once := by simp [start, SleepLock.named]
  attended := by simp [start, SleepLock.named]
  order := by simp [start, SleepLock.named, Ledger.tasksAt, Ledger.empty]

theorem sole_of_perm {guards : List (Grasp n)} {holder : Option (Grasp n)}
    (perm : guards.Perm holder.toList) : guards = holder.toList := by
  cases holder with
  | none => exact perm.eq_nil
  | some grasp => exact List.perm_singleton.mp perm

theorem guardsOf_erase (sound : Sound r l) (known : r.guards.find? name = some lock) (other : Fin n) :
    { l with guards := l.guards.erase name }.guardsOf other =
      if lock = other then [] else l.guardsOf other := by
  rw [sound.named, Option.map_eq_some_iff] at known
  obtain ⟨grasp, known, rfl⟩ := known
  have before := Ledger.guardsOf_cons (l := { l with guards := l.guards.erase name }) l
    (Ledger.undropped_erase sound.distinct known) other
  have alone := sound.owned other
  split at before
  · rename_i here
    rw [if_pos here]
    have short : (l.guardsOf other).length ≤ 1 := by
      rw [alone]
      cases r.locks[other].holder <;> simp
    have longer := before.length_eq
    apply List.eq_nil_of_length_eq_zero
    simp only [List.singleton_append, List.length_cons] at longer
    omega
  · rename_i elsewhere
    rw [if_neg elsewhere]
    rw [List.nil_append, alone] at before
    rw [alone]
    exact sole_of_perm before.symm

theorem guardsOf_grant (distinct : l.guards.keys.Nodup) (name : String) (task : TaskId)
    {holder : Option TaskId} {other : Fin n}
    (owned : l.guardsOf other = (holder.map (Grasp.mk other)).toList)
    (free : lock = other → holder = none) :
    (l.grant name ⟨lock, task⟩).guardsOf other =
      ((if lock = other then some task else holder).map (Grasp.mk other)).toList := by
  apply sole_of_perm
  refine (Ledger.guardsOf_cons _ (Ledger.undropped_grant distinct name ⟨lock, task⟩) other).trans ?_
  by_cases here : lock = other
  · simp [owned, free here, here]
  · simp [owned, here]

theorem Sound.wakeless (sound : Sound r l) {more : Ledger n} (asleep : after.asleep = r.asleep)
    (sleepers : ∀ lock : Fin n, after.locks[lock].sleepers = r.locks[lock].sleepers)
    (waits : more.waits = l.waits) (queued : more.queued = l.queued) (served : more.served = l.served)
    (named : ∀ name, after.guards.find? name = (more.guards.find? name).map (·.lock))
    (distinct : more.guards.keys.Nodup)
    (owned : ∀ lock : Fin n, more.guardsOf lock = (after.locks[lock].holder.map (Grasp.mk lock)).toList)
    (attended : ∀ lock : Fin n, after.locks[lock].holder = none → r.locks[lock].sleepers = []) :
    Sound after more where
  named := named
  distinct := distinct
  waiting := by
    rw [waits, asleep]
    exact sound.waiting
  owned := owned
  queueing := by
    intro lock task
    rw [sleepers, asleep]
    exact sound.queueing lock task
  once := by
    intro lock
    rw [sleepers]
    exact sound.once lock
  attended := by
    intro lock vacant
    rw [sleepers]
    exact attended lock vacant
  order := by
    intro lock
    rw [sleepers, queued, served]
    exact sound.order lock

theorem sound_occupied (sound : Sound r l) (call : SleepingCall n)
    (free : r.locks[call.lock].holder = none) (task : TaskId) :
    Sound (r.occupied task call) (l.grant call.name ⟨call.lock, task⟩) := by
  have changed : ∀ other : Fin n, (r.occupied task call).locks[other] =
      if call.lock = other then { r.locks[call.lock] with
        holder := some task, data := r.locks[call.lock].data ++ call.suffix } else r.locks[other] :=
    fun _ => entry_set ..
  refine sound.wakeless rfl ?_ (Ledger.waits_grant ..) (Ledger.queued_grant ..) (Ledger.served_grant ..)
    ?_ (Ledger.distinct_grant sound.distinct ..) ?_ ?_
  · intro other
    rw [changed]
    split
    · rename_i here
      rw [← here]
    · rfl
  · intro name
    rw [Ledger.find?_grant, occupied, Registry.find?_put, sound.named]
    split <;> rfl
  · intro other
    rw [guardsOf_grant sound.distinct _ _ (sound.owned other) (by rintro rfl; exact free), changed]
    split <;> rfl
  · intro other vacant
    apply sound.attended
    rw [changed] at vacant
    split at vacant
    · cases vacant
    · exact vacant

theorem find?_erased (sound : Sound r l) (name other : String) :
    (r.guards.erase name).find? other = ((l.guards.erase name).find? other).map (·.lock) := by
  rw [Registry.find?_erase, Registry.find?_erase, sound.named]
  split <;> rfl

theorem sound_vacated (sound : Sound r l) (known : r.guards.find? name = some lock)
    (quiet : r.locks[lock].sleepers = []) :
    Sound (vacated { r with guards := r.guards.erase name } lock)
      { l with guards := l.guards.erase name } := by
  have changed := vacated_entry { r with guards := r.guards.erase name } lock
  refine sound.wakeless rfl ?_ rfl rfl rfl (find?_erased sound name)
    (Registry.nodup_erase sound.distinct name) ?_ ?_
  · intro other
    rw [changed]
    split
    · rename_i here
      rw [← here]
      rfl
    · rfl
  · intro other
    rw [guardsOf_erase sound known, changed]
    split
    · rfl
    · exact sound.owned other
  · intro other vacant
    rw [changed] at vacant
    split at vacant
    · rename_i here
      rw [← here]
      exact quiet
    · exact sound.attended other vacant

theorem sound_forgotten (sound : Sound r l) (name : String) :
    Sound { r with guards := r.guards.erase name } (l.lose name) := by
  refine sound.wakeless rfl (fun _ => rfl) (Ledger.waits_lose ..) (Ledger.queued_lose ..)
    (Ledger.served_lose ..) ?_ (Ledger.distinct_lose sound.distinct name) ?_ sound.attended
  · intro other
    rw [Registry.find?_erase, Ledger.find?_lose, sound.named]
    split <;> rfl
  · intro lock
    apply sole_of_perm
    rw [← sound.owned]
    exact (Ledger.undropped_lose sound.distinct name).filter _

theorem sound_rewritten (sound : Sound r l) (lock : Fin n) (data : String) :
    Sound (r.update lock (·.setData data)) l := by
  have changed : ∀ other : Fin n, (r.update lock (·.setData data)).locks[other] =
      if lock = other then r.locks[lock].setData data else r.locks[other] :=
    fun _ => entry_set ..
  have holders : ∀ other : Fin n,
      (r.update lock (·.setData data)).locks[other].holder = r.locks[other].holder := by
    intro other
    rw [changed]
    split
    · rename_i here
      rw [← here]
      rfl
    · rfl
  refine sound.wakeless rfl ?_ rfl rfl rfl sound.named sound.distinct ?_ ?_
  · intro other
    rw [changed]
    split
    · rename_i here
      rw [← here]
      rfl
    · rfl
  · intro other
    rw [holders]
    exact sound.owned other
  · intro other vacant
    rw [holders] at vacant
    exact sound.attended other vacant

theorem sound_joined (sound : Sound r l) {holder : TaskId} (awake : r.asleep.find? task = none)
    (held : r.locks[call.lock].holder = some holder) :
    Sound (r.joined task call)
      { l with
        waits := l.waits.put task (call.lock, call.name)
        queued := l.queued ++ [Grasp.mk call.lock task] } := by
  have changed : ∀ other : Fin n, (r.joined task call).locks[other] =
      if call.lock = other then { r.locks[call.lock] with
        sleepers := r.locks[call.lock].sleepers ++ [task] } else r.locks[other] :=
    fun _ => entry_set ..
  have nowhere : ∀ other : Fin n, task ∉ r.locks[other].sleepers := by
    intro other member
    obtain ⟨call, found, _⟩ := (sound.queueing other task).mp member
    rw [awake] at found
    cases found
  have holders : ∀ other : Fin n, (r.joined task call).locks[other].holder = r.locks[other].holder := by
    intro other
    rw [changed]
    split
    · rename_i here
      rw [← here]
    · rfl
  exact {
    named := sound.named
    distinct := sound.distinct
    waiting := by
      intro other
      simp only [joined, Registry.find?_put, sound.waiting]
      split <;> rfl
    owned := by
      intro other
      rw [holders]
      exact sound.owned other
    queueing := by
      intro other who
      rw [changed, joined, Registry.find?_put]
      by_cases same : who = task
      · subst same
        by_cases here : call.lock = other
        · simp [here]
        · simp [here, nowhere]
      · have unlike : (who == task) = false := by simpa using same
        rw [unlike, if_neg Bool.false_ne_true, ← sound.queueing]
        split
        · rename_i here
          simp [← here, same]
        · rfl
    once := by
      intro other
      rw [changed]
      split
      · exact List.nodup_append.mpr ⟨sound.once _, List.nodup_singleton _, by
          rintro who member other added rfl
          rw [List.mem_singleton] at added
          exact nowhere _ (added ▸ member)⟩
      · exact sound.once other
    attended := by
      intro other vacant
      rw [holders] at vacant
      rw [changed]
      split
      · rename_i here
        rw [← here, held] at vacant
        cases vacant
      · exact sound.attended other vacant
    order := by
      intro other
      rw [changed, Ledger.tasksAt_append, Ledger.tasksAt_single, sound.order]
      by_cases here : call.lock = other
      · simp [here]
      · simp [here] }

theorem guardsOf_passed (sound : Sound r l) (known : r.guards.find? name = some lock)
    (successor : String) (first : TaskId) (other : Fin n) :
    (Ledger.grant { l with guards := l.guards.erase name } successor ⟨lock, first⟩).guardsOf other =
      ((if lock = other then some first else r.locks[other].holder).map (Grasp.mk other)).toList := by
  have owned : ({ l with guards := l.guards.erase name } : Ledger n).guardsOf other =
      ((if lock = other then none else r.locks[other].holder).map (Grasp.mk other)).toList := by
    rw [guardsOf_erase sound known other, sound.owned]
    split <;> rfl
  rw [guardsOf_grant (Registry.nodup_erase sound.distinct name) successor first owned fun here => if_pos here]
  split <;> rfl

theorem sound_passed (sound : Sound r l) (known : r.guards.find? name = some call.lock)
    (sleeping : r.locks[call.lock].sleepers = first :: rest) (found : r.asleep.find? first = some call)
    (passed : Passed { r with guards := r.guards.erase name } after first rest call) :
    Sound after
      { Ledger.grant { l with guards := l.guards.erase name } call.name ⟨call.lock, first⟩ with
        waits := l.waits.erase first
        served := l.served ++ [Grasp.mk call.lock first] } := by
  have distinct : { l with guards := l.guards.erase name }.guards.keys.Nodup :=
    Registry.nodup_erase sound.distinct name
  have fresh : first ∉ rest ∧ rest.Nodup := by
    have once := sound.once call.lock
    rw [sleeping] at once
    exact List.nodup_cons.mp once
  have apart : ∀ other : Fin n, call.lock ≠ other → after.locks[other] = r.locks[other] := passed.apart
  exact {
    named := by
      intro other
      rw [passed.guards, Registry.find?_put, Ledger.find?_grant, find?_erased sound]
      split <;> rfl
    distinct := Ledger.distinct_grant distinct ..
    waiting := by
      intro task
      rw [passed.asleep, Registry.find?_erase, sound.waiting]
      by_cases same : task = first <;> simp [same]
    owned := by
      intro other
      refine (guardsOf_passed sound known call.name first other).trans ?_
      by_cases here : call.lock = other
      · subst here
        rw [if_pos rfl, passed.here]
      · rw [if_neg here, apart other here]
    queueing := by
      intro other task
      rw [passed.asleep]
      have before := sound.queueing other task
      by_cases here : call.lock = other
      · subst here
        rw [sleeping, List.mem_cons] at before
        rw [passed.here]
        by_cases same : task = first
        · simp [same, fresh.1]
        · simpa [same] using before
      · rw [apart other here]
        by_cases same : task = first
        · subst same
          rw [if_pos rfl, before, found]
          simpa using here
        · simpa [same] using before
    once := by
      intro other
      by_cases here : call.lock = other
      · subst here
        rw [passed.here]
        exact fresh.2
      · rw [apart other here]
        exact sound.once other
    attended := by
      intro other vacant
      by_cases here : call.lock = other
      · subst here
        rw [passed.here] at vacant
        cases vacant
      · rw [apart other here] at vacant ⊢
        exact sound.attended other vacant
    order := by
      intro other
      rw [Ledger.queued_grant, Ledger.tasksAt_append, Ledger.tasksAt_single]
      refine (sound.order other).trans ?_
      by_cases here : call.lock = other
      · subst here
        simp [passed.here, sleeping]
      · simp [here, apart other here] }

theorem Sound.dropped (sound : Sound r l) (known : r.guards.find? name = some lock) :
    ∃ after, leave { r with guards := r.guards.erase name } lock = (handed r.locks[lock].sleepers, after) ∧
      after.locks[lock].holder = r.locks[lock].sleepers.head? ∧
      after.locks[lock].sleepers = r.locks[lock].sleepers.tail ∧
      (∀ other : Fin n, lock ≠ other → after.locks[other] = r.locks[other]) ∧
      ∀ task, Sound after (l.record task (.drop name) (.done .unit) (handed r.locks[lock].sleepers)) := by
  cases sleeping : r.locks[lock].sleepers with
  | nil =>
    have changed := vacated_entry { r with guards := r.guards.erase name } lock
    refine ⟨_, leave_quiet sleeping, ?_, ?_, ?_, fun _ => sound_vacated sound known sleeping⟩
    · rw [changed, if_pos rfl]
      rfl
    · rw [changed, if_pos rfl]
      exact sleeping
    · intro other elsewhere
      rw [changed, if_neg elsewhere]
  | cons first rest =>
    have once := sound.once lock
    rw [sleeping] at once
    obtain ⟨call, after, found, rfl, left, passed⟩ :=
      leave_handed (r := { r with guards := r.guards.erase name }) sleeping (List.nodup_cons.mp once).1 (by
        rw [← sleeping]
        exact fun task => (sound.queueing lock task).mp)
    refine ⟨after, left, by rw [passed.here]; rfl, by rw [passed.here]; rfl, passed.apart, fun task => ?_⟩
    have known := sound_passed sound known sleeping found passed
    have waits : l.waits.find? first = some (call.lock, call.name) := by
      rw [sound.waiting, found]
      rfl
    simpa only [Ledger.record, Ledger.note, handed, Ledger.resume, waits, Ledger.resume_asleep] using known

theorem Sound.stepped (sound : Sound r l) {event : Event n} {reply : Reply} {woken : List (TaskId × Bool)}
    (step : Stepped r task event reply woken after) : Sound after (l.record task event reply woken) := by
  cases step with
  | takes unused free => exact sound_occupied sound _ free task
  | waits awake held => exact sound_joined sound awake held
  | obtains unused free => exact sound_occupied sound ⟨_, _, ""⟩ free task
  | drops known =>
    obtain ⟨after, left, _, _, _, kept⟩ := sound.dropped known
    rw [left]
    exact kept task
  | forgets known => exact sound_forgotten sound _
  | rewrites data about unheard =>
    rw [Ledger.record, unheard]
    exact sound_rewritten sound _ data
  | stays unheard =>
    rw [Ledger.record, unheard]
    exact sound

theorem Sound.apart (sound : Sound r l) {event : Event n} {reply : Reply} {woken : List (TaskId × Bool)}
    (step : Stepped r task event reply woken after) {other : Fin n}
    (elsewhere : r.subject event ≠ some other) : after.locks[other] = r.locks[other] := by
  cases step with
  | takes => exact (entry_set ..).trans (if_neg (by rintro rfl; exact elsewhere rfl))
  | waits => exact (entry_set ..).trans (if_neg (by rintro rfl; exact elsewhere rfl))
  | obtains => exact (entry_set ..).trans (if_neg (by rintro rfl; exact elsewhere rfl))
  | drops known =>
    obtain ⟨after, left, _, _, apart, _⟩ := sound.dropped known
    rw [left]
    exact apart other (by rintro rfl; exact elsewhere known)
  | forgets => rfl
  | rewrites data about => exact (entry_set ..).trans (if_neg (by rintro rfl; exact elsewhere about))
  | stays => rfl

namespace Account

theorem run_sound {names : Vector String n} {a : Account n} (run : Run (.start names) a) :
    Sound a.room a.ledger := by
  induction run with
  | refl => exact sound_start names
  | step task event _ ih => exact ih.stepped (step_stepped ..)

structure Exclusive (a : Account n) : Prop where
  held : ∀ (lock : Fin n) (task : TaskId),
    a.room.locks[lock].holder = some task ↔ a.ledger.guardsOf lock = [⟨lock, task⟩]
  free : ∀ lock : Fin n, a.room.locks[lock].holder = none ↔ a.ledger.guardsOf lock = []

structure Attended (a : Account n) : Prop where
  asleep : ∀ task call, a.room.asleep.find? task = some call →
    task ∈ a.room.locks[call.lock].sleepers ∧ ∃ holder, a.room.locks[call.lock].holder = some holder
  queued : ∀ (lock : Fin n) (task : TaskId), task ∈ a.room.locks[lock].sleepers →
    ∃ call, a.room.asleep.find? task = some call ∧ call.lock = lock

-- A lock goes to those who wait for it in the order in which they fell asleep.
structure InTurn (a : Account n) : Prop where
  order : ∀ lock : Fin n, Ledger.tasksAt a.ledger.queued lock =
    Ledger.tasksAt a.ledger.served lock ++ a.room.locks[lock].sleepers
  handed : ∀ task name lock, a.room.isAsleep task = false → a.room.guards.find? name = some lock →
    (a.room.step task (.drop name)).2.1 = handed a.room.locks[lock].sleepers ∧
    (a.next task (.drop name)).room.locks[lock].holder = a.room.locks[lock].sleepers.head? ∧
    (a.next task (.drop name)).room.locks[lock].sleepers = a.room.locks[lock].sleepers.tail
  undisturbed : ∀ task event, (∀ name, event ≠ .drop name) → (a.room.step task event).2.1 = []
  behind : ∀ (task : TaskId) (lock : Fin n) (name suffix : String), a.room.locks[lock].sleepers ≠ [] →
    (a.room.step task (.lock lock name suffix)).1 ≠ .done .unit ∧
    (a.room.step task (.tryLock lock name)).1 ≠ .done (.flag true)

structure Separate (a : Account n) : Prop where
  tried : ∀ (task : TaskId) (lock : Fin n) (name : String), a.room.isAsleep task = false →
    a.room.guards.find? name = none →
    (a.room.step task (.tryLock lock name)).1 = .done (.flag a.room.locks[lock].holder.isNone) ∧
    (a.next task (.tryLock lock name)).room.locks[lock].holder =
      some (a.room.locks[lock].holder.getD task)
  apart : ∀ (task : TaskId) (event : Event n) (other : Fin n), a.room.subject event ≠ some other →
    (a.next task event).room.locks[other] = a.room.locks[other]

variable {a : Account n}

theorem exclusive (sound : Sound a.room a.ledger) : Exclusive a where
  held := by
    intro lock task
    rw [sound.owned]
    cases a.room.locks[lock].holder <;> simp
  free := by
    intro lock
    rw [sound.owned]
    cases a.room.locks[lock].holder <;> simp

theorem attended (sound : Sound a.room a.ledger) : Attended a where
  asleep := by
    intro task call found
    have member := (sound.queueing call.lock task).mpr ⟨call, found, rfl⟩
    refine ⟨member, Option.ne_none_iff_exists'.mp fun free => ?_⟩
    rw [sound.attended call.lock free] at member
    cases member
  queued := fun lock task => (sound.queueing lock task).mp

theorem step_drop {task : TaskId} {name : String} {lock : Fin n} (awake : r.isAsleep task = false)
    (known : r.guards.find? name = some lock) :
    r.step task (.drop name) =
      (.done .unit, leave { r with guards := r.guards.erase name } lock) := by
  simp [step, awake, advance, withGuard, known]

theorem step_lock_held {task holder : TaskId} {lock : Fin n} {name suffix : String}
    (held : r.locks[lock].holder = some holder) :
    (r.step task (.lock lock name suffix)).1 ≠ .done .unit := by
  unfold step
  split
  · rintro ⟨⟩
  · simp only [advance, enter_held ⟨lock, name, suffix⟩ held]
    split <;> rintro ⟨⟩

theorem step_tryLock_held {task holder : TaskId} {lock : Fin n} {name : String}
    (held : r.locks[lock].holder = some holder) :
    (r.step task (.tryLock lock name)).1 ≠ .done (.flag true) := by
  unfold step
  split
  · rintro ⟨⟩
  · simp only [advance, SleepLock.tryLock, held]
    split <;> rintro ⟨⟩

theorem inTurn (sound : Sound a.room a.ledger) : InTurn a where
  order := sound.order
  handed := by
    intro task name lock awake known
    obtain ⟨after, left, holder, sleepers, _⟩ := sound.dropped known
    rw [next, step_drop awake known, left]
    exact ⟨rfl, holder, sleepers⟩
  undisturbed := by
    intro task event other
    have stepped := step_stepped a.room task event
    generalize (a.room.step task event).1 = reply, (a.room.step task event).2.1 = woken,
      (a.room.step task event).2.2 = after at stepped ⊢
    cases stepped with
    | drops => exact absurd rfl (other _)
    | takes | waits | obtains | forgets | rewrites | stays => rfl
  behind := by
    intro task lock name suffix sleeping
    obtain ⟨holder, held⟩ := Option.ne_none_iff_exists'.mp fun free => sleeping (sound.attended lock free)
    exact ⟨step_lock_held held, step_tryLock_held held⟩

theorem separate (sound : Sound a.room a.ledger) : Separate a where
  tried := by
    intro task lock name awake unused
    cases held : a.room.locks[lock].holder with
    | none => simp [next, step, awake, advance, unused, SleepLock.tryLock, held]
    | some holder => simp [next, step, awake, advance, unused, SleepLock.tryLock, held]
  apart := fun _ _ _ elsewhere => sound.apart (step_stepped ..) elsewhere

-- After any steps of any tasks in any order.
theorem first_come_first_served {names : Vector String n} {a : Account n} (run : Run (.start names) a) :
    Exclusive a ∧ Attended a ∧ InTurn a ∧ Separate a :=
  have sound := run_sound run
  ⟨exclusive sound, attended sound, inTurn sound, separate sound⟩

def crowded : Account 2 :=
  ((((start #v["left", "right"]).next ⟨1⟩ (.lock 0 "a" "")).next ⟨2⟩ (.lock 0 "b" "")).next ⟨3⟩
    (.lock 0 "c" "")).next ⟨4⟩ (.tryLock 1 "d")

theorem crowded_in_turn : Run (.start #v["left", "right"]) (crowded.next ⟨4⟩ (.drop "a")) ∧
    (Exclusive (crowded.next ⟨4⟩ (.drop "a")) ∧ Attended (crowded.next ⟨4⟩ (.drop "a")) ∧
      InTurn (crowded.next ⟨4⟩ (.drop "a")) ∧ Separate (crowded.next ⟨4⟩ (.drop "a"))) ∧
    (crowded.room.step ⟨4⟩ (.drop "a")).2.1 = [(⟨2⟩, true), (⟨3⟩, false)] ∧
    (crowded.next ⟨4⟩ (.drop "a")).ledger.guardsOf 0 = [⟨0, ⟨2⟩⟩] ∧
    (crowded.next ⟨4⟩ (.drop "a")).ledger.guardsOf 1 = [⟨1, ⟨4⟩⟩] ∧
    (crowded.next ⟨4⟩ (.drop "a")).room.blocked = [⟨3⟩] := by
  have run : Run (.start #v["left", "right"]) (crowded.next ⟨4⟩ (.drop "a")) :=
    ((((Run.refl.step _ _).step _ _).step _ _).step _ _).step _ _
  refine ⟨run, first_come_first_served run, ?_, ?_, ?_, ?_⟩
  · decide +kernel
  · decide +kernel
  · decide +kernel
  · decide +kernel

end Account

end KernelResources.SleepRoom
