import KernelResources.Proofs.Lock.WakeupSteps
import Mathlib.Logic.Relation

-- Nobody sleeps through the release it waits for. A task that waits has noted a generation while the lock
-- was held, and whoever gives the lock up moves the generation after it has cleared the holder, so that
-- the one or the other sees what was done. The mutex orders the two.

namespace KernelResources.Wakeup.State

variable {Task Lock : Type} {s next : State Task Lock} {t u : Task} {l : Lock}

theorem Stepped.same (stepped : Stepped s t next) {α : Type} (look : Phase Lock → α)
    (deaf : ∀ phase, look phase.notify = look phase) (other : u ≠ t) :
    look (next.phase u) = look (s.phase u) := by
  rcases stepped.others u other with same | notified
  · rw [same]
  · rw [notified, deaf]

theorem Stepped.was (stepped : Stepped s t next) {phase : Phase Lock}
    (other : u ≠ t) (now : next.phase u = phase) (unheard : ∀ l seen, phase ≠ .waiting l seen true) :
    s.phase u = phase := by
  rcases stepped.others u other with same | notified
  · exact same.symm.trans now
  · rw [notified] at now
    cases before : s.phase u with
    | waiting l seen _ =>
      rw [before] at now
      exact absurd now.symm (unheard l seen)
    | _ =>
      rw [before] at now
      exact now

theorem Stepped.has (stepped : Stepped s t next) (other : u ≠ t) (r : Resource Lock) :
    (next.phase u).Has r ↔ (s.phase u).Has r :=
  iff_of_eq (stepped.same (·.Has r) (by intro phase; cases phase <;> rfl) other)

theorem Stepped.keeps (stepped : Stepped s t next) (other : u ≠ t) :
    (next.phase u).keeps? = (s.phase u).keeps? :=
  stepped.same _ (by intro phase; cases phase <;> rfl) other

theorem Stepped.clears (stepped : Stepped s t next) (other : u ≠ t) :
    (next.phase u).clears? = (s.phase u).clears? :=
  stepped.same _ (by intro phase; cases phase <;> rfl) other

theorem Stepped.told (stepped : Stepped s t next) (other : u ≠ t) :
    (next.phase u).tells? = (s.phase u).tells? :=
  stepped.same _ (by intro phase; cases phase <;> rfl) other

theorem Stepped.recalled (stepped : Stepped s t next) (other : u ≠ t) :
    (next.phase u).recalls? = (s.phase u).recalls? :=
  stepped.same _ (by intro phase; cases phase <;> rfl) other

def Owned (s : State Task Lock) : Prop := ∀ r t, s.owner r = some t ↔ (s.phase t).Has r

theorem Stepped.owned (stepped : Stepped s t next) (owned : Owned s) : Owned next := by
  intro r u
  have before := owned r u
  have mine := owned r t
  by_cases own : u = t
  · subst own
    rcases stepped.owners r with ⟨owner, has⟩ | ⟨_, owner, has⟩ | ⟨_, owner, has⟩
    · rw [owner, has]
      exact before
    · simp [owner, has]
    · simp [owner, has]
  · rw [stepped.has own]
    rcases stepped.owners r with ⟨owner, _⟩ | ⟨free, owner, _⟩ | ⟨had, owner, _⟩
    · rw [owner]
      exact before
    · rw [free] at before
      simpa [owner, Ne.symm own] using before
    · rw [mine.mpr had] at before
      simpa [owner, Ne.symm own] using before

theorem Owned.sole (owned : Owned s) {r : Resource Lock} (hasT : (s.phase t).Has r)
    (hasU : (s.phase u).Has r) : t = u :=
  Option.some.inj (((owned r t).mpr hasT).symm.trans ((owned r u).mpr hasU))

-- Who has the lock, from when it is taken until the holder is cleared: a task that has just taken it or is
-- about to give it up, or in between the guard, with whichever task it is.
inductive With (s : State Task Lock) (l : Lock) : Option Task → Prop where
  | task {t : Task} (keeps : (s.phase t).keeps? = some l) : With s l (some t)
  | guard (about : s.guarded l = true) : With s l none

structure Exclusive (s : State Task Lock) (l : Lock) : Prop where
  one : ∀ x y, s.With l x → s.With l y → x = y
  held : s.holder l = none ↔ ∀ x, ¬s.With l x

theorem with_task : s.With l (some t) ↔ (s.phase t).keeps? = some l :=
  ⟨by rintro ⟨⟩; assumption, .task⟩

theorem with_guard : s.With l none ↔ s.guarded l = true := ⟨by rintro ⟨⟩; assumption, .guard⟩

theorem exclusive_nobody (free : s.holder l = none) (nobody : ∀ x, ¬s.With l x) : Exclusive s l :=
  ⟨fun x _ has => absurd has (nobody x), fun _ => nobody, fun _ => free⟩

theorem exclusive_only {x : Option Task} (taken : s.holder l ≠ none) (has : s.With l x)
    (only : ∀ y, s.With l y → y = x) : Exclusive s l :=
  ⟨fun y z hasY hasZ => (only y hasY).trans (only z hasZ).symm, fun free => absurd free taken,
    fun nobody => absurd has (nobody x)⟩

theorem Exclusive.taken (exclusive : Exclusive s l) {x : Option Task} (has : s.With l x) :
    s.holder l ≠ none := fun free => exclusive.held.mp free x has

theorem Exclusive.passes (exclusive : Exclusive s l) {x y : Option Task} (had : s.With l x)
    (holder : next.holder l = s.holder l) (has : next.With l y)
    (only : ∀ z, next.With l z → z = y ∨ z ≠ x ∧ s.With l z) : Exclusive next l := by
  refine exclusive_only (holder ▸ exclusive.taken had) has fun z hasZ => ?_
  rcases only z hasZ with same | ⟨other, before⟩
  · exact same
  · exact absurd (exclusive.one _ _ before had) other

theorem Stepped.with_other (stepped : Stepped s t next) (other : u ≠ t) :
    next.With l (some u) ↔ s.With l (some u) := by
  rw [with_task, with_task, stepped.keeps other]

theorem Stepped.exclusive (stepped : Stepped s t next) (exclusive : Exclusive s l) :
    Exclusive next l := by
  have own : ∀ u, next.With l (some u) → u = t ∨ u ≠ t ∧ s.With l (some u) := by
    intro u has
    by_cases own : u = t
    · exact .inl own
    · exact .inr ⟨own, (stepped.with_other own).mp has⟩
  rcases stepped.locks l with ⟨holder, guarded, keeps⟩ | ⟨free, holder, guarded, taken⟩ |
    ⟨taken, holder, guarded, left⟩ | ⟨about, holder, guarded, leaving⟩ |
    ⟨clearing, holder, guarded, cleared⟩
  · have same : ∀ x, next.With l x ↔ s.With l x := by
      intro x
      cases x with
      | none => rw [with_guard, with_guard, guarded]
      | some u =>
        by_cases own : u = t
        · rw [with_task, with_task, own, keeps]
        · exact stepped.with_other own
    refine ⟨?_, ?_⟩
    · intro x y hasX hasY
      exact exclusive.one x y ((same x).mp hasX) ((same y).mp hasY)
    · rw [holder, exclusive.held]
      exact forall_congr' fun x => not_congr (same x).symm
  · -- Taken from nobody.
    have nobody := exclusive.held.mp free
    refine exclusive_only (x := some t) (by simp [holder]) (.task (by rw [taken]; rfl)) ?_
    rintro (_ | u) has
    · rw [with_guard, guarded] at has
      exact absurd (.guard has) (nobody none)
    · rcases own u has with rfl | ⟨_, before⟩
      · rfl
      · exact absurd before (nobody _)
  · -- From the task to the guard.
    refine exclusive.passes (x := some t) (.task (by rw [taken]; rfl)) holder (.guard guarded) ?_
    rintro (_ | u) has
    · exact .inl rfl
    · rcases own u has with rfl | ⟨other, before⟩
      · rw [with_task, left] at has
        cases has
      · exact .inr ⟨fun same => other (Option.some.inj same), before⟩
  · -- From the guard to the task that drops it.
    refine exclusive.passes (.guard about) holder (y := some t) (.task (by rw [leaving]; rfl)) ?_
    rintro (_ | u) has
    · rw [with_guard, guarded] at has
      cases has
    · rcases own u has with rfl | ⟨_, before⟩
      · exact .inl rfl
      · exact .inr ⟨nofun, before⟩
  · -- Back to nobody.
    have had : s.With l (some t) := .task (by rw [clearing]; rfl)
    refine exclusive_nobody holder ?_
    rintro (_ | u) has
    · rw [with_guard, guarded] at has
      cases exclusive.one _ _ (.guard has) had
    · rcases own u has with rfl | ⟨other, before⟩
      · rw [with_task, cleared] at has
        cases has
      · exact other (Option.some.inj (exclusive.one _ _ before had))

-- Whoever has noted the generation that the lock still has is waited upon by somebody: the lock is held,
-- or a task that has cleared the holder has still to move the generation.
structure Awaited (s : State Task Lock) : Prop where
  queued : ∀ t l, s.phase t = .queueing l → s.holder l ≠ none
  bounded : ∀ t l seen, (s.phase t).recalls? = some (l, seen) → seen ≤ s.generation l
  current : ∀ t l seen, (s.phase t).recalls? = some (l, seen) → seen = s.generation l →
    s.holder l ≠ none ∨ ∃ u, (s.phase u).clears? = some l

theorem Stepped.held (stepped : Stepped s t next) (held : s.holder l ≠ none) :
    next.holder l ≠ none ∨ s.phase t = .clearing l ∧ next.phase t = .cleared l := by
  rcases stepped.locks l with ⟨holder, _⟩ | ⟨_, holder, _⟩ | ⟨_, holder, _⟩ | ⟨_, holder, _⟩ |
    ⟨clearing, _, _, cleared⟩
  · exact .inl (holder ▸ held)
  · exact .inl (by simp [holder])
  · exact .inl (holder ▸ held)
  · exact .inl (holder ▸ held)
  · exact .inr ⟨clearing, cleared⟩

theorem Stepped.pending (stepped : Stepped s t next) (still : next.generation l = s.generation l)
    (pending : s.holder l ≠ none ∨ ∃ u, (s.phase u).clears? = some l) :
    next.holder l ≠ none ∨ ∃ u, (next.phase u).clears? = some l := by
  rcases pending with held | ⟨u, clears⟩
  · rcases stepped.held held with kept | ⟨_, cleared⟩
    · exact .inl kept
    · exact .inr ⟨t, by rw [cleared]; rfl⟩
  · by_cases own : u = t
    · subst own
      rcases stepped.generations l with ⟨_, kept⟩ | ⟨_, _, moved⟩
      · exact .inr ⟨u, kept clears⟩
      · omega
    · exact .inr ⟨u, (stepped.clears own).trans clears⟩

theorem Stepped.generation_le (stepped : Stepped s t next) (l : Lock) :
    s.generation l ≤ next.generation l := by
  rcases stepped.generations l with ⟨still, _⟩ | ⟨_, _, moved⟩ <;> omega

theorem Stepped.noted (stepped : Stepped s t next) {seen : Nat}
    (recalls : (next.phase u).recalls? = some (l, seen)) :
    (s.phase u).recalls? = some (l, seen) ∨
      u = t ∧ s.phase u = .queueing l ∧ seen = s.generation l ∧ next.holder l = s.holder l := by
  by_cases own : u = t
  · subst own
    rcases stepped.recalls l seen recalls with before | noted
    · exact .inl before
    · exact .inr ⟨rfl, noted⟩
  · exact .inl ((stepped.recalled own).symm.trans recalls)

theorem Stepped.awaited (stepped : Stepped s t next) (owned : Owned s) (awaited : Awaited s) :
    Awaited next := by
  refine ⟨?_, ?_, ?_⟩
  · intro u l queueing
    by_cases own : u = t
    · subst own
      obtain ⟨held, kept⟩ := stepped.queues l queueing
      rw [kept]
      exact held
    · have before := stepped.was own queueing nofun
      rcases stepped.held (awaited.queued u l before) with kept | ⟨clearing, _⟩
      · exact kept
      · -- The record of the lock is with the task that queues, so nobody else can clear it.
        have hasU : (s.phase u).Has (.record l) := by rw [before]; rfl
        have hasT : (s.phase t).Has (.record l) := by rw [clearing]; rfl
        exact absurd (owned.sole hasU hasT) own
  · intro u l seen recalls
    have grown := stepped.generation_le l
    rcases stepped.noted recalls with before | ⟨_, _, rfl, _⟩
    · exact Nat.le_trans (awaited.bounded u l seen before) grown
    · exact grown
  · intro u l seen recalls now
    have grown := stepped.generation_le l
    rcases stepped.noted recalls with before | ⟨_, queueing, rfl, kept⟩
    · have bounded := awaited.bounded u l seen before
      have still : next.generation l = s.generation l := by omega
      exact stepped.pending still (awaited.current u l seen before (by omega))
    · exact .inl (kept ▸ awaited.queued u l queueing)

-- For every generation that a task which waits has missed there is somebody who has still to tell it.
def Told (s : State Task Lock) : Prop :=
  ∀ t l seen, s.phase t = .waiting l seen false →
    ∃ tellers : List Task, tellers.Nodup ∧ seen + tellers.length = s.generation l ∧
      ∀ u ∈ tellers, (s.phase u).tells? = some l

theorem Stepped.tell (stepped : Stepped s t next) (told : Told s) : Told next := by
  intro u l seen waiting
  by_cases own : u = t
  · subst own
    obtain ⟨rfl, still⟩ := stepped.waits l seen waiting
    exact ⟨[], .nil, still.symm, List.forall_mem_nil _⟩
  · have before := stepped.was own waiting nofun
    obtain ⟨tellers, distinct, missed, tells⟩ := told u l seen before
    have kept : ∀ v ∈ tellers, (next.phase v).tells? = some l := by
      intro v member
      by_cases mine : v = t
      · subst mine
        rcases stepped.tells l (tells v member) with still | nobody
        · exact still
        · exact absurd waiting (nobody u l seen)
      · exact (stepped.told mine).trans (tells v member)
    rcases stepped.generations l with ⟨still, _⟩ | ⟨moving, moved, grown⟩
    · exact ⟨tellers, distinct, still ▸ missed, kept⟩
    · have fresh : t ∉ tellers := by
        intro member
        have told := tells t member
        rw [moving] at told
        cases told
      refine ⟨t :: tellers, List.nodup_cons.mpr ⟨fresh, distinct⟩, ?_, ?_⟩
      · rw [List.length_cons]
        omega
      · refine List.forall_mem_cons.mpr ⟨?_, kept⟩
        rw [moved]
        rfl

structure Sound (s : State Task Lock) : Prop where
  owned : Owned s
  exclusive : ∀ l, Exclusive s l
  awaited : Awaited s
  told : Told s

theorem sound_start : Sound (start : State Task Lock) := by
  refine ⟨?_, ?_, ⟨?_, ?_, ?_⟩, ?_⟩
  · intro r t
    cases r <;> simp [start, owner, Phase.Has, Phase.record?, Phase.hasMutex]
  · intro l
    refine exclusive_nobody rfl ?_
    rintro (_ | u) has <;> cases has <;> contradiction
  all_goals simp [start, Phase.recalls?, Told]

theorem Stepped.sound (stepped : Stepped s t next) (sound : Sound s) : Sound next :=
  ⟨stepped.owned sound.owned, fun l => stepped.exclusive (sound.exclusive l),
    stepped.awaited sound.owned sound.awaited, stepped.tell sound.told⟩

theorem reached_sound [DecidableEq Task] [DecidableEq Lock] (reached : Reached s) : Sound s := by
  induction reached with
  | start => exact sound_start
  | step _ step ih => exact (advance_stepped step).sound ih

def WaitsFor (s : State Task Lock) (t u : Task) : Prop :=
  ∃ r, (s.phase t).wants? = some r ∧ s.owner r = some u

theorem waitsFor_rank (owned : Owned s) (waits : s.WaitsFor t u) :
    (s.phase u).rank < (s.phase t).rank := by
  obtain ⟨r, wants, owner⟩ := waits
  exact Phase.rank_has ((owned r u).mp owner) wants

theorem proceed_none [DecidableEq Task] [DecidableEq Lock] : s.proceed t = none ↔
    s.phase t = .outside ∨ (∃ l seen, s.phase t = .waiting l seen false) ∨ ∃ u, s.WaitsFor t u := by
  unfold proceed takeRecord takeMutex WaitsFor
  split
  all_goals try split
  all_goals simp_all [Phase.wants?, owner]

structure Wakeful [DecidableEq Task] [DecidableEq Lock] (s : State Task Lock) : Prop where
  awaits : ∀ t l seen notified, s.phase t = .waiting l seen notified → seen = s.generation l →
    s.holder l ≠ none ∨ ∃ u, (s.phase u).clears? = some l
  told : Told s
  exclusive : ∀ l, Exclusive s l
  blocked : ∀ t, s.proceed t = none ↔
    s.phase t = .outside ∨ (∃ l seen, s.phase t = .waiting l seen false) ∨ ∃ u, s.WaitsFor t u
  acyclic : ∀ t, ¬Relation.TransGen s.WaitsFor t t

-- In every state that any number of tasks and locks can bring about.
theorem no_wakeup_is_lost [DecidableEq Task] [DecidableEq Lock] (reached : Reached s) : Wakeful s := by
  have sound := reached_sound reached
  refine ⟨?_, sound.told, sound.exclusive, fun _ => proceed_none, ?_⟩
  · intro t l seen notified waiting now
    apply sound.awaited.current t l seen _ now
    rw [waiting]
    rfl
  · intro t cycle
    have falls : ∀ u, Relation.TransGen s.WaitsFor t u → (s.phase u).rank < (s.phase t).rank := by
      intro u path
      induction path with
      | single waits => exact waitsFor_rank sound.owned waits
      | tail _ waits ih => exact Nat.lt_trans (waitsFor_rank sound.owned waits) ih
    exact Nat.lt_irrefl _ (falls t cycle)

def follow [DecidableEq Task] [DecidableEq Lock] :
    List (Task × Action Lock) → State Task Lock → Option (State Task Lock)
  | [], s => some s
  | (t, action) :: rest, s => (s.advance t action).bind (follow rest)

theorem reached_follow [DecidableEq Task] [DecidableEq Lock] {actions : List (Task × Action Lock)}
    (reached : Reached s) (followed : follow actions s = some next) : Reached next := by
  induction actions generalizing s with
  | nil =>
    cases followed
    exact reached
  | cons first rest ih =>
    obtain ⟨t, action⟩ := first
    obtain ⟨between, step, later⟩ := Option.bind_eq_some_iff.mp followed
    exact ih (.step reached step) later

-- One task sleeps on a lock while another gives it up, and has missed the generation without being
-- notified yet; a third sleeps on a lock that is held.
theorem no_wakeup_is_lost_overtaken :
    let sleeps (t l : Nat) : List (Nat × Action Nat) :=
      (t, .lock l) :: List.replicate 5 (t, .proceed)
    let takes (t l : Nat) : List (Nat × Action Nat) :=
      (t, .lock l) :: List.replicate 3 (t, .proceed)
    let actions := takes 0 0 ++ takes 3 1 ++ sleeps 1 0 ++ sleeps 2 1 ++
      (0, .drop 0) :: List.replicate 5 (0, .proceed)
    ∃ s : State Nat Nat, follow actions start = some s ∧ Reached s ∧
      s.phase 1 = .waiting 0 0 false ∧ s.generation 0 = 1 ∧ s.phase 0 = .moved 0 ∧
      s.phase 2 = .waiting 1 0 false ∧ s.generation 1 = 0 ∧ s.holder 1 = some 3 ∧ Wakeful s := by
  intro sleeps takes actions
  have ends : (follow actions start).isSome = true := by decide +kernel
  obtain ⟨s, followed⟩ := Option.isSome_iff_exists.mp ends
  have reached := reached_follow .start followed
  have known : ∀ {α : Type} (look : State Nat Nat → α) (value : α),
      (follow actions start).map look = some value → look s = value := by
    intro α look value same
    rw [followed] at same
    exact Option.some.inj same
  exact ⟨s, followed, reached, known (·.phase 1) _ (by decide +kernel),
    known (·.generation 0) _ (by decide +kernel), known (·.phase 0) _ (by decide +kernel),
    known (·.phase 2) _ (by decide +kernel), known (·.generation 1) _ (by decide +kernel),
    known (·.holder 1) _ (by decide +kernel), no_wakeup_is_lost reached⟩

end KernelResources.Wakeup.State
