import KernelResources.Lock.Wakeup

namespace KernelResources.Wakeup

inductive Resource (Lock : Type) where
  | record (lock : Lock)
  | mutex

namespace Phase

variable {Lock : Type}

def Has (phase : Phase Lock) : Resource Lock → Prop
  | .record l => phase.record? = some l
  | .mutex => phase.hasMutex = true

def wants? : Phase Lock → Option (Resource Lock)
  | arriving l | trying l | leaving l => some (.record l)
  | queueing _ | waking .. | announcing _ => some .mutex
  | _ => none

def keeps? : Phase Lock → Option Lock
  | taken l | leaving l | clearing l => some l
  | _ => none

def clears? : Phase Lock → Option Lock
  | cleared l | announcing l | moving l => some l
  | _ => none

def tells? : Phase Lock → Option Lock
  | moved l | notifying l => some l
  | _ => none

def recalls? : Phase Lock → Option (Lock × Nat)
  | noted l seen | checking l seen | waiting l seen _ | waking l seen => some (l, seen)
  | _ => none

-- Whoever has a record may want the mutex, and whoever has the mutex wants nothing.
def rank (phase : Phase Lock) : Nat :=
  match phase.wants? with
  | none => 0
  | some .mutex => 1
  | some (.record _) => 2

theorem rank_has {phase other : Phase Lock} {r : Resource Lock} (has : phase.Has r)
    (wants : other.wants? = some r) : phase.rank < other.rank := by
  cases r with
  | record l => cases phase <;> simp_all [Has, record?, rank, wants?]
  | mutex => cases phase <;> simp_all [Has, hasMutex, rank, wants?]

end Phase

namespace State

variable {Task Lock : Type} {s next : State Task Lock} {t u : Task} {l : Lock}

def owner (s : State Task Lock) : Resource Lock → Option Task
  | .record l => s.record l
  | .mutex => s.mutex

-- A resource stays with whoever has it, or is taken by `t`, or is given back by it.
def Hands (s : State Task Lock) (t : Task) (next : State Task Lock) (r : Resource Lock) : Prop :=
  next.owner r = s.owner r ∧ ((next.phase t).Has r ↔ (s.phase t).Has r) ∨
  s.owner r = none ∧ next.owner r = some t ∧ (next.phase t).Has r ∨
  (s.phase t).Has r ∧ next.owner r = none ∧ ¬(next.phase t).Has r

def Lends (s : State Task Lock) (t : Task) (next : State Task Lock) (l : Lock) : Prop :=
  next.holder l = s.holder l ∧ next.guarded l = s.guarded l ∧
    ((next.phase t).keeps? = some l ↔ (s.phase t).keeps? = some l) ∨
  s.holder l = none ∧ next.holder l = some t ∧ next.guarded l = s.guarded l ∧ next.phase t = .taken l ∨
  s.phase t = .taken l ∧ next.holder l = s.holder l ∧ next.guarded l = true ∧
    (next.phase t).keeps? = none ∨
  s.guarded l = true ∧ next.holder l = s.holder l ∧ next.guarded l = false ∧ next.phase t = .leaving l ∨
  s.phase t = .clearing l ∧ next.holder l = none ∧ next.guarded l = s.guarded l ∧ next.phase t = .cleared l

structure Stepped (s : State Task Lock) (t : Task) (next : State Task Lock) : Prop where
  others : ∀ u, u ≠ t → next.phase u = s.phase u ∨ next.phase u = (s.phase u).notify
  owners : ∀ r, Hands s t next r
  locks : ∀ l, Lends s t next l
  generations : ∀ l,
    next.generation l = s.generation l ∧
      ((s.phase t).clears? = some l → (next.phase t).clears? = some l) ∨
    s.phase t = .moving l ∧ next.phase t = .moved l ∧ next.generation l = s.generation l + 1
  queues : ∀ l, next.phase t = .queueing l → s.holder l ≠ none ∧ next.holder l = s.holder l
  recalls : ∀ l seen, (next.phase t).recalls? = some (l, seen) →
    (s.phase t).recalls? = some (l, seen) ∨
    s.phase t = .queueing l ∧ seen = s.generation l ∧ next.holder l = s.holder l
  waits : ∀ l seen, next.phase t = .waiting l seen false →
    seen = s.generation l ∧ next.generation l = s.generation l
  tells : ∀ l, (s.phase t).tells? = some l →
    (next.phase t).tells? = some l ∨ ∀ u other seen, next.phase u ≠ .waiting other seen false

section Transitions

variable {base : State Task Lock} {old new : Phase Lock}

theorem put_self {Key α : Type} [DecidableEq Key] (f : Key → α) (key : Key) (value : α) :
    put f key value key = value := if_pos rfl

theorem put_other {Key α : Type} [DecidableEq Key] (f : Key → α) {key other : Key} (value : α)
    (apart : other ≠ key) : put f key value other = f other := if_neg apart

variable [DecidableEq Task]

@[simp] theorem phase_go (s : State Task Lock) (t : Task) (phase : Phase Lock) :
    (s.go t phase).phase t = phase := put_self ..

theorem go_others (phases : base.phase = s.phase) (other : u ≠ t) (phase : Phase Lock) :
    (base.go t phase).phase u = s.phase u := (put_other base.phase phase other).trans (congrFun phases u)

section Resources

variable (here : s.phase t = old)
include here

theorem hands_still (records : base.record = s.record) (mutex : base.mutex = s.mutex)
    (record : new.record? = old.record?) (has : new.hasMutex = old.hasMutex) (r : Resource Lock) :
    Hands s t (base.go t new) r := by
  refine .inl ⟨?_, ?_⟩
  · cases r with
    | record l => exact congrFun records l
    | mutex => exact mutex
  · rw [phase_go, here]
    cases r with
    | record l => rw [Phase.Has, Phase.Has, record]
    | mutex => rw [Phase.Has, Phase.Has, has]

theorem hands_takeMutex (free : s.mutex = none) (record : new.record? = old.record?)
    (has : new.hasMutex = true) (r : Resource Lock) : Hands s t ({ s with mutex := some t }.go t new) r := by
  cases r with
  | record l => exact .inl ⟨rfl, by rw [phase_go, here, Phase.Has, Phase.Has, record]⟩
  | mutex => exact .inr (.inl ⟨free, rfl, by rw [phase_go]; exact has⟩)

theorem hands_leaveMutex (record : new.record? = old.record?) (has : old.hasMutex = true)
    (none : new.hasMutex = false) (r : Resource Lock) : Hands s t (s.leaveMutex.go t new) r := by
  cases r with
  | record l => exact .inl ⟨rfl, by rw [phase_go, here, Phase.Has, Phase.Has, record]⟩
  | mutex => exact .inr (.inr ⟨by rw [here]; exact has, rfl, by simp [Phase.Has, none]⟩)

end Resources

-- From `old` to `new` nothing is done with any lock or generation. Whoever queues has found the lock taken,
-- and whoever waits has found the generation that it noted.
structure Leads (s : State Task Lock) (old new : Phase Lock) : Prop where
  keeps : new.keeps? = old.keeps?
  clears : ∀ l, old.clears? = some l → new.clears? = some l
  queues : ∀ l, new = .queueing l → s.holder l ≠ none
  recalls : ∀ l seen, new.recalls? = some (l, seen) →
    old.recalls? = some (l, seen) ∨ old = .queueing l ∧ seen = s.generation l
  waits : ∀ l seen, new = .waiting l seen false → seen = s.generation l
  tells : ∀ l, old.tells? = some l → new.tells? = some l

theorem Leads.stepped (leads : Leads s old new) (here : s.phase t = old) (phases : base.phase = s.phase)
    (holder : base.holder = s.holder) (guarded : base.guarded = s.guarded)
    (generation : base.generation = s.generation) (owners : ∀ r, Hands s t (base.go t new) r) :
    Stepped s t (base.go t new) where
  others := fun u other => .inl (go_others phases other new)
  owners := owners
  locks := fun l => .inl ⟨congrFun holder l, congrFun guarded l, by rw [phase_go, here, leads.keeps]⟩
  generations := by
    intro l
    rw [phase_go, here]
    exact .inl ⟨congrFun generation l, leads.clears l⟩
  queues := by
    intro l queueing
    rw [phase_go] at queueing
    exact ⟨leads.queues l queueing, congrFun holder l⟩
  recalls := by
    intro l seen recalled
    rw [phase_go] at recalled
    rw [here]
    exact (leads.recalls l seen recalled).imp_right fun noted => ⟨noted.1, noted.2, congrFun holder l⟩
  waits := by
    intro l seen waiting
    rw [phase_go] at waiting
    exact ⟨leads.waits l seen waiting, congrFun generation l⟩
  tells := by
    intro l telling
    rw [phase_go]
    exact .inl (leads.tells l (here ▸ telling))

variable (here : s.phase t = old)
include here

theorem go_stepped (leads : Leads s old new) (record : new.record? = old.record?)
    (has : new.hasMutex = old.hasMutex) : Stepped s t (s.go t new) :=
  leads.stepped here rfl rfl rfl rfl (hands_still here rfl rfl record has)

theorem takeMutex_stepped (took : s.takeMutex t new = some next) (leads : Leads s old new)
    (record : new.record? = old.record?) (has : new.hasMutex = true) : Stepped s t next := by
  unfold takeMutex at took
  cases free : s.mutex with
  | some other =>
    rw [free] at took
    cases took
  | none =>
    rw [free] at took
    cases took
    exact leads.stepped here rfl rfl rfl rfl (hands_takeMutex here free record has)

theorem leaveMutex_stepped (leads : Leads s old new) (record : new.record? = old.record?)
    (has : old.hasMutex = true) (none : new.hasMutex = false) : Stepped s t (s.leaveMutex.go t new) :=
  leads.stepped here rfl rfl rfl rfl (hands_leaveMutex here record has none)

theorem lends_stepped (phases : base.phase = s.phase) (generation : base.generation = s.generation)
    (owners : ∀ r, Hands s t (base.go t new) r) (lends : ∀ l, Lends s t (base.go t new) l)
    (clears : old.clears? = none) (tells : old.tells? = none) (queues : ∀ l, new ≠ .queueing l)
    (recalls : new.recalls? = none) : Stepped s t (base.go t new) where
  others := fun u other => .inl (go_others phases other new)
  owners := owners
  locks := lends
  generations := by
    intro l
    rw [here, clears]
    exact .inl ⟨congrFun generation l, nofun⟩
  queues := by
    intro l queueing
    rw [phase_go] at queueing
    exact absurd queueing (queues l)
  recalls := by
    intro l seen recalled
    rw [phase_go, recalls] at recalled
    cases recalled
  waits := by
    intro l seen waiting
    rw [phase_go] at waiting
    rw [waiting] at recalls
    cases recalls
  tells := by
    intro l telling
    rw [here, tells] at telling
    cases telling

variable [DecidableEq Lock]

theorem hands_other {owner : Option Task} {m : Lock} (apart : m ≠ l)
    (records : base.record = put s.record l owner) (has : ∀ m, m ≠ l → (new.Has (.record m) ↔ old.Has (.record m))) :
    Hands s t (base.go t new) (.record m) := by
  refine .inl ⟨?_, ?_⟩
  · exact (congrFun records m).trans (put_other s.record owner apart)
  · rw [phase_go, here]
    exact has m apart

theorem hands_takeRecord (free : s.record l = none) (none : old.record? = none)
    (record : new.record? = some l) (has : new.hasMutex = old.hasMutex) (r : Resource Lock) :
    Hands s t ({ s with record := put s.record l (some t) }.go t new) r := by
  cases r with
  | mutex => exact .inl ⟨rfl, by rw [phase_go, here, Phase.Has, Phase.Has, has]⟩
  | record m =>
    by_cases same : m = l
    · subst same
      exact .inr (.inl ⟨free, put_self .., by rw [phase_go]; exact record⟩)
    · refine hands_other here same rfl fun m apart => ?_
      simp [Phase.Has, none, record, apart.symm]

theorem hands_leaveRecord (records : base.record = put s.record l none) (mutex : base.mutex = s.mutex)
    (record : old.record? = some l) (none : new.record? = none) (has : new.hasMutex = old.hasMutex)
    (r : Resource Lock) : Hands s t (base.go t new) r := by
  cases r with
  | mutex => exact .inl ⟨mutex, by rw [phase_go, here, Phase.Has, Phase.Has, has]⟩
  | record m =>
    by_cases same : m = l
    · subst same
      refine .inr (.inr ⟨by rw [here]; exact record, ?_, ?_⟩)
      · exact (congrFun records m).trans (put_self ..)
      · simp [Phase.Has, none]
    · refine hands_other here same records fun m apart => ?_
      simp [Phase.Has, none, record, apart.symm]

theorem takeRecord_stepped (took : s.takeRecord t l new = some next) (leads : Leads s old new)
    (none : old.record? = none) (record : new.record? = some l) (has : new.hasMutex = old.hasMutex) :
    Stepped s t next := by
  unfold takeRecord at took
  cases free : s.record l with
  | some other =>
    rw [free] at took
    cases took
  | none =>
    rw [free] at took
    cases took
    exact leads.stepped here rfl rfl rfl rfl (hands_takeRecord here free none record has)

theorem leaveRecord_stepped (leads : Leads s old new) (record : old.record? = some l)
    (none : new.record? = none) (has : new.hasMutex = old.hasMutex) :
    Stepped s t ((s.leaveRecord l).go t new) :=
  leads.stepped here rfl rfl rfl rfl (hands_leaveRecord here rfl rfl record none has)

omit here

theorem take_stepped (free : s.holder l = none) (here : s.phase t = .looking l ∨ s.phase t = .glancing l) :
    Stepped s t ({ s with holder := put s.holder l (some t) }.go t (.taken l)) := by
  have lends : ∀ old : Phase Lock, s.phase t = old → old.keeps? = none →
      ∀ m, Lends s t ({ s with holder := put s.holder l (some t) }.go t (.taken l)) m := by
    intro old here keeps m
    by_cases same : m = l
    · subst same
      exact .inr (.inl ⟨free, put_self .., rfl, phase_go ..⟩)
    · refine .inl ⟨put_other s.holder _ same, rfl, ?_⟩
      rw [phase_go, here, keeps]
      simp [Phase.keeps?, Ne.symm same]
  rcases here with here | here
  · exact lends_stepped here rfl rfl (hands_still here rfl rfl rfl rfl) (lends _ here rfl) rfl rfl nofun rfl
  · exact lends_stepped here rfl rfl (hands_still here rfl rfl rfl rfl) (lends _ here rfl) rfl rfl nofun rfl

theorem guard_stepped (here : s.phase t = .taken l) :
    Stepped s t ({ s.leaveRecord l with guarded := put s.guarded l true }.go t .outside) := by
  refine lends_stepped here rfl rfl (hands_leaveRecord here rfl rfl rfl rfl rfl) (fun m => ?_) rfl rfl nofun rfl
  by_cases same : m = l
  · subst same
    exact .inr (.inr (.inl ⟨here, rfl, put_self .., by rw [phase_go]; rfl⟩))
  · refine .inl ⟨rfl, put_other s.guarded _ same, ?_⟩
    rw [phase_go, here]
    simp [Phase.keeps?, Ne.symm same]

theorem drop_stepped (here : s.phase t = .outside) (about : s.guarded l = true) :
    Stepped s t ({ s with guarded := put s.guarded l false }.go t (.leaving l)) := by
  refine lends_stepped here rfl rfl (hands_still here rfl rfl rfl rfl) (fun m => ?_) rfl rfl nofun rfl
  by_cases same : m = l
  · subst same
    exact .inr (.inr (.inr (.inl ⟨about, rfl, put_self .., phase_go ..⟩)))
  · refine .inl ⟨rfl, put_other s.guarded _ same, ?_⟩
    rw [phase_go, here]
    simp [Phase.keeps?, Ne.symm same]

theorem clear_stepped (here : s.phase t = .clearing l) :
    Stepped s t ({ s with holder := put s.holder l none }.go t (.cleared l)) := by
  refine lends_stepped here rfl rfl (hands_still here rfl rfl rfl rfl) (fun m => ?_) rfl rfl nofun rfl
  by_cases same : m = l
  · subst same
    exact .inr (.inr (.inr (.inr ⟨here, put_self .., rfl, phase_go ..⟩)))
  · refine .inl ⟨put_other s.holder _ same, rfl, ?_⟩
    rw [phase_go, here]
    simp [Phase.keeps?, Ne.symm same]

theorem move_stepped (here : s.phase t = .moving l) :
    Stepped s t ({ s with generation := put s.generation l (s.generation l + 1) }.go t (.moved l)) where
  others := fun u other => .inl (go_others rfl other _)
  owners := hands_still here rfl rfl rfl rfl
  locks := fun m => .inl ⟨rfl, rfl, by rw [phase_go, here]; rfl⟩
  generations := by
    intro m
    rw [phase_go, here]
    by_cases same : m = l
    · subst same
      exact .inr ⟨rfl, rfl, put_self ..⟩
    · refine .inl ⟨put_other s.generation _ same, fun clears => ?_⟩
      exact absurd (Option.some.inj clears).symm same
  queues := by
    intro m queueing
    rw [phase_go] at queueing
    cases queueing
  recalls := by
    intro m seen recalled
    rw [phase_go] at recalled
    cases recalled
  waits := by
    intro m seen waiting
    rw [phase_go] at waiting
    cases waiting
  tells := by
    intro m telling
    rw [here] at telling
    cases telling

omit [DecidableEq Lock] in
theorem notify_stepped (here : s.phase t = .notifying l) :
    Stepped s t ({ s with phase := fun u => (s.phase u).notify }.go t .outside) where
  others := fun u other => .inr (put_other _ _ other)
  owners := hands_still here rfl rfl rfl rfl
  locks := fun m => .inl ⟨rfl, rfl, by rw [phase_go, here]; rfl⟩
  generations := by
    intro m
    rw [here]
    exact .inl ⟨rfl, nofun⟩
  queues := by
    intro m queueing
    rw [phase_go] at queueing
    cases queueing
  recalls := by
    intro m seen recalled
    rw [phase_go] at recalled
    cases recalled
  waits := by
    intro m seen waiting
    rw [phase_go] at waiting
    cases waiting
  tells := by
    refine fun _ _ => .inr fun u other seen waiting => ?_
    by_cases own : u = t
    · subst own
      rw [phase_go] at waiting
      cases waiting
    · have told := (put_other (fun u => (s.phase u).notify) Phase.outside own).symm.trans waiting
      cases before : s.phase u <;> simp [before, Phase.notify] at told

theorem proceed_stepped (step : s.proceed t = some next) : Stepped s t next := by
  unfold proceed at step
  generalize here : s.phase t = old at step
  cases old with
  | outside => cases step
  | arriving l | trying l | leaving l =>
    exact takeRecord_stepped here step ⟨rfl, nofun, nofun, nofun, nofun, nofun⟩ rfl rfl rfl
  | queueing l =>
    refine takeMutex_stepped here step ⟨rfl, nofun, nofun, fun m seen noted => ?_, nofun, nofun⟩ rfl rfl
    cases noted
    exact .inr ⟨rfl, rfl⟩
  | waking l seen =>
    exact takeMutex_stepped here step ⟨rfl, nofun, nofun, fun _ _ => .inl, nofun, nofun⟩ rfl rfl
  | announcing l =>
    exact takeMutex_stepped here step ⟨rfl, fun _ => id, nofun, nofun, nofun, nofun⟩ rfl rfl
  | looking l =>
    dsimp only at step
    generalize held : s.holder l = holder at step
    cases holder with
    | none =>
      cases step
      exact take_stepped held (.inl here)
    | some other =>
      cases step
      refine go_stepped here ⟨rfl, nofun, fun m queueing => ?_, nofun, nofun, nofun⟩ rfl rfl
      cases queueing
      rw [held]
      nofun
  | glancing l =>
    dsimp only at step
    generalize held : s.holder l = holder at step
    cases holder with
    | none =>
      cases step
      exact take_stepped held (.inr here)
    | some other =>
      cases step
      exact go_stepped here ⟨rfl, nofun, nofun, nofun, nofun, nofun⟩ rfl rfl
  | taken l =>
    cases step
    exact guard_stepped here
  | clearing l =>
    cases step
    exact clear_stepped here
  | moving l =>
    cases step
    exact move_stepped here
  | notifying l =>
    cases step
    exact notify_stepped here
  | noted l seen =>
    cases step
    exact leaveRecord_stepped here ⟨rfl, nofun, nofun, fun _ _ => .inl, nofun, nofun⟩ rfl rfl rfl
  | refused l =>
    cases step
    exact leaveRecord_stepped here ⟨rfl, nofun, nofun, nofun, nofun, nofun⟩ rfl rfl rfl
  | cleared l =>
    cases step
    exact leaveRecord_stepped here ⟨rfl, fun _ => id, nofun, nofun, nofun, nofun⟩ rfl rfl rfl
  | moved l =>
    cases step
    exact leaveMutex_stepped here ⟨rfl, nofun, nofun, nofun, nofun, fun _ => id⟩ rfl rfl rfl
  | checking l seen =>
    dsimp only at step
    by_cases still : s.generation l = seen
    · rw [if_pos still] at step
      cases step
      refine leaveMutex_stepped here ⟨rfl, nofun, nofun, fun _ _ => .inl, fun m noted waiting => ?_, nofun⟩
        rfl rfl rfl
      cases waiting
      exact still.symm
    · rw [if_neg still] at step
      cases step
      exact leaveMutex_stepped here ⟨rfl, nofun, nofun, nofun, nofun, nofun⟩ rfl rfl rfl
  | waiting l seen notified =>
    cases notified with
    | false => cases step
    | true =>
      cases step
      exact go_stepped here ⟨rfl, nofun, nofun, fun _ _ => .inl, nofun, nofun⟩ rfl rfl

theorem advance_stepped {action : Action Lock} (step : s.advance t action = some next) :
    Stepped s t next := by
  unfold advance at step
  split at step
  · rename_i here
    cases step
    exact go_stepped here ⟨rfl, nofun, nofun, nofun, nofun, nofun⟩ rfl rfl
  · rename_i here
    cases step
    exact go_stepped here ⟨rfl, nofun, nofun, nofun, nofun, nofun⟩ rfl rfl
  · rename_i l here
    split at step
    · cases step
      exact drop_stepped here ‹_›
    · cases step
  · exact proceed_stepped step
  · rename_i here
    cases step
    exact go_stepped here ⟨rfl, nofun, nofun, fun _ _ => .inl, nofun, nofun⟩ rfl rfl
  · cases step

end Transitions

end State

end KernelResources.Wakeup
