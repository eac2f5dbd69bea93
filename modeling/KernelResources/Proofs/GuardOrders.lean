import KernelResources.Interrupts
import KernelResources.Proofs.RegistryCounts

-- Guards that overlap in any way. A guard knows only the flag that it found, so at most one of those alive
-- can be the one that masked; what the flag is, and what was called, follows from whether there is one. That
-- the flag is off under every guard holds of nested guards only.

namespace KernelResources.Interrupts

def Event.Guarded : Event → Prop
  | .enable | .disable => False
  | _ => True

def Event.Drops (name : String) : Event → Prop
  | .drop other | .faultUnder other => other = name
  | _ => False

namespace State

def Remembers (s : State) (name : String) : Prop := s.guards.find? name = some ⟨true⟩

def Masking (s : State) : Prop := ∃ name, s.Remembers name

inductive Run (rule : Event → Prop) (start : State) : State → Prop where
  | start : Run rule start start
  | next {s : State} {event : Event} (before : Run rule start s) (kept : rule event) :
      Run rule start (s.advance event).2

-- Guards dropped in the reverse order of their creation: `stack` has those alive, the newest in front.
inductive Nested (start : State) : List String → State → Prop where
  | start : Nested start [] start
  | take {stack : List String} {s : State} {name : String} (before : Nested start stack s)
      (fresh : s.guards.find? name = none) : Nested start (name :: stack) (s.advance (.take name)).2
  | drop {stack : List String} {s : State} {name : String} {event : Event}
      (before : Nested start (name :: stack) s) (drops : event.Drops name) :
      Nested start stack (s.advance event).2
  -- Everything else, refused requests among it.
  | idle {stack : List String} {s : State} {event : Event} (before : Nested start stack s)
      (guarded : event.Guarded) (same : (s.advance event).2.guards = s.guards) :
      Nested start stack (s.advance event).2

def Calls (s after : State) (masks unmasks : Nat) : Prop :=
  after.masks = s.masks + masks ∧ after.unmasks = s.unmasks + unmasks

inductive Stepped (s : State) : Event → State → Prop where
  | idle {event : Event} {after : State} (guards : after.guards = s.guards)
      (flag : after.cpu.enabled = s.cpu.enabled) (silent : s.Calls after 0 0) : Stepped s event after
  | takes {name : String} (fresh : s.guards.find? name = none) :
      Stepped s (.take name) (s.take name)
  | drops {event : Event} {name : String} {guard : Guard} (ends : event.Drops name)
      (alive : s.guards.find? name = some guard) : Stepped s event (s.drop name guard)

structure Balanced (on : Bool) (s : State) : Prop where
  one : ∀ a b, s.Remembers a → s.Remembers b → a = b
  began : s.Masking → on = true
  flag : s.cpu.enabled = true ↔ on = true ∧ ¬ s.Masking
  owed : s.Masking → s.masks = s.unmasks + 1
  even : ¬ s.Masking → s.masks = s.unmasks
  silent : on = false → s.masks = 0 ∧ s.unmasks = 0

structure Stacked (on : Bool) (stack : List String) (s : State) : Prop where
  keys : s.guards.keys = stack
  distinct : stack.Nodup
  outermost : ∀ name, s.Remembers name ↔ on = true ∧ stack.getLast? = some name

-- A guard that is made between `s` and `opened`, and dropped between `closing` and `closed`. One that finds
-- interrupts on calls twice, and while it is alive nobody else does; one that finds them off never calls.
structure Lifetime (s opened closing closed : State) : Prop where
  masked : s.cpu.enabled = true →
    s.Calls opened 1 0 ∧ opened.Calls closing 0 0 ∧ closing.Calls closed 0 1
  left : s.cpu.enabled = false → s.Calls opened 0 0 ∧ closing.Calls closed 0 0

variable {s start : State} {event : Event} {name other : String} {guard : Guard} {on : Bool}
  {stack : List String}

theorem drops_guarded (drops : event.Drops name) : event.Guarded := by
  cases event <;> trivial

theorem withGuard_stepped (ends : event.Drops name) (reply : Reply) :
    s.Stepped event (s.withGuard name fun guard => (reply, s.drop name guard)).2 := by
  unfold withGuard
  cases alive : s.guards.find? name with
  | some guard => exact .drops ends alive
  | none => exact .idle rfl rfl ⟨rfl, rfl⟩

theorem advance_stepped (guarded : event.Guarded) : s.Stepped event (s.advance event).2 := by
  cases event with
  | take name =>
    simp only [advance]
    cases alive : s.guards.find? name with
    | some guard => exact .idle rfl rfl ⟨rfl, rfl⟩
    | none => exact .takes alive
  | drop name =>
    have ends : (Event.drop name).Drops name := rfl
    exact withGuard_stepped ends _
  | faultUnder name =>
    have ends : (Event.faultUnder name).Drops name := rfl
    exact withGuard_stepped ends _
  | coreOf name =>
    simp only [advance, withGuard]
    cases s.guards.find? name with
    | some guard => exact .idle rfl rfl ⟨rfl, rfl⟩
    | none => exact .idle rfl rfl ⟨rfl, rfl⟩
  | moveTo core => exact .idle rfl rfl ⟨rfl, rfl⟩
  | enable => exact guarded.elim
  | disable => exact guarded.elim
  | elsewhere => exact .idle rfl rfl ⟨rfl, rfl⟩

theorem advance_take (fresh : s.guards.find? name = none) : (s.advance (.take name)).2 = s.take name := by
  simp only [advance, fresh]

theorem advance_drop (drops : event.Drops name) (alive : s.guards.find? name = some guard) :
    (s.advance event).2 = s.drop name guard := by
  cases event with
  | drop other | faultUnder other =>
    obtain rfl : other = name := drops
    simp only [advance, withGuard, alive]
  | _ => exact drops.elim

section Effects

variable (s name guard)

theorem take_on (found : s.cpu.enabled = true) :
    s.take name = { s.mask with guards := s.guards.put name ⟨true⟩ } := by
  rw [take, Guard.take, if_pos found]
  rfl

theorem take_off (found : s.cpu.enabled = false) :
    s.take name = { s with guards := s.guards.put name ⟨false⟩ } := by
  rw [take, Guard.take, if_neg (by simp [found])]

theorem guards_take : (s.take name).guards = s.guards.put name ⟨s.cpu.enabled⟩ := by
  cases found : s.cpu.enabled with
  | true => rw [take_on s name found]
  | false => rw [take_off s name found]

theorem flag_take : (s.take name).cpu.enabled = false := by
  cases found : s.cpu.enabled with
  | true =>
    rw [take_on s name found]
    rfl
  | false =>
    rw [take_off s name found]
    exact found

theorem calls_take : s.Calls (s.take name) (if s.cpu.enabled then 1 else 0) 0 := by
  cases found : s.cpu.enabled with
  | true =>
    rw [take_on s name found]
    exact ⟨rfl, rfl⟩
  | false =>
    rw [take_off s name found]
    exact ⟨rfl, rfl⟩

theorem guards_drop : (s.drop name guard).guards = s.guards.erase name := by
  obtain ⟨wereEnabled⟩ := guard
  cases wereEnabled <;> rfl

theorem flag_drop : (s.drop name guard).cpu.enabled = (guard.wereEnabled || s.cpu.enabled) := by
  obtain ⟨wereEnabled⟩ := guard
  cases wereEnabled <;> rfl

theorem calls_drop : s.Calls (s.drop name guard) 0 (if guard.wereEnabled then 1 else 0) := by
  obtain ⟨wereEnabled⟩ := guard
  cases wereEnabled <;> exact ⟨rfl, rfl⟩

end Effects

theorem find?_take : (s.take name).guards.find? other =
    if other == name then some ⟨s.cpu.enabled⟩ else s.guards.find? other := by
  rw [guards_take, Registry.find?_put]

theorem find?_drop : (s.drop name guard).guards.find? other =
    if other == name then none else s.guards.find? other := by
  rw [guards_drop, Registry.find?_erase]

theorem remembers_take (fresh : s.guards.find? name = none) :
    (s.take name).Remembers other ↔ s.Remembers other ∨ s.cpu.enabled = true ∧ other = name := by
  unfold Remembers
  rw [find?_take]
  by_cases same : other = name
  · subst same
    simp [fresh]
  · simp [same]

theorem remembers_drop : (s.drop name guard).Remembers other ↔ s.Remembers other ∧ other ≠ name := by
  unfold Remembers
  rw [find?_drop]
  by_cases same : other = name <;> simp [same]

theorem balanced_start (cpu : Processor) : Balanced cpu.enabled (.start cpu) := by
  have nobody : ¬ (State.start cpu).Masking := by
    rintro ⟨name, ⟨⟩⟩
  refine ⟨?_, fun masking => absurd masking nobody, (and_iff_left nobody).symm,
    fun masking => absurd masking nobody, fun _ => rfl, fun _ => ⟨rfl, rfl⟩⟩
  intro a b remembers
  exact absurd ⟨a, remembers⟩ nobody

theorem balanced_same {after : State} (balanced : Balanced on s)
    (remembers : ∀ name, after.Remembers name ↔ s.Remembers name)
    (flag : after.cpu.enabled = s.cpu.enabled) (silent : s.Calls after 0 0) : Balanced on after := by
  obtain ⟨masks, unmasks⟩ := silent
  have masking : after.Masking ↔ s.Masking := exists_congr remembers
  simp only [Nat.add_zero] at masks unmasks
  refine ⟨?_, ?_, ?_, ?_, ?_, ?_⟩
  · intro a b first second
    exact balanced.one a b ((remembers a).mp first) ((remembers b).mp second)
  · rw [masking]
    exact balanced.began
  · rw [flag, masking]
    exact balanced.flag
  · rw [masking, masks, unmasks]
    exact balanced.owed
  · rw [masking, masks, unmasks]
    exact balanced.even
  · rw [masks, unmasks]
    exact balanced.silent

theorem balanced_take (balanced : Balanced on s) (fresh : s.guards.find? name = none) :
    Balanced on (s.take name) := by
  have calls := calls_take s name
  cases found : s.cpu.enabled with
  | true =>
    -- Nobody masked so far, and from now on this guard did.
    obtain ⟨began, nobody⟩ := balanced.flag.mp found
    have remembers : ∀ other, (s.take name).Remembers other ↔ other = name := by
      intro other
      rw [remembers_take fresh]
      constructor
      · rintro (before | ⟨-, same⟩)
        · exact absurd ⟨other, before⟩ nobody
        · exact same
      · intro same
        exact .inr ⟨found, same⟩
    have now : (s.take name).Masking := ⟨name, (remembers name).mpr rfl⟩
    obtain ⟨masks, unmasks⟩ := calls
    have even := balanced.even nobody
    simp only [found, if_true] at masks
    refine ⟨?_, fun _ => began, ?_, fun _ => by omega, fun none => absurd now none, ?_⟩
    · intro a b first second
      exact ((remembers a).mp first).trans ((remembers b).mp second).symm
    · simp [flag_take, now]
    · intro off
      rw [began] at off
      cases off
  | false =>
    refine balanced_same balanced (fun other => ?_) (by rw [flag_take, found]) (by simpa [found] using calls)
    simp [remembers_take fresh, found]

theorem balanced_drop (balanced : Balanced on s) (alive : s.guards.find? name = some guard) :
    Balanced on (s.drop name guard) := by
  have calls := calls_drop s name guard
  obtain ⟨wereEnabled⟩ := guard
  cases wereEnabled with
  | true =>
    -- It was this guard that masked, and nobody else did.
    have masked : s.Masking := ⟨name, alive⟩
    have nobody : ¬ (s.drop name ⟨true⟩).Masking := by
      rintro ⟨other, remembers⟩
      obtain ⟨before, apart⟩ := remembers_drop.mp remembers
      exact apart (balanced.one _ _ before alive)
    obtain ⟨masks, unmasks⟩ := calls
    have owed := balanced.owed masked
    have began := balanced.began masked
    simp only [if_true] at unmasks
    refine ⟨?_, fun _ => began, ?_, fun masking => absurd masking nobody, fun _ => by omega, ?_⟩
    · intro a b first
      exact absurd ⟨a, first⟩ nobody
    · simp [flag_drop, began, nobody]
    · intro off
      rw [began] at off
      cases off
  | false =>
    refine balanced_same balanced (fun other => ?_) (by rw [flag_drop, Bool.false_or]) (by simpa using calls)
    rw [remembers_drop, and_iff_left_iff_imp]
    rintro remembers rfl
    rw [Remembers, alive] at remembers
    cases remembers

theorem next_balanced (balanced : Balanced on s) (guarded : event.Guarded) :
    Balanced on (s.advance event).2 := by
  generalize reached : (s.advance event).2 = after
  cases reached ▸ advance_stepped guarded with
  | idle guards flag silent =>
    refine balanced_same balanced (fun name => ?_) flag silent
    rw [Remembers, guards, Remembers]
  | takes fresh => exact balanced_take balanced fresh
  | drops ends alive => exact balanced_drop balanced alive

theorem run_balanced {rule : Event → Prop} (guarded : ∀ event, rule event → event.Guarded)
    (balanced : Balanced on start) (run : Run rule start s) : Balanced on s := by
  induction run with
  | start => exact balanced
  | next _ kept ih => exact next_balanced ih (guarded _ kept)

def Outlived (name : String) (event : Event) : Prop := event.Guarded ∧ ¬ event.Drops name

theorem next_alive (alive : s.guards.find? name = some guard) (outlived : Outlived name event) :
    (s.advance event).2.guards.find? name = some guard := by
  obtain ⟨guarded, stays⟩ := outlived
  generalize reached : (s.advance event).2 = after
  cases reached ▸ advance_stepped guarded with
  | idle guards flag silent =>
    rw [guards]
    exact alive
  | @takes other fresh =>
    have apart : name ≠ other := by
      rintro rfl
      rw [alive] at fresh
      cases fresh
    rw [find?_take, if_neg (by simpa using apart)]
    exact alive
  | @drops _ other _ ends _ =>
    have apart : name ≠ other := by
      rintro rfl
      exact stays ends
    rw [find?_drop, if_neg (by simpa using apart)]
    exact alive

theorem next_silent (balanced : Balanced on s) (remembers : s.Remembers name)
    (outlived : Outlived name event) : s.Calls (s.advance event).2 0 0 := by
  obtain ⟨guarded, stays⟩ := outlived
  generalize reached : (s.advance event).2 = after
  cases reached ▸ advance_stepped guarded with
  | idle guards flag silent => exact silent
  | @takes other fresh =>
    have calls := calls_take s other
    have off : ¬ s.cpu.enabled = true := fun found => (balanced.flag.mp found).2 ⟨name, remembers⟩
    rwa [if_neg off] at calls
  | @drops _ other guard ends alive =>
    have calls := calls_drop s other guard
    have off : ¬ guard.wereEnabled = true := by
      intro found
      obtain ⟨_⟩ := guard
      cases found
      exact stays (balanced.one _ _ alive remembers ▸ ends)
    rwa [if_neg off] at calls

theorem run_alive (alive : start.guards.find? name = some guard) (run : Run (Outlived name) start s) :
    s.guards.find? name = some guard := by
  induction run with
  | start => exact alive
  | next _ kept ih => exact next_alive ih kept

theorem run_silent (balanced : Balanced on start) (remembers : start.Remembers name)
    (run : Run (Outlived name) start s) : start.Calls s 0 0 := by
  induction run with
  | start => exact ⟨rfl, rfl⟩
  | next before kept ih =>
    have masked := run_balanced (fun _ => And.left) balanced before
    obtain ⟨masks, unmasks⟩ := next_silent masked (run_alive remembers before) kept
    exact ⟨masks.trans ih.1, unmasks.trans ih.2⟩

theorem lifetime {closing : State} (balanced : Balanced on s) (fresh : s.guards.find? name = none)
    (run : Run (Outlived name) (s.advance (.take name)).2 closing) (drops : event.Drops name) :
    Lifetime s (s.advance (.take name)).2 closing (closing.advance event).2 := by
  rw [advance_take fresh] at run ⊢
  have made : (s.take name).guards.find? name = some ⟨s.cpu.enabled⟩ := by simp [find?_take]
  rw [advance_drop drops (run_alive made run)]
  have opens := calls_take s name
  have closes := calls_drop closing name ⟨s.cpu.enabled⟩
  refine ⟨?_, ?_⟩
  · intro found
    simp only [found, if_true] at made opens closes
    rw [found]
    exact ⟨opens, run_silent (balanced_take balanced fresh) made run, closes⟩
  · intro off
    simp only [off, Bool.false_eq_true, if_false] at opens closes
    rw [off]
    exact ⟨opens, closes⟩

theorem nested_run (nested : Nested start stack s) : Run Event.Guarded start s := by
  induction nested with
  | start => exact .start
  | take _ _ ih => exact .next ih trivial
  | drop _ drops ih => exact .next ih (drops_guarded drops)
  | idle _ guarded _ ih => exact .next ih guarded

theorem keys_take (fresh : s.guards.find? name = none) : (s.take name).guards.keys = name :: s.guards.keys := by
  rw [guards_take, Registry.put, Registry.erase_absent fresh]
  rfl

theorem stacked_take (balanced : Balanced on s) (stacked : Stacked on stack s)
    (fresh : s.guards.find? name = none) : Stacked on (name :: stack) (s.take name) := by
  obtain ⟨keys, distinct, outermost⟩ := stacked
  have absent : name ∉ stack := by
    rw [← keys, ← Registry.contains_iff, Registry.contains, fresh]
    simp
  refine ⟨by rw [keys_take fresh, keys], List.nodup_cons.mpr ⟨absent, distinct⟩, ?_⟩
  intro other
  rw [remembers_take fresh, balanced.flag]
  cases stack with
  | nil => simp [Masking, outermost, eq_comm]
  | cons newest older =>
    -- The outermost guard is the one it was, and if it masked the flag is off.
    rw [List.getLast?_cons_cons, ← outermost other, or_iff_left_iff_imp]
    rintro ⟨⟨began, nobody⟩, -⟩
    exact absurd ⟨_, (outermost _).mpr ⟨began, List.getLast?_eq_some_getLast (List.cons_ne_nil _ _)⟩⟩ nobody

theorem stacked_drop (stacked : Stacked on (name :: stack) s) : Stacked on stack (s.drop name guard) := by
  obtain ⟨keys, distinct, outermost⟩ := stacked
  obtain ⟨absent, rest⟩ := List.nodup_cons.mp distinct
  refine ⟨?_, rest, ?_⟩
  · rw [guards_drop, Registry.keys_erase, keys, List.filter_cons_of_neg (by simp), List.filter_eq_self]
    intro other member
    simpa using fun same : other = name => absent (same ▸ member)
  · intro other
    rw [remembers_drop, outermost]
    cases stack with
    | nil => simp [eq_comm]
    | cons newest older =>
      rw [List.getLast?_cons_cons, and_iff_left_iff_imp]
      rintro ⟨-, last⟩ rfl
      exact absent (List.mem_of_getLast? last)

theorem nested_stacked {cpu : Processor} (nested : Nested (.start cpu) stack s) :
    Stacked cpu.enabled stack s := by
  induction nested with
  | start => exact ⟨rfl, List.nodup_nil, fun name => by simp [Remembers, State.start, Registry.find?]⟩
  | take before fresh ih =>
    rw [advance_take fresh]
    exact stacked_take (run_balanced (fun _ => id) (balanced_start cpu) (nested_run before)) ih fresh
  | @drop _ _ name _ _ drops ih =>
    obtain ⟨guard, alive⟩ := Registry.find?_known (ih.keys ▸ List.mem_cons_self)
    rw [advance_drop drops alive]
    exact stacked_drop ih
  | idle _ guarded same ih =>
    obtain ⟨keys, distinct, outermost⟩ := ih
    refine ⟨by rw [same, keys], distinct, ?_⟩
    intro name
    rw [Remembers, same]
    exact outermost name

-- Guards that come and go in any order: at most one of those alive masked, the flag is off while it is alive
-- and otherwise as it was, and it owes the one call that was made too many. Nested guards have it outermost,
-- and keep the flag off as long as any of them is alive.
theorem guards_balance_in_any_order {cpu : Processor} (run : Run Event.Guarded (.start cpu) s) :
    (∀ a b, s.Remembers a → s.Remembers b → a = b) ∧
      (cpu.enabled = true → (s.cpu.enabled = false ↔ s.Masking)) ∧
      (cpu.enabled = false → s.cpu.enabled = false ∧ s.masks = 0 ∧ s.unmasks = 0) ∧
      (s.Masking → s.masks = s.unmasks + 1) ∧ (¬ s.Masking → s.masks = s.unmasks) ∧
      (s.guards = [] → s.cpu.enabled = cpu.enabled) ∧
      (∀ name event closing, s.guards.find? name = none →
        Run (Outlived name) (s.advance (.take name)).2 closing → event.Drops name →
          Lifetime s (s.advance (.take name)).2 closing (closing.advance event).2) ∧
      (∀ stack, Nested (.start cpu) stack s → s.guards.keys = stack ∧
        (stack ≠ [] → s.cpu.enabled = false) ∧
        ∀ name, s.Remembers name ↔ cpu.enabled = true ∧ stack.getLast? = some name) := by
  have balanced := run_balanced (fun _ => id) (balanced_start cpu) run
  have on : cpu.enabled = true → (s.cpu.enabled = false ↔ s.Masking) := by
    intro began
    rw [← Bool.not_eq_true, balanced.flag]
    simp [began]
  have off : cpu.enabled = false → s.cpu.enabled = false := by
    intro never
    rw [← Bool.not_eq_true, balanced.flag]
    simp [never]
  refine ⟨balanced.one, on, fun never => ⟨off never, balanced.silent never⟩, balanced.owed,
    balanced.even, ?_, fun name event closing => lifetime balanced, ?_⟩
  · intro none
    have nobody : ¬ s.Masking := by
      rintro ⟨name, remembers⟩
      rw [Remembers, none] at remembers
      cases remembers
    rw [Bool.eq_iff_iff, balanced.flag, and_iff_left nobody]
  · intro stack nested
    obtain ⟨keys, -, outermost⟩ := nested_stacked nested
    refine ⟨keys, ?_, outermost⟩
    intro some
    cases began : cpu.enabled with
    | true => exact (on began).mpr ⟨_, (outermost _).mpr ⟨began, List.getLast?_eq_some_getLast some⟩⟩
    | false => exact off began

-- Three guards that do not nest. The first is dropped first, so interrupts come back under the second; the
-- third finds them on and masks them again.
theorem guards_balance_in_any_order_overlapping :
    let s := ((((State.start .fresh).advance (.take "a")).2.advance (.take "b")).2.advance (.drop "a")).2
    let t := (s.advance (.take "c")).2
    Run Event.Guarded (.start .fresh) s ∧ s.guards.keys = ["b"] ∧ s.cpu.enabled = true ∧ s.masks = s.unmasks ∧
      Run Event.Guarded (.start .fresh) t ∧ t.cpu.enabled = false ∧ t.Remembers "c" ∧ ¬ t.Remembers "b" ∧
      Lifetime s t (t.advance (.drop "b")).2 ((t.advance (.drop "b")).2.advance (.faultUnder "c")).2 := by
  intro s t
  have first : Run Event.Guarded (.start .fresh) s := .next (.next (.next .start trivial) trivial) trivial
  have second : Run Event.Guarded (.start .fresh) t := .next first trivial
  have under := guards_balance_in_any_order first
  have masked := guards_balance_in_any_order second
  have outlived : Run (Outlived "c") t (t.advance (.drop "b")).2 := .next .start ⟨trivial, by simp [Event.Drops]⟩
  have found : t.Remembers "c" := rfl
  refine ⟨first, rfl, rfl, ?_, second, (masked.2.1 rfl).mpr ⟨"c", found⟩, found, ?_, ?_⟩
  · refine under.2.2.2.2.1 fun masking => ?_
    have off : true = false := (under.2.1 rfl).mpr masking
    cases off
  · intro other
    exact absurd (masked.1 _ _ found other) (by decide)
  · exact under.2.2.2.2.2.2.1 "c" _ _ rfl outlived rfl

end State

end KernelResources.Interrupts
