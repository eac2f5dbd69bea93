import KernelResources.Proofs.Buffer.BucketWalks
import KernelResources.Proofs.Buffer.LinkTables

namespace KernelResources.Buffer

variable {n : Nat} {σ : Type}

namespace Bucket

structure Strolls (b : Bucket n) (bucket : Nat) (visit : Fin n → σ → Except AuditError Unit × σ) (s : σ)
    (visited : List (Fin n)) (result : Except AuditError Unit) (after : σ) : Prop where
  ends : b.walk bucket visit s = (result, after)
  told : b.walk bucket (noting visit) (s, []) = (result, after, visited)
  distinct : visited.Nodup
  few : visited.length ≤ n
  ahead : ∀ k i, visited[k]? = some i → b.nth k = some i
  complete : result = .ok () → b.nth visited.length = none
  accepts : Accepting visit → (result = .ok () ↔
    (∃ stop, b.nth stop = none) ∧ ∀ k i, b.nth k = some i → b.prev[i] = b.beforeNth k)
  broken : Accepting visit → ∀ error, result = .error error → error = .brokenLinks bucket ∧
    ∃ i, b.nth visited.length = some i ∧ b.prev[i] ≠ b.beforeNth visited.length
  unbounded : ∀ limit, n ≤ limit → b.walkFrom bucket visit limit none b.head s = (result, after)

structure Noted (b : Bucket n) (k : Nat) (seen : List (Fin n)) : Prop where
  length : seen.length = k
  ahead : ∀ m i, seen[m]? = some i → b.nth m = some i

variable {b : Bucket n} {bucket : Nat} {visit : Fin n → σ → Except AuditError Unit × σ}

theorem walkFrom_noting (left : Nat) (before cursor : Option (Fin n)) (s : σ) (seen : List (Fin n)) :
    (b.walkFrom bucket (noting visit) left before cursor (s, seen)).1 =
        (b.walkFrom bucket visit left before cursor s).1 ∧
      (b.walkFrom bucket (noting visit) left before cursor (s, seen)).2.1 =
        (b.walkFrom bucket visit left before cursor s).2 := by
  induction left generalizing before cursor s seen with
  | zero => cases cursor <;> exact ⟨rfl, rfl⟩
  | succ left ih =>
    cases cursor with
    | none => exact ⟨rfl, rfl⟩
    | some i =>
      rw [walkFrom, walkFrom]
      split
      · exact ⟨rfl, rfl⟩
      · simp only [noting]
        obtain ⟨result, later⟩ := visit i s
        cases result with
        | error error => exact ⟨rfl, rfl⟩
        | ok => exact ih ..

theorem noted_next {k : Nat} {i : Fin n} {seen : List (Fin n)} (noted : b.Noted k seen)
    (here : b.nth k = some i) : b.Noted (k + 1) (seen ++ [i]) := by
  obtain ⟨rfl, ahead⟩ := noted
  refine ⟨by simp, ?_⟩
  intro m j there
  rcases Nat.lt_trichotomy m seen.length with earlier | rfl | past
  · rw [List.getElem?_append_left earlier] at there
    exact ahead m j there
  · rw [List.getElem?_concat_length] at there
    rw [here, there]
  · rw [List.getElem?_eq_none (by simpa using Nat.succ_le_of_lt past)] at there
    cases there

theorem noted_distinct {k : Nat} {seen : List (Fin n)} (noted : b.Noted k seen)
    (mirrored : b.MirroredTo k) : seen.Nodup := by
  refine List.pairwise_iff_getElem.mpr ?_
  intro k l inside within before same
  have first := noted.ahead k _ (List.getElem?_eq_getElem inside)
  have second := noted.ahead l _ (List.getElem?_eq_getElem within)
  have once := nth_once mirrored (noted.length ▸ inside) (noted.length ▸ within) first (same ▸ second)
  exact absurd once (Nat.ne_of_lt before)

theorem walkFrom_enough {k left : Nat} {s : σ} (mirrored : b.MirroredTo k) (enough : n ≤ k + left) :
    b.walkFrom bucket visit (left + 1) (b.beforeNth k) (b.nth k) s =
      b.walkFrom bucket visit left (b.beforeNth k) (b.nth k) s := by
  induction left generalizing k s with
  | zero =>
    cases here : b.nth k with
    | none => rfl
    | some i => rw [walkFrom, walkFrom, if_pos (prev_past mirrored enough here)]
  | succ left ih =>
    cases here : b.nth k with
    | none => rfl
    | some i =>
      rw [walkFrom, walkFrom]
      split
      · rfl
      · rename_i right
        have before : b.beforeNth (k + 1) = some i := here
        obtain ⟨result, later⟩ := visit i s
        cases result with
        | error error => rfl
        | ok =>
          have rest := ih (s := later) (mirroredTo_succ mirrored here (not_not.mp right)) (by omega)
          rw [nth_succ here, before] at rest
          exact rest

theorem walkFrom_limit (s : σ) {limit : Nat} (enough : n ≤ limit) :
    b.walkFrom bucket visit limit none b.head s = b.walk bucket visit s := by
  induction limit, enough using Nat.le_induction with
  | base => rfl
  | succ limit enough ih =>
    have more : n ≤ 0 + limit := by omega
    exact (walkFrom_enough mirroredTo_zero more).trans ih

theorem strolls_noted {s after : σ} {visited : List (Fin n)} {result : Except AuditError Unit} {stop : Nat}
    (told : b.walk bucket (noting visit) (s, []) = (result, after, visited)) (noted : b.Noted stop visited)
    (mirrored : b.MirroredTo stop) (complete : result = .ok () → b.nth stop = none)
    (accepts : Accepting visit → (result = .ok () ↔
      (∃ stop, b.nth stop = none) ∧ ∀ k i, b.nth k = some i → b.prev[i] = b.beforeNth k))
    (broken : Accepting visit → ∀ error, result = .error error → error = .brokenLinks bucket ∧
      ∃ i, b.nth stop = some i ∧ b.prev[i] ≠ b.beforeNth stop) :
    b.Strolls bucket visit s visited result after := by
  obtain ⟨sameResult, sameState⟩ := @walkFrom_noting n σ b bucket visit n none b.head s []
  have ends : b.walk bucket visit s = (result, after) := by
    refine Prod.ext ?_ ?_
    · exact sameResult.symm.trans (congrArg Prod.fst told)
    · exact sameState.symm.trans (congrArg (fun outcome => outcome.2.1) told)
  have distinct := noted_distinct noted mirrored
  obtain ⟨rfl, ahead⟩ := noted
  exact ⟨ends, told, distinct, length_le_of_nodup distinct, ahead, complete, accepts, broken,
    fun limit enough => (walkFrom_limit s enough).trans ends⟩

theorem walk_strolls (b : Bucket n) (bucket : Nat) (visit : Fin n → σ → Except AuditError Unit × σ) (s : σ) :
    ∃ visited result after, b.Strolls bucket visit s visited result after := by
  have walked : b.Walked bucket (noting visit) (fun k s => b.Noted k s.2)
      (b.walk bucket (noting visit) (s, [])) := by
    refine walk_walked ?_ ⟨rfl, by simp⟩
    rintro k i s later - here noted told
    obtain ⟨-, rfl⟩ := Prod.mk.inj told
    exact noted_next noted here
  generalize told : b.walk bucket (noting visit) (s, []) = outcome at walked
  cases walked with
  | @ends stop s ended mirrored noted =>
    refine ⟨_, _, _, strolls_noted told noted mirrored (fun _ => ended) ?_ ?_⟩
    · refine fun _ => iff_of_true rfl ⟨⟨stop, ended⟩, ?_⟩
      intro k i here
      refine mirrored k ?_ i here
      by_contra past
      rw [nth_past ended (Nat.le_of_not_lt past)] at here
      cases here
    · rintro - error ⟨⟩
  | @breaks stop i s here mirrored noted wrong =>
    refine ⟨_, _, _, strolls_noted told noted mirrored (by rintro ⟨⟩) ?_ ?_⟩
    · refine fun _ => iff_of_false (by rintro ⟨⟩) ?_
      rintro ⟨-, right⟩
      exact wrong (right stop i here)
    · rintro - error ⟨⟩
      exact ⟨rfl, i, here, wrong⟩
  | @objects stop i s later error here mirrored noted objected =>
    obtain ⟨refused, rfl⟩ := Prod.mk.inj objected
    have objecting : ¬ Accepting visit := by
      intro accepting
      rw [accepting] at refused
      cases refused
    exact ⟨_, _, _, strolls_noted told (noted_next noted here) mirrored (by rintro ⟨⟩)
      (fun accepting => absurd accepting objecting) fun accepting => absurd accepting objecting⟩

end Bucket

namespace LinkTables

theorem item_tables (b : Bucket n) (k : Nat) : b.tables.item k = .ok ((b.nth k).map (·.val)) := by
  induction k with
  | zero => rfl
  | succ k ih =>
    rw [item, ih, Bucket.nth]
    cases b.nth k with
    | none => rfl
    | some i =>
      have here : position n i.val = .ok i := position_ok.mpr rfl
      simp only [Option.map_some, Option.bind_some, bind, Except.bind, here, next_tables]
      rfl

section Walk

variable {t : LinkTables n} {limit bucket steps : Nat} {visit : Nat → σ → Except AuditError Unit × σ}
  {before : Option Nat} {s : σ}

theorem walkFrom_none : t.walkFrom limit bucket visit steps before none s = (.ok (.ok ()), s) := by
  rw [walkFrom.eq_def]

theorem walkFrom_some (i : Fin n) :
    t.walkFrom limit bucket visit steps before (some i.val) s =
      if limit < steps + 1 then (.ok (.error (.brokenLinks bucket)), s)
      else if t.prev[i] ≠ before then (.ok (.error (.brokenLinks bucket)), s)
      else match visit i.val s with
        | (.ok (), s) => t.walkFrom limit bucket visit (steps + 1) (some i.val) t.next[i] s
        | (.error error, s) => (.ok (.error error), s) := by
  have here : position n i.val = .ok i := position_ok.mpr rfl
  rw [walkFrom.eq_def]
  dsimp only
  generalize position n i.val = found at here ⊢
  subst here
  rfl

end Walk

theorem walkFrom_tables (b : Bucket n) (bucket : Nat) (visit : Nat → σ → Except AuditError Unit × σ)
    {limit steps left : Nat} (rest : steps + left = limit) (before cursor : Option (Fin n)) (s : σ) :
    b.tables.walkFrom limit bucket visit steps (before.map (·.val)) (cursor.map (·.val)) s =
      (.ok (b.walkFrom bucket (fun i => visit i.val) left before cursor s).1,
        (b.walkFrom bucket (fun i => visit i.val) left before cursor s).2) := by
  induction left generalizing steps before cursor s with
  | zero =>
    cases cursor with
    | none => exact walkFrom_none
    | some i => exact (walkFrom_some i).trans (if_pos (by omega))
  | succ left ih =>
    cases cursor with
    | none => exact walkFrom_none
    | some i =>
      have same : b.tables.prev[i] = before.map (·.val) ↔ b.prev[i] = before := by
        rw [prev_tables]
        exact (Option.map_injective Fin.val_injective).eq_iff
      refine (walkFrom_some i).trans ?_
      rw [if_neg (by omega), Bucket.walkFrom]
      by_cases right : b.prev[i] = before
      · rw [if_neg (not_not.mpr (same.mpr right)), if_neg (not_not.mpr right)]
        obtain ⟨result, later⟩ := visit i.val s
        cases result with
        | error error => rfl
        | ok =>
          rw [next_tables]
          exact ih (by omega) (some i) b.next[i] later
      · rw [if_pos (mt same.mp right), if_pos right]

theorem walk_tables (b : Bucket n) (bucket : Nat) (visit : Nat → σ → Except AuditError Unit × σ) (s : σ) :
    b.tables.walk bucket visit s =
      (.ok (b.walk bucket (fun i => visit i.val) s).1, (b.walk bucket (fun i => visit i.val) s).2) :=
  walkFrom_tables b bucket visit (Nat.zero_add n) none b.head s

end LinkTables

def LinkTables.Call.event (which : BucketBench.Which) : LinkTables.Call → BucketBench.Event
  | .pushFront index => .pushFront which index
  | .remove index => .remove which index

namespace BucketBench

def after (n : Nat) (events : List Event) : BucketBench n :=
  events.foldl (fun s event => (s.advance event).2) (start n)

variable {s : BucketBench n} {call : LinkTables.Call}

theorem advance_outside (which : Which) (outside : n ≤ call.index) :
    s.advance (call.event which) = (.halted (.outOfBounds n call.index), s) := by
  have stopped : position n call.index = .error (.outOfBounds n call.index) :=
    position_error.mpr ⟨outside, rfl⟩
  cases call with
  | pushFront index | remove index =>
    simp only [LinkTables.Call.index] at stopped
    simp only [LinkTables.Call.event, advance, change, stopped, LinkTables.Call.index]

theorem change_reached (call : Nat → LinkTables.Call) (f : Bucket n → Fin n → Bucket n)
    (runs : ∀ b i, (call i.val).run.run b.tables = .ok () (f b i).tables)
    (reached : ∀ which, (s.get which).tables.Reached) (on : Which) (index : Nat) (which : Which) :
    ((s.change on index f).2.get which).tables.Reached := by
  unfold change
  cases position n index with
  | error fault => exact reached which
  | ok i =>
    have ran : (f (s.get on) i).tables.Reached := .ran (reached on) (runs _ i)
    cases on <;> cases which
    · exact ran
    · exact reached .full
    · exact reached .fresh
    · exact ran

theorem next_reached (reached : ∀ which, (s.get which).tables.Reached) (event : Event) (which : Which) :
    ((s.advance event).2.get which).tables.Reached := by
  cases event with
  | look => exact reached which
  | walk on bucket stop => exact reached which
  | pushFront on index => exact change_reached .pushFront _ LinkTables.pushFront_tables reached on index which
  | remove on index => exact change_reached .remove _ LinkTables.remove_tables reached on index which

theorem after_reached (events : List Event) (which : Which) : ((after n events).get which).tables.Reached := by
  have begins : ∀ which, ((start n).get which).tables.Reached := by
    intro which
    cases which with
    | fresh => exact LinkTables.empty_tables ▸ .empty
    | full => exact LinkTables.holdingAll_tables ▸ .holdingAll
  have goes (s : BucketBench n) (reached : ∀ which, (s.get which).tables.Reached) :
      ∀ which, ((events.foldl (fun s event => (s.advance event).2) s).get which).tables.Reached := by
    induction events generalizing s with
    | nil => exact reached
    | cons event rest ih => exact ih _ (next_reached reached event)
  exact goes _ begins which

end BucketBench

-- Whatever is pushed and removed, the links stay in the pool, and whatever they say, a walk over them ends
-- without leaving the tables: it visits nobody twice, follows the list, and accepts it just when the list ends
-- and each backward link is right, for which the bound on its steps makes no difference.
theorem walks_end_on_any_links (n : Nat) :
    (∀ events which, ((BucketBench.after n events).get which).tables.Reached) ∧
      (∀ t : LinkTables n, t.Reached → t.InRange) ∧
      (∀ (s : BucketBench n) (which : BucketBench.Which) (call : LinkTables.Call), n ≤ call.index →
        s.advance (call.event which) = (.halted (.outOfBounds n call.index), s)) ∧
      (∀ (t : LinkTables n) (call : LinkTables.Call), n ≤ call.index →
        call.run.run t = .error (.outOfBounds n call.index) t) ∧
      (∀ t : LinkTables n, t.InRange ↔ ∃ b : Bucket n, b.tables = t) ∧
      (∀ (b : Bucket n) (i : Fin n), (LinkTables.pushFront i.val).run b.tables = .ok () (b.pushFront i).tables ∧
        (LinkTables.remove i.val).run b.tables = .ok () (b.remove i).tables) ∧
      ∀ b : Bucket n, (∀ k, b.tables.item k = .ok ((b.nth k).map (·.val))) ∧
        (∀ limit k, k < limit → (b.firstMembers limit)[k]? = b.nth k) ∧
        ∀ (σ : Type) (bucket : Nat) (visit : Nat → σ → Except AuditError Unit × σ) (s : σ),
          ∃ visited result after, b.tables.walk bucket visit s = (.ok result, after) ∧
            b.Strolls bucket (fun i => visit i.val) s visited result after := by
  refine ⟨BucketBench.after_reached, fun _ => LinkTables.reached_inRange,
    fun _ which _ => BucketBench.advance_outside which, fun _ _ => LinkTables.run_outside, ?_,
    fun b i => ⟨LinkTables.pushFront_tables b i, LinkTables.remove_tables b i⟩, ?_⟩
  · intro t
    constructor
    · exact LinkTables.inRange_tables
    · rintro ⟨b, rfl⟩
      exact LinkTables.tables_inRange b
  · intro b
    refine ⟨LinkTables.item_tables b, fun _ _ => Bucket.firstMembers_nth, ?_⟩
    intro σ bucket visit s
    obtain ⟨visited, result, after, strolls⟩ := b.walk_strolls bucket (fun i => visit i.val) s
    refine ⟨visited, result, after, ?_, strolls⟩
    rw [LinkTables.walk_tables, strolls.ends]

-- A member of the full list of three is pushed once more. The list never ends; the walk finds the second
-- member behind itself after it saw both.
theorem walks_end_on_any_links_endless :
    let s := BucketBench.after 3 [.pushFront .full 1, .remove .full 3]
    s.full.tables.InRange ∧ s.advance (.remove .full 3) = (.halted (.outOfBounds 3 3), s) ∧
      s.full.firstMembers 8 = [1, 0, 1, 0, 1, 0, 1, 0] ∧
      s.full.Strolls 1 (fun _ s => (.ok (), s)) () [1, 0] (.error (.brokenLinks 1)) () := by
  intro s
  obtain ⟨reached, inRange, outside, -, -, -, walks⟩ := walks_end_on_any_links 3
  obtain ⟨visited, result, after, -, strolls⟩ := (walks s.full).2.2 Unit 1 (fun _ s => (.ok (), s)) ()
  have told : (Except.error (.brokenLinks 1), (), [(1 : Fin 3), 0]) = (result, after, visited) :=
    strolls.told
  cases told
  exact ⟨inRange _ (reached _ .full), outside s .full (.remove 3) (Nat.le_refl 3), by decide, strolls⟩

end KernelResources.Buffer
