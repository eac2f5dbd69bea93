import KernelResources.Proofs.Buffer.BucketLists

namespace KernelResources.Buffer

variable {n : Nat}

namespace Bucket

-- The member at place `k` along the forward links. On a list that comes back to itself there is one at
-- every place.
def nth (b : Bucket n) : Nat → Option (Fin n)
  | 0 => b.head
  | k + 1 => (b.nth k).bind fun i => b.next[i]

def beforeNth (b : Bucket n) : Nat → Option (Fin n)
  | 0 => none
  | k + 1 => b.nth k

def MirroredTo (b : Bucket n) (stop : Nat) : Prop :=
  ∀ k < stop, ∀ i : Fin n, b.nth k = some i → b.prev[i] = b.beforeNth k

variable {b : Bucket n}

theorem nth_succ {k : Nat} {i : Fin n} (here : b.nth k = some i) : b.nth (k + 1) = b.next[i] := by
  rw [nth, here]
  rfl

theorem mirroredTo_zero : b.MirroredTo 0 := by
  intro k before
  exact absurd before (Nat.not_lt_zero k)

theorem mirroredTo_succ {k : Nat} {i : Fin n} (mirrored : b.MirroredTo k) (here : b.nth k = some i)
    (back : b.prev[i] = b.beforeNth k) : b.MirroredTo (k + 1) := by
  intro l before j there
  rcases Nat.lt_succ_iff_lt_or_eq.mp before with earlier | rfl
  · exact mirrored l earlier j there
  · obtain rfl : i = j := Option.some.inj (here.symm.trans there)
    exact back

theorem nth_before {k l : Nat} {i : Fin n} (there : b.nth l = some i) (before : k ≤ l) :
    ∃ j, b.nth k = some j := by
  induction l generalizing i with
  | zero => exact ⟨i, by rw [Nat.le_zero.mp before]; exact there⟩
  | succ l ih =>
    obtain ⟨j, previous, -⟩ := Option.bind_eq_some_iff.mp there
    rcases Nat.le_succ_iff.mp before with earlier | rfl
    · exact ih previous earlier
    · exact ⟨i, there⟩

theorem nth_past {stop k : Nat} (ended : b.nth stop = none) (past : stop ≤ k) : b.nth k = none := by
  cases there : b.nth k with
  | none => rfl
  | some i =>
    obtain ⟨j, before⟩ := nth_before there past
    rw [ended] at before
    cases before

-- The backward links exclude repetitions: the first member that came back would have two predecessors.
theorem nth_once {stop : Nat} (mirrored : b.MirroredTo stop) {k l : Nat} {i : Fin n} (kept : k < stop)
    (within : l < stop) (here : b.nth k = some i) (there : b.nth l = some i) : k = l := by
  induction k generalizing l i with
  | zero =>
    cases l with
    | zero => rfl
    | succ l =>
      obtain ⟨j, previous⟩ := nth_before there (Nat.le_succ l)
      have back := (mirrored 0 kept i here).symm.trans (mirrored (l + 1) within i there)
      rw [beforeNth, beforeNth, previous] at back
      cases back
  | succ k ih =>
    obtain ⟨j, previous⟩ := nth_before here (Nat.le_succ k)
    have back := (mirrored (k + 1) kept i here).symm.trans (mirrored l within i there)
    cases l with
    | zero =>
      rw [beforeNth, beforeNth, previous] at back
      cases back
    | succ l =>
      rw [beforeNth, beforeNth] at back
      rw [ih (Nat.lt_of_succ_lt kept) (Nat.lt_of_succ_lt within) previous (back ▸ previous)]

theorem nth_pool (mirrored : b.MirroredTo (n + 1)) : b.nth n = none := by
  by_contra goesOn
  obtain ⟨i, there⟩ := Option.ne_none_iff_exists'.mp goesOn
  have all : ∀ k : Fin (n + 1), ∃ j, b.nth k = some j := fun k =>
    nth_before there (Nat.lt_succ_iff.mp k.isLt)
  choose place found using all
  have apart : Function.Injective place := by
    intro k l same
    exact Fin.ext (nth_once mirrored k.isLt l.isLt (found k) (same ▸ found l))
  have room := Fintype.card_le_of_injective place apart
  rw [Fintype.card_fin, Fintype.card_fin] at room
  exact Nat.not_succ_le_self n room

theorem mirroredTo_le {k l : Nat} (mirrored : b.MirroredTo l) (before : k ≤ l) : b.MirroredTo k :=
  fun m earlier => mirrored m (Nat.lt_of_lt_of_le earlier before)

-- Past as many steps as the pool has buffers, whoever is still there to visit has been visited, and has a
-- backward link to somebody else.
theorem prev_past {k : Nat} {i : Fin n} (mirrored : b.MirroredTo k) (past : n ≤ k) (here : b.nth k = some i) :
    b.prev[i] ≠ b.beforeNth k := by
  intro back
  have further := mirroredTo_succ mirrored here back
  rw [nth_past (nth_pool (mirroredTo_le further (Nat.succ_le_succ past))) past] at here
  cases here

-- The ways in which a walk ends, `P` being what its visits keep up to each place: at the end of the
-- list, at the first backward link that is wrong, or at a member that the visitor objects to.
inductive Walked {σ : Type} (b : Bucket n) (bucket : Nat)
    (visit : Fin n → σ → Except AuditError Unit × σ) (P : Nat → σ → Prop) :
    Except AuditError Unit × σ → Prop where
  | ends {stop : Nat} {s : σ} (ended : b.nth stop = none) (mirrored : b.MirroredTo stop)
      (kept : P stop s) : Walked b bucket visit P (.ok (), s)
  | breaks {stop : Nat} {i : Fin n} {s : σ} (here : b.nth stop = some i) (mirrored : b.MirroredTo stop)
      (kept : P stop s) (wrong : b.prev[i] ≠ b.beforeNth stop) :
      Walked b bucket visit P (.error (.brokenLinks bucket), s)
  | objects {stop : Nat} {i : Fin n} {s later : σ} {error : AuditError} (here : b.nth stop = some i)
      (mirrored : b.MirroredTo (stop + 1)) (kept : P stop s)
      (objected : visit i s = (.error error, later)) : Walked b bucket visit P (.error error, later)

section Walk

variable {σ : Type} {bucket : Nat} {visit : Fin n → σ → Except AuditError Unit × σ}
  {P : Nat → σ → Prop}

theorem walkFrom_walked
    (visits : ∀ k i s later, b.MirroredTo (k + 1) → b.nth k = some i → P k s →
      visit i s = (.ok (), later) → P (k + 1) later)
    {k left : Nat} {s : σ} (steps : k + left = n) (mirrored : b.MirroredTo k) (kept : P k s) :
    b.Walked bucket visit P (b.walkFrom bucket visit left (b.beforeNth k) (b.nth k) s) := by
  induction left generalizing k s with
  | zero =>
    cases here : b.nth k with
    | none => exact .ends here mirrored kept
    | some i =>
      -- The steps are used up, and the walk is past what right backward links allow.
      exact .breaks here mirrored kept (prev_past mirrored (Nat.le_of_eq steps.symm) here)
  | succ left ih =>
    cases here : b.nth k with
    | none => exact .ends here mirrored kept
    | some i =>
      rw [walkFrom]
      split
      · rename_i wrong
        exact .breaks here mirrored kept wrong
      · rename_i right
        have further := mirroredTo_succ mirrored here (not_not.mp right)
        have before : b.beforeNth (k + 1) = some i := here
        cases visited : visit i s with
        | mk result later =>
          cases result with
          | error error => exact .objects here further kept visited
          | ok =>
            have rest := ih (by omega) further (visits k i s later further here kept visited)
            rw [nth_succ here, before] at rest
            exact rest

theorem walk_walked
    (visits : ∀ k i s later, b.MirroredTo (k + 1) → b.nth k = some i → P k s →
      visit i s = (.ok (), later) → P (k + 1) later)
    {s : σ} (kept : P 0 s) : b.Walked bucket visit P (b.walk bucket visit s) :=
  walkFrom_walked visits (Nat.zero_add n) mirroredTo_zero kept

end Walk

section Visitors

variable {σ : Type}

def noting (visit : Fin n → σ → Except AuditError Unit × σ) (i : Fin n) (s : σ × List (Fin n)) :
    Except AuditError Unit × σ × List (Fin n) :=
  ((visit i s.1).1, (visit i s.1).2, s.2 ++ [i])

def Accepting (visit : Fin n → σ → Except AuditError Unit × σ) : Prop := ∀ i s, (visit i s).1 = .ok ()

end Visitors

theorem chain_nth (limit m : Nat) {k : Nat} (inside : k < limit) :
    (b.chain limit (b.nth m))[k]? = b.nth (m + k) := by
  induction limit generalizing m k with
  | zero => exact absurd inside (Nat.not_lt_zero k)
  | succ limit ih =>
    cases here : b.nth m with
    | none =>
      rw [nth_past here (Nat.le_add_right m k)]
      rfl
    | some i =>
      cases k with
      | zero => exact here.symm
      | succ k =>
        have rest := ih (m + 1) (Nat.lt_of_succ_lt_succ inside)
        rw [nth_succ here, Nat.succ_add_eq_add_succ] at rest
        exact rest

theorem firstMembers_nth {limit k : Nat} (inside : k < limit) : (b.firstMembers limit)[k]? = b.nth k := by
  rw [firstMembers]
  exact (chain_nth limit 0 inside).trans (by rw [Nat.zero_add])

theorem linked_nth (m : Nat) (l : List (Fin n)) :
    b.Linked (b.beforeNth m) (b.nth m) l ↔
      (∀ k, b.nth (m + k) = l[k]?) ∧ ∀ k i, l[k]? = some i → b.prev[i] = b.beforeNth (m + k) := by
  induction l generalizing m with
  | nil =>
    constructor
    · intro ended
      exact ⟨fun k => nth_past ended (Nat.le_add_right m k), by simp⟩
    · rintro ⟨places, -⟩
      exact places 0
  | cons i l ih =>
    have before (here : b.nth m = some i) : b.beforeNth (m + 1) = some i := here
    constructor
    · rintro ⟨here, back, rest⟩
      rw [← nth_succ here, ← before here, ih] at rest
      obtain ⟨places, backs⟩ := rest
      refine ⟨?_, ?_⟩
      · intro k
        cases k with
        | zero => exact here
        | succ k => exact Nat.succ_add_eq_add_succ m k ▸ places k
      · intro k j there
        cases k with
        | zero => exact Option.some.inj there ▸ back
        | succ k => exact Nat.succ_add_eq_add_succ m k ▸ backs k j there
    · rintro ⟨places, backs⟩
      have here : b.nth m = some i := places 0
      refine ⟨here, backs 0 i rfl, ?_⟩
      rw [← nth_succ here, ← before here, ih]
      refine ⟨?_, ?_⟩
      · intro k
        rw [Nat.succ_add_eq_add_succ]
        exact places (k + 1)
      · intro k j there
        rw [Nat.succ_add_eq_add_succ]
        exact backs (k + 1) j there

theorem represents_nth {l : List (Fin n)} :
    b.Represents l ↔
      l.Nodup ∧ (∀ k, b.nth k = l[k]?) ∧ ∀ k i, l[k]? = some i → b.prev[i] = b.beforeNth k := by
  have linked := linked_nth (b := b) 0 l
  simp only [Nat.zero_add] at linked
  rw [Represents, and_comm]
  exact and_congr_right' linked

end Bucket

end KernelResources.Buffer
