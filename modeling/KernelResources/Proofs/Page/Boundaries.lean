import KernelResources.Proofs.Page.Carving

-- Rounding over the whole address space. The two ways of rounding up differ at one address: the last
-- boundary is a boundary itself, but no whole page can be added to it.

namespace KernelResources.Page

def lastBoundary : Nat := wordLimit - pageSize

def clearOffset (address : UInt64) : UInt64 := address &&& ~~~(UInt64.ofNat (pageSize - 1))

-- Rounding up as it is done on words: the sum is checked, and so is the step back from it.
def liftOffset (address : UInt64) : Except WordFault UInt64 := do
  let sum ← addWord address.toNat pageSize
  let least ← predWord sum
  return clearOffset (UInt64.ofNat least)

structure BoundaryFrom (address m : Nat) : Prop where
  aligned : m % pageSize = 0
  above : address ≤ m
  word : m < wordLimit

structure RoundsDown (address m : Nat) : Prop where
  aligned : m % pageSize = 0
  below : m ≤ address
  greatest : ∀ k, k % pageSize = 0 → k ≤ address → k ≤ m

structure RoundsUp (address : Nat) (answer : Except WordFault Nat) : Prop where
  least : ∀ m, answer = .ok m ↔ BoundaryFrom address m ∧ ∀ k, BoundaryFrom address k → m ≤ k
  overflows : answer = .error .addOverflow ↔ ∀ m, ¬ BoundaryFrom address m

theorem toNat_clearOffset (address : UInt64) : (clearOffset address).toNat = roundDown address.toNat := by
  have word : address.toNat < 2 ^ 64 := address.toNat_lt
  have mask : (~~~(UInt64.ofNat (pageSize - 1))).toNat = 2 ^ 64 - (4095 + 1) := rfl
  have low : 4095 = 2 ^ 12 - 1 := rfl
  have cut : roundDown address.toNat = address.toNat / 2 ^ 12 * 2 ^ 12 := rfl
  apply Nat.eq_of_testBit_eq
  intro i
  rw [clearOffset, UInt64.toNat_and, mask, cut, Nat.testBit_and,
    Nat.testBit_two_pow_sub_succ (by decide), low, Nat.testBit_two_pow_sub_one,
    Nat.testBit_mul_two_pow, Nat.testBit_div_two_pow]
  by_cases high : 12 ≤ i
  · rw [Nat.sub_add_cancel high]
    by_cases inside : i < 64
    · simp [high, inside, Nat.not_lt.mpr high]
    · have size : 2 ^ 64 ≤ 2 ^ i := Nat.pow_le_pow_right (by decide) (Nat.not_lt.mp inside)
      simp [Nat.testBit_lt_two_pow (Nat.lt_of_lt_of_le word size)]
  · simp [high, Nat.lt_of_not_le high]

theorem roundUp_cases (address : Nat) :
    roundUp address =
      if address + pageSize < wordLimit then .ok (ceiling address) else .error .addOverflow := by
  split
  · rename_i room
    exact roundUp_ceiling room
  · rename_i full
    simp only [roundUp, addWord, if_neg full, bind, Except.bind]

theorem nextMultiple_cases {address : Nat} (word : address < wordLimit) :
    nextMultiple address =
      if ceiling address < wordLimit then .ok (ceiling address) else .error .addOverflow := by
  obtain ⟨least, most⟩ := ceiling_least address
  have boundary := ceiling_mod address
  unfold nextMultiple
  by_cases aligned : address % pageSize = 0
  · have here : ceiling address = address := by
      unfold pageSize at *
      omega
    rw [if_pos aligned, here, if_pos word]
  · have there : address + (pageSize - address % pageSize) = ceiling address := by
      unfold pageSize at *
      omega
    rw [if_neg aligned, addWord, there]

theorem toNat_liftOffset (address : UInt64) :
    (liftOffset address).map UInt64.toNat = roundUp address.toNat := by
  rw [roundUp_cases, liftOffset, addWord]
  split
  · rename_i room
    have less : address.toNat + (pageSize - 1) < UInt64.size := by
      unfold wordLimit pageSize at *
      omega
    have same : (UInt64.ofNat (address.toNat + (pageSize - 1))).toNat = address.toNat + (pageSize - 1) :=
      UInt64.toNat_ofNat_of_lt' less
    change Except.ok (clearOffset (UInt64.ofNat (address.toNat + (pageSize - 1)))).toNat = _
    rw [toNat_clearOffset, same, ceiling]
  · rfl

theorem roundDown_rounds (address : Nat) : RoundsDown address (roundDown address) := by
  refine ⟨roundDown_mod address, roundDown_le address, ?_⟩
  intro k aligned below
  unfold roundDown pageSize at *
  omega

section Ceiling

variable {address : Nat}

theorem ceiling_boundary (word : ceiling address < wordLimit) : BoundaryFrom address (ceiling address) :=
  ⟨ceiling_mod address, (ceiling_least address).1, word⟩

theorem ceiling_le {m : Nat} (boundary : BoundaryFrom address m) : ceiling address ≤ m := by
  obtain ⟨aligned, above, -⟩ := boundary
  unfold ceiling roundDown pageSize at *
  omega

theorem roundsUp_ceiling {answer : Except WordFault Nat} :
    RoundsUp address answer ↔
      answer = if ceiling address < wordLimit then .ok (ceiling address) else .error .addOverflow := by
  by_cases word : ceiling address < wordLimit
  · rw [if_pos word]
    constructor
    · intro rounds
      exact (rounds.least _).mpr ⟨ceiling_boundary word, fun _ => ceiling_le⟩
    · rintro rfl
      refine ⟨?_, ?_⟩
      · intro m
        constructor
        · intro same
          cases same
          exact ⟨ceiling_boundary word, fun _ => ceiling_le⟩
        · rintro ⟨boundary, least⟩
          exact congrArg Except.ok (Nat.le_antisymm (ceiling_le boundary) (least _ (ceiling_boundary word)))
      · constructor
        · rintro ⟨⟩
        · intro none
          exact absurd (ceiling_boundary word) (none _)
  · have none : ∀ m, ¬ BoundaryFrom address m := fun m boundary =>
      word (Nat.lt_of_le_of_lt (ceiling_le boundary) boundary.word)
    rw [if_neg word]
    constructor
    · intro rounds
      exact rounds.overflows.mpr none
    · rintro rfl
      refine ⟨?_, iff_of_true rfl none⟩
      intro m
      constructor
      · rintro ⟨⟩
      · rintro ⟨boundary, -⟩
        exact absurd boundary (none m)

theorem ceiling_word : ceiling address < wordLimit ↔ address ≤ lastBoundary := by
  unfold ceiling roundDown lastBoundary wordLimit UInt64.size pageSize
  omega

theorem room_last : address + pageSize < wordLimit ↔ address < lastBoundary := by
  unfold lastBoundary wordLimit UInt64.size pageSize
  omega

end Ceiling

theorem nextMultiple_rounds {address : Nat} (word : address < wordLimit) :
    RoundsUp address (nextMultiple address) :=
  roundsUp_ceiling.mpr (nextMultiple_cases word)

theorem roundUp_nextMultiple {address : Nat} (word : address < wordLimit) :
    roundUp address = nextMultiple address ↔ address ≠ lastBoundary := by
  rw [roundUp_cases, nextMultiple_cases word]
  simp only [room_last, ceiling_word]
  rcases Nat.lt_trichotomy address lastBoundary with below | here | above
  · simp [below, Nat.le_of_lt below, Nat.ne_of_lt below]
  · simp [here]
  · simp [Nat.not_lt.mpr (Nat.le_of_lt above), Nat.not_le.mpr above, Nat.ne_of_gt above]

-- At every 64-bit address: clearing bits rounds down to the greatest boundary, and the next multiple of the
-- page size is the least boundary above, or overflows where there is none. Adding a page and cutting gives
-- the same answers everywhere but at the last boundary, which it refuses.
theorem rounding_is_exact_but_at_the_last_boundary (address : UInt64) :
    (clearOffset address).toNat = roundDown address.toNat ∧
      RoundsDown address.toNat (roundDown address.toNat) ∧
      RoundsUp address.toNat (nextMultiple address.toNat) ∧
      (liftOffset address).map UInt64.toNat = roundUp address.toNat ∧
      (roundUp address.toNat = nextMultiple address.toNat ↔ address.toNat ≠ lastBoundary) ∧
      (RoundsUp address.toNat (roundUp address.toNat) ↔ address.toNat ≠ lastBoundary) ∧
      roundUp lastBoundary = .error .addOverflow := by
  have word : address.toNat < wordLimit := address.toNat_lt
  refine ⟨toNat_clearOffset address, roundDown_rounds _, nextMultiple_rounds word,
    toNat_liftOffset address, roundUp_nextMultiple word, ?_, rfl⟩
  rw [roundsUp_ceiling, ← nextMultiple_cases word]
  exact roundUp_nextMultiple word

-- The last boundary is above itself, and it is refused: ranges that start there cannot be split, although
-- they can be freed.
theorem last_boundary_is_refused :
    BoundaryFrom lastBoundary lastBoundary ∧ roundUp lastBoundary = .error .addOverflow ∧
      nextMultiple lastBoundary = .ok lastBoundary ∧
      (∀ stop, Frames.plan lastBoundary stop = .error .addOverflow) ∧
      ¬ ∀ address : UInt64, RoundsDown address.toNat (roundDown address.toNat) ∧
        RoundsUp address.toNat (roundUp address.toNat) ∧
        roundUp address.toNat = nextMultiple address.toNat := by
  refine ⟨⟨by decide, Nat.le_refl _, by decide⟩, rfl, rfl, fun _ => rfl, ?_⟩
  intro exact
  have refused : roundUp lastBoundary = nextMultiple lastBoundary :=
    (exact (UInt64.ofNat lastBoundary)).2.2
  cases refused

end KernelResources.Page
