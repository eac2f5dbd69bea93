import KernelResources.Page.RamBytes

namespace KernelResources.Ram

variable {r s : Ram} {address other : Nat}

@[simp] theorem base_setWord (word : UInt32) : (r.setWord address word).base = r.base := by
  simp [setWord]

@[simp] theorem limit_setWord (word : UInt32) : (r.setWord address word).limit = r.limit := by
  simp [setWord]

@[simp] theorem base_setWords (word : UInt32) (count : Nat) :
    (r.setWords address word count).base = r.base := by
  induction count generalizing r address with
  | zero => rfl
  | succ count ih => rw [setWords, ih, base_setWord]

@[simp] theorem limit_setWords (word : UInt32) (count : Nat) :
    (r.setWords address word count).limit = r.limit := by
  induction count generalizing r address with
  | zero => rfl
  | succ count ih => rw [setWords, ih, limit_setWord]

@[simp] theorem base_setBytes (bytes : List UInt8) : (r.setBytes address bytes).base = r.base := by
  induction bytes generalizing r address with
  | nil => rfl
  | cons byte rest ih => rw [setBytes, ih, base_setByte]

@[simp] theorem limit_setBytes (bytes : List UInt8) : (r.setBytes address bytes).limit = r.limit := by
  induction bytes generalizing r address with
  | nil => rfl
  | cons byte rest ih => rw [setBytes, ih, limit_setByte]

theorem beside_of_ne {first size : Nat} (unlike : ∀ k, k < size → other ≠ first + k) :
    other < first ∨ first + size ≤ other := by
  by_cases below : other < first
  · exact .inl below
  · refine .inr (Nat.not_lt.mp fun within => unlike (other - first) (by omega) ?_)
    rw [Nat.add_sub_of_le (Nat.not_lt.mp below)]

theorem word_congr (same : ∀ k, k < 4 → s.byte (address + k) = r.byte (address + k)) :
    s.word address = r.word address := by
  have first := same 0 (by decide)
  rw [Nat.add_zero] at first
  rw [word, word, first, same 1 (by decide), same 2 (by decide), same 3 (by decide)]

theorem byte_setWord_of_outside (outside : other < address ∨ address + 4 ≤ other) (word : UInt32) :
    (r.setWord address word).byte other = r.byte other := by
  simp only [setWord]
  rw [byte_setByte_of_ne, byte_setByte_of_ne, byte_setByte_of_ne, byte_setByte_of_ne] <;> omega

theorem byte_setWords_of_outside {count : Nat}
    (outside : other < address ∨ address + count * 4 ≤ other) (word : UInt32) :
    (r.setWords address word count).byte other = r.byte other := by
  induction count generalizing r address with
  | zero => rfl
  | succ count ih =>
    rw [setWords, ih (by omega)]
    exact byte_setWord_of_outside (by omega) word

theorem word_setWords {count i : Nat} (inside : r.covers address (count * 4) = true) (here : i < count)
    (word : UInt32) : (r.setWords address word count).word (address + i * 4) = word := by
  induction count generalizing r address i with
  | zero => cases here
  | succ count ih =>
    obtain ⟨above, below⟩ := covers_iff.mp inside
    rw [setWords]
    cases i with
    | zero =>
      have kept : ((r.setWord address word).setWords (address + 4) word count).word address =
          (r.setWord address word).word address := by
        apply word_congr
        intro k small
        exact byte_setWords_of_outside (by omega) word
      rw [Nat.zero_mul, Nat.add_zero address, kept]
      exact word_setWord (covers_iff.mpr (by omega)) word
    | succ i =>
      have rest : (r.setWord address word).covers (address + 4) (count * 4) = true := by
        rw [covers_iff, base_setWord, limit_setWord]
        omega
      have later := ih rest (by omega : i < count)
      rwa [show address + 4 + i * 4 = address + (i + 1) * 4 by omega] at later

theorem byte_setBytes_of_outside {bytes : List UInt8}
    (outside : other < address ∨ address + bytes.length ≤ other) :
    (r.setBytes address bytes).byte other = r.byte other := by
  induction bytes generalizing r address with
  | nil => rfl
  | cons byte rest ih =>
    rw [List.length_cons] at outside
    rw [setBytes, ih (by omega)]
    exact byte_setByte_of_ne (by omega) byte

theorem byte_setBytes_inside {bytes : List UInt8} {k : Nat}
    (inside : r.covers address bytes.length = true) (here : k < bytes.length) :
    (r.setBytes address bytes).byte (address + k) = bytes[k] := by
  induction bytes generalizing r address k with
  | nil => cases here
  | cons byte rest ih =>
    rw [covers_iff, List.length_cons] at inside
    rw [setBytes]
    cases k with
    | zero =>
      rw [Nat.add_zero address, byte_setBytes_of_outside (by omega),
        byte_setByte (covers_iff.mpr (by omega)), if_pos rfl, List.getElem_cons_zero]
    | succ k =>
      have within : (r.setByte address byte).covers (address + 1) rest.length = true := by
        rw [covers_iff, base_setByte, limit_setByte]
        omega
      rw [List.getElem_cons_succ, show address + (k + 1) = address + 1 + k by omega]
      exact ih within (by simpa using here)

theorem bytes_setBytes {r : Ram} {page address size : Nat} {bytes : List UInt8}
    (least : page ≤ address) (most : address + bytes.length ≤ page + size)
    (inside : r.covers address bytes.length = true) :
    (r.setBytes address bytes).bytes page size =
      (r.bytes page size).take (address - page) ++ bytes ++
        (r.bytes page size).drop (address - page + bytes.length) := by
  apply List.ext_getElem
  · simp [bytes_length]
    omega
  · intro k bound other
    rw [bytes_length] at bound
    rw [bytes_getElem]
    by_cases before : k < address - page
    · rw [List.getElem_append_left (by simp [bytes_length]; omega),
        List.getElem_append_left (by simp [bytes_length]; omega), List.getElem_take, bytes_getElem]
      exact byte_setBytes_of_outside (by omega)
    · by_cases within : k < address - page + bytes.length
      · rw [List.getElem_append_left (by simp [bytes_length]; omega),
          List.getElem_append_right (by simp [bytes_length]; omega)]
        have here := byte_setBytes_inside inside (k := k - (address - page)) (by omega)
        rw [show address + (k - (address - page)) = page + k by omega] at here
        rw [here]
        congr 1
        simp [bytes_length]
        omega
      · rw [List.getElem_append_right (by simp [bytes_length]; omega), List.getElem_drop, bytes_getElem]
        rw [byte_setBytes_of_outside (by omega)]
        congr 1
        simp [bytes_length]
        omega

end KernelResources.Ram
