import KernelResources.Page.Ram

namespace KernelResources.Ram

variable {r : Ram} {address other : Nat}

theorem covers_iff {length : Nat} :
    r.covers address length = true ↔ r.base ≤ address ∧ address + length ≤ r.limit := by
  simp [covers]

@[simp] theorem base_setByte (byte : UInt8) : (r.setByte address byte).base = r.base := by
  unfold setByte
  split <;> rfl

@[simp] theorem size_setByte (byte : UInt8) :
    (r.setByte address byte).pages.size = r.pages.size := by
  unfold setByte
  split <;> simp

@[simp] theorem limit_setByte (byte : UInt8) : (r.setByte address byte).limit = r.limit := by
  simp [limit]

@[simp] theorem base_fillPage (byte : UInt8) : (r.fillPage address byte).base = r.base := by
  unfold fillPage
  split <;> rfl

@[simp] theorem size_fillPage (byte : UInt8) :
    (r.fillPage address byte).pages.size = r.pages.size := by
  unfold fillPage
  split <;> simp

@[simp] theorem limit_fillPage (byte : UInt8) : (r.fillPage address byte).limit = r.limit := by
  simp [limit]

theorem page_lt (inside : r.covers address 1 = true) :
    (address - r.base) / pageSize < r.pages.size := by
  obtain ⟨above, below⟩ := covers_iff.mp inside
  unfold limit at below
  exact Nat.div_lt_of_lt_mul (by rw [Nat.mul_comm]; omega)

theorem byte_setByte (inside : r.covers address 1 = true) (byte : UInt8) :
    (r.setByte address byte).byte other = if other = address then byte else r.byte other := by
  have above := (covers_iff.mp inside).1
  have known := page_lt inside
  by_cases low : other < r.base
  · have unlike : other ≠ address := by omega
    simp [Ram.byte, low, unlike]
  · simp only [setByte, Nat.not_lt.mpr above, if_false, Ram.byte, low, Array.getElem?_modify]
    by_cases same : (address - r.base) / pageSize = (other - r.base) / pageSize
    · obtain ⟨page, present⟩ : ∃ page, r.pages[(other - r.base) / pageSize]? = some page :=
        ⟨_, Array.getElem?_eq_getElem (same ▸ known)⟩
      simp only [same, if_true, present, Option.map_some, PageBytes.get_set, Ram.offset, Fin.mk.injEq]
      by_cases equal : other = address
      · simp [equal]
      · have apart : (address - r.base) % pageSize ≠ (other - r.base) % pageSize := by
          intro residue
          have one := Nat.div_add_mod (address - r.base) pageSize
          have two := Nat.div_add_mod (other - r.base) pageSize
          rw [same, residue] at one
          omega
        simp [equal, apart]
    · have unlike : other ≠ address := by
        intro equal
        exact same (by rw [equal])
      simp only [same, if_false, unlike]
      rfl

theorem setByte_outside (outside : r.covers address 1 = false) (byte : UInt8) :
    r.setByte address byte = r := by
  unfold setByte
  split
  · rfl
  · have beyond : r.pages.size ≤ (address - r.base) / pageSize := by
      have beyond : ¬ (r.base ≤ address ∧ address + 1 ≤ r.base + r.pages.size * pageSize) := by
        intro within
        rw [covers_iff.mpr within] at outside
        cases outside
      rw [Nat.le_div_iff_mul_le (by decide)]
      omega
    obtain ⟨base, pages⟩ := r
    simp only [mk.injEq, true_and]
    apply Array.ext_getElem?
    intro i
    rw [Array.getElem?_modify]
    split
    · subst i
      simp [Array.getElem?_eq_none beyond]
    · rfl

theorem byte_setByte_of_ne (apart : other ≠ address) (byte : UInt8) :
    (r.setByte address byte).byte other = r.byte other := by
  cases inside : r.covers address 1 with
  | true => simp [byte_setByte inside, apart]
  | false => rw [setByte_outside inside]

theorem byte_fillPage (inside : r.covers address pageSize = true)
    (aligned : (address - r.base) % pageSize = 0) (byte : UInt8) :
    (r.fillPage address byte).byte other =
      if address ≤ other ∧ other < address + pageSize then byte else r.byte other := by
  have size : pageSize = 4096 := rfl
  obtain ⟨above, below⟩ := covers_iff.mp inside
  have known : (address - r.base) / pageSize < r.pages.size :=
    page_lt (covers_iff.mpr ⟨above, by omega⟩)
  by_cases low : other < r.base
  · have outside : ¬ (address ≤ other ∧ other < address + pageSize) := by omega
    simp [Ram.byte, low, outside]
  · simp only [fillPage, Nat.not_lt.mpr above, if_false, Ram.byte, low, Array.getElem?_modify]
    have one := Nat.div_add_mod (address - r.base) pageSize
    have two := Nat.div_add_mod (other - r.base) pageSize
    have offset := Nat.mod_lt (other - r.base) (show 0 < pageSize by decide)
    by_cases same : (address - r.base) / pageSize = (other - r.base) / pageSize
    · obtain ⟨page, present⟩ : ∃ page, r.pages[(other - r.base) / pageSize]? = some page :=
        ⟨_, Array.getElem?_eq_getElem (same ▸ known)⟩
      have within : address ≤ other ∧ other < address + pageSize := by
        rw [same, aligned] at one
        omega
      simp [same, present, within, PageBytes.get]
    · have outside : ¬ (address ≤ other ∧ other < address + pageSize) := by
        rintro ⟨least, most⟩
        apply same
        have shift : other - r.base = (address - r.base) + (other - address) := by omega
        rw [aligned] at one
        rw [shift, ← one, Nat.add_zero, Nat.mul_add_div (by decide), Nat.mul_div_cancel_left _ (by decide),
          Nat.div_eq_of_lt (by omega : other - address < pageSize), Nat.add_zero]
      simp only [same, if_false, outside]
      rfl

theorem bytes_length (length : Nat) : (r.bytes address length).length = length := by
  simp [bytes]

theorem bytes_getElem {length i : Nat} (inside : i < (r.bytes address length).length) :
    (r.bytes address length)[i] = r.byte (address + i) := by
  simp [bytes]

theorem bytes_of_word (n : Nat) :
    (UInt8.ofNat n).toNat + 0x100 * (UInt8.ofNat (n / 0x100)).toNat
      + 0x10000 * (UInt8.ofNat (n / 0x10000)).toNat + 0x1000000 * (UInt8.ofNat (n / 0x1000000)).toNat
      = n % UInt32.size := by
  simp only [UInt8.toNat_ofNat', UInt32.size]
  omega

theorem word_setWord (inside : r.covers address 4 = true) (word : UInt32) :
    (r.setWord address word).word address = word := by
  obtain ⟨above, below⟩ := covers_iff.mp inside
  have here : r.base ≤ address ∧ address + 1 ≤ r.limit := by omega
  have second : r.base ≤ address + 1 ∧ address + 1 + 1 ≤ r.limit := by omega
  have third : r.base ≤ address + 2 ∧ address + 2 + 1 ≤ r.limit := by omega
  have fourth : r.base ≤ address + 3 ∧ address + 3 + 1 ≤ r.limit := by omega
  have small := word.toNat_lt
  have number := bytes_of_word word.toNat
  rw [Nat.mod_eq_of_lt small] at number
  simp only [Ram.word, setWord]
  simp only [byte_setByte, covers_iff, base_setByte, limit_setByte, here, second, third, fourth,
    and_self, if_true, Nat.add_right_cancel_iff, Nat.add_eq_left, Nat.left_eq_add,
    Nat.add_left_cancel_iff, reduceCtorEq, if_false, Nat.reduceEqDiff]
  rw [number, UInt32.ofNat_toNat]

theorem word_setWord_of_disjoint {word : UInt32}
    (apart : other + 4 ≤ address ∨ address + 4 ≤ other) :
    (r.setWord address word).word other = r.word other := by
  simp only [Ram.word, setWord]
  rw [byte_setByte_of_ne, byte_setByte_of_ne, byte_setByte_of_ne, byte_setByte_of_ne,
    byte_setByte_of_ne, byte_setByte_of_ne, byte_setByte_of_ne, byte_setByte_of_ne,
    byte_setByte_of_ne, byte_setByte_of_ne, byte_setByte_of_ne, byte_setByte_of_ne,
    byte_setByte_of_ne, byte_setByte_of_ne, byte_setByte_of_ne, byte_setByte_of_ne] <;> omega

end KernelResources.Ram
