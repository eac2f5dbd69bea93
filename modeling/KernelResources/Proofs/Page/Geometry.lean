import KernelResources.Page.Frames
import KernelResources.Proofs.Page.RamWrites

namespace KernelResources.Page

namespace Frames

-- The table lies below the pages, the pages fill the range up to its limit, and all of it is memory.
structure Lies (f : Frames) (ram : Ram) : Prop where
  aligned : ram.base % pageSize = 0
  above : ram.base ≤ f.table
  below : f.limit ≤ ram.limit
  table : f.table + f.count * linkSize ≤ f.base
  boundary : f.base % pageSize = 0
  extent : f.limit = f.base + f.count * pageSize
  few : f.count < listEnd.toNat

def Manages (f : Frames) (address : Nat) : Prop := ∃ i : UInt32, i.toNat < f.count ∧ address = f.page i

def InTable (f : Frames) (address : Nat) : Prop :=
  f.table ≤ address ∧ address < f.table + f.count * linkSize

variable {f : Frames} {ram other : Ram} {i j : UInt32} {p q : Nat}

theorem Lies.of_extent (lies : f.Lies ram) (base : other.base = ram.base)
    (limit : other.limit = ram.limit) : f.Lies other := by
  obtain ⟨aligned, above, below, table, boundary, extent, few⟩ := lies
  refine ⟨?_, ?_, ?_, table, boundary, extent, few⟩
  · rw [base]
    exact aligned
  · rw [base]
    exact above
  · rw [limit]
    exact below

theorem page_inj (same : f.page i = f.page j) : i = j := by
  unfold page pageSize at same
  apply UInt32.toNat_inj.mp
  omega

theorem manages_page (known : i.toNat < f.count) : f.Manages (f.page i) := ⟨i, known, rfl⟩

theorem page_inside (lies : f.Lies ram) (managed : f.Manages p) : ram.covers p pageSize = true := by
  obtain ⟨i, known, rfl⟩ := managed
  obtain ⟨_, above, below, table, _, extent, _⟩ := lies
  rw [Ram.covers_iff]
  unfold page
  unfold pageSize at *
  omega

theorem page_aligned (lies : f.Lies ram) (managed : f.Manages p) : (p - ram.base) % pageSize = 0 := by
  obtain ⟨i, known, rfl⟩ := managed
  obtain ⟨aligned, above, _, table, boundary, _, _⟩ := lies
  unfold page
  unfold pageSize at *
  omega

theorem link_inside (lies : f.Lies ram) (known : i.toNat < f.count) :
    ram.covers (f.linkAddress i) 4 = true := by
  obtain ⟨_, above, below, table, _, extent, _⟩ := lies
  rw [Ram.covers_iff]
  unfold linkAddress
  unfold linkSize at *
  omega

theorem pages_apart (managedP : f.Manages p) (managedQ : f.Manages q) (apart : p ≠ q) :
    p + pageSize ≤ q ∨ q + pageSize ≤ p := by
  obtain ⟨i, _, rfl⟩ := managedP
  obtain ⟨j, _, rfl⟩ := managedQ
  have unlike : i.toNat ≠ j.toNat := fun same => apart (by rw [UInt32.toNat_inj.mp same])
  unfold page pageSize
  omega

theorem links_apart (unlike : i ≠ j) :
    f.linkAddress j + 4 ≤ f.linkAddress i ∨ f.linkAddress i + 4 ≤ f.linkAddress j := by
  have apart : i.toNat ≠ j.toNat := fun same => unlike (UInt32.toNat_inj.mp same)
  unfold linkAddress linkSize
  omega

theorem link_inTable (known : i.toNat < f.count) {k : Nat} (small : k < 4) :
    f.InTable (f.linkAddress i + k) := by
  unfold InTable linkAddress linkSize
  omega

theorem page_outside_table (lies : f.Lies ram) (managed : f.Manages p) {address : Nat}
    (word : f.InTable address) : address < p := by
  obtain ⟨i, _, rfl⟩ := managed
  have table := lies.table
  unfold InTable at word
  unfold page
  omega

theorem indexOf_page (boundary : f.base % pageSize = 0) (extent : f.limit = f.base + f.count * pageSize)
    (few : f.count < listEnd.toNat) {address : Nat} :
    f.indexOf address = .ok i ↔ i.toNat < f.count ∧ address = f.page i := by
  have word : listEnd.toNat = 4294967294 := rfl
  have size : UInt32.size = 4294967296 := rfl
  rw [word] at few
  unfold indexOf page
  unfold pageSize at *
  constructor
  · intro found
    split at found
    · cases found
    split at found
    · cases found
    split at found
    · cases found
    · cases found
      rw [UInt32.toNat_ofNat_of_lt' (by omega)]
      omega
  · rintro ⟨known, rfl⟩
    rw [if_neg (by omega), if_neg (by omega), if_neg (by omega)]
    have index : (f.base + i.toNat * 4096 - f.base) / 4096 = i.toNat := by omega
    rw [index, UInt32.ofNat_toNat]

theorem indexOf_ok (lies : f.Lies ram) {address : Nat} :
    f.indexOf address = .ok i ↔ i.toNat < f.count ∧ address = f.page i :=
  indexOf_page lies.boundary lies.extent lies.few

theorem plan_ok {start stop : Nat} (planned : plan start stop = .ok (.ok f)) :
    ∃ total, wholePages start stop = .ok (f.table, total) ∧ 1 < total ∧ total < pageLimit ∧
      f.limit = f.table + total * pageSize ∧ f.table % pageSize = 0 ∧ f.count + f.tablePages = total ∧
      f.base = f.table + f.tablePages * pageSize ∧ f.count * linkSize ≤ f.tablePages * pageSize ∧
      f.count < listEnd.toNat := by
  have word : listEnd.toNat = 4294967294 := rfl
  have unit : linkSize = 4 := rfl
  have size : pageSize = 4096 := rfl
  unfold plan at planned
  unfold wholePages
  cases rounded : roundUp start with
  | error fault =>
    rw [rounded] at planned
    cases planned
  | ok first =>
    have boundary : first % pageSize = 0 := by
      unfold roundUp at rounded
      cases sum : addWord start pageSize with
      | error fault =>
        rw [sum] at rounded
        cases rounded
      | ok value =>
        rw [sum] at rounded
        cases rounded
        exact roundDown_mod _
    have ending := roundDown_mod stop
    rw [rounded] at planned
    simp only [bind, Except.bind, pure, Except.pure] at planned ⊢
    unfold tablePagesFor pageLimit at *
    rw [word, unit, size] at *
    split at planned
    · cases planned
    split at planned
    · cases planned
    split at planned
    · cases planned
    · cases planned
      refine ⟨_, rfl, ?_⟩
      dsimp only
      omega

theorem lies_of_plan {start stop : Nat} (aligned : ram.base % pageSize = 0)
    (planned : plan start stop = .ok (.ok f)) (stays : leavesRam ram start stop = false) :
    f.Lies ram := by
  obtain ⟨total, whole, several, limited, limit, boundary, count, base, room, few⟩ := plan_ok planned
  have inside : ram.covers f.table (total * pageSize) = true := by
    unfold leavesRam at stays
    rw [whole] at stays
    cases covered : ram.covers f.table (total * pageSize) with
    | true => rfl
    | false => simp [several, limited, covered] at stays
  obtain ⟨above, below⟩ := Ram.covers_iff.mp inside
  have size : pageSize = 4096 := rfl
  have unit : linkSize = 4 := rfl
  rw [size] at below limit boundary base room
  rw [unit] at room
  refine ⟨aligned, above, by omega, ?_, ?_, ?_, few⟩
  · rw [unit]
    omega
  · rw [size]
    omega
  · rw [size]
    omega

end Frames

end KernelResources.Page
