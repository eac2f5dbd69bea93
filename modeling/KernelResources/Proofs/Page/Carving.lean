import Mathlib.Tactic.SplitIfs
import KernelResources.Page.Allocator
import KernelResources.Proofs.Page.Chains

namespace KernelResources.Page

def ceiling (address : Nat) : Nat := roundDown (address + (pageSize - 1))

def wholeCount (start stop : Nat) : Nat := (roundDown stop - ceiling start) / pageSize

-- Pages of a table for `total` pages: one for each 1024 of them, the last not always full.
def tableCount (total : Nat) : Nat := (total + 1023) / 1024

def pageCount (total : Nat) : Nat := total - tableCount total

def asWord (n : Nat) : Option Nat := if n < wordLimit then some n else none

def difference (a b : Nat) : Option Nat := if b ≤ a then some (a - b) else none

section Bounds

variable {start stop : Nat}

theorem ceiling_mod (address : Nat) : ceiling address % pageSize = 0 := roundDown_mod _

theorem ceiling_least (address : Nat) : address ≤ ceiling address ∧ ceiling address < address + pageSize := by
  unfold ceiling roundDown pageSize
  omega

theorem roundUp_ceiling (room : start + pageSize < wordLimit) : roundUp start = .ok (ceiling start) := by
  unfold roundUp ceiling
  simp only [addWord, if_pos room, bind, Except.bind, pure, Except.pure]
  rfl

theorem wholeCount_extent (ordered : ceiling start < roundDown stop) :
    0 < wholeCount start stop ∧ ceiling start + wholeCount start stop * pageSize = roundDown stop := by
  have lower := ceiling_mod start
  have upper := roundDown_mod stop
  unfold wholeCount
  unfold pageSize at *
  omega

theorem pageCount_wholeCount (ordered : ceiling start < roundDown stop) :
    pageCount (wholeCount start stop) = 0 ↔ wholeCount start stop = 1 := by
  obtain ⟨several, _⟩ := wholeCount_extent ordered
  unfold pageCount tableCount
  omega

theorem asWord_some {n : Nat} (word : n < wordLimit) : asWord n = some n := if_pos word

theorem difference_some {a b : Nat} (least : b ≤ a) : difference a b = some (a - b) := if_pos least

end Bounds

namespace Frames

variable {f : Frames} {ram : Ram} {start stop : Nat}

def layout (start stop : Nat) : Except InitError Frames :=
  let total := wholeCount start stop
  if roundDown stop ≤ ceiling start ∨ total = 1 then .error (.empty start stop)
  else if listEnd.toNat ≤ pageCount total then .error (.tooLarge (pageCount total))
  else .ok ⟨ceiling start, tableCount total, pageCount total, ceiling start + tableCount total * pageSize,
    roundDown stop⟩

def checkedPlan (start stop : Nat) : Option (Except InitError Frames) := do
  let sum ← asWord (start + pageSize)
  let first := roundDown (← difference sum 1)
  let last := roundDown stop
  if last ≤ first then return .error (.empty start stop)
  let total := (← difference last first) / pageSize
  let links ← asWord (total * linkSize)
  let tablePages ← asWord (links / pageSize + if links % pageSize = 0 then 0 else 1)
  let count ← difference total tablePages
  if count = 0 then return .error (.empty start stop)
  if listEnd.toNat ≤ count then return .error (.tooLarge count)
  let tableSize ← asWord (tablePages * pageSize)
  let base ← asWord (first + tableSize)
  return .ok ⟨first, tablePages, count, base, last⟩

def carve (start stop : Nat) (ram : Ram) : Except WordFault (Except InitError Frames × Ram) :=
  (plan start stop).map fun
    | .ok f => (.ok f, f.mark ram)
    | .error error => (.error error, ram)

theorem tablePagesFor_eq (total : Nat) : tablePagesFor total = tableCount total := by
  unfold tablePagesFor tableCount linkSize pageSize
  omega

theorem layout_empty (none : roundDown stop ≤ ceiling start ∨ wholeCount start stop = 1) :
    layout start stop = .error (.empty start stop) :=
  if_pos none

theorem layout_tooLarge (ordered : ceiling start < roundDown stop) (several : wholeCount start stop ≠ 1)
    (many : listEnd.toNat ≤ pageCount (wholeCount start stop)) :
    layout start stop = .error (.tooLarge (pageCount (wholeCount start stop))) := by
  simp only [layout, Nat.not_le.mpr ordered, several, or_self, if_false, if_pos many]

theorem layout_split (ordered : ceiling start < roundDown stop) (several : wholeCount start stop ≠ 1)
    (few : pageCount (wholeCount start stop) < listEnd.toNat) :
    layout start stop = .ok ⟨ceiling start, tableCount (wholeCount start stop),
      pageCount (wholeCount start stop), ceiling start + tableCount (wholeCount start stop) * pageSize,
      roundDown stop⟩ := by
  simp only [layout, Nat.not_le.mpr ordered, several, or_self, if_false, if_neg (Nat.not_le.mpr few)]

theorem plan_layout (room : start + pageSize < wordLimit) : plan start stop = .ok (layout start stop) := by
  simp only [plan, layout, roundUp_ceiling room, tablePagesFor_eq, bind, Except.bind, pure, Except.pure]
  by_cases ordered : roundDown stop ≤ ceiling start
  · simp [ordered]
  · have none := pageCount_wholeCount (Nat.lt_of_not_le ordered)
    unfold pageCount wholeCount at *
    simp only [ordered, false_or, if_false, none]
    split_ifs <;> rfl

-- No check fails: every number on the way is at most the end of the range, or the sum of the start and a
-- page.
theorem checkedPlan_layout (room : start + pageSize < wordLimit) (word : stop < wordLimit) :
    checkedPlan start stop = some (layout start stop) := by
  have below := roundDown_le stop
  have positive : 0 < pageSize := by decide
  have first : roundDown (start + pageSize - 1) = ceiling start := rfl
  simp only [checkedPlan, asWord_some room, difference_some (Nat.le_add_left_of_le positive), first,
    Option.bind_eq_bind, Option.bind_some]
  by_cases ordered : roundDown stop ≤ ceiling start
  · simp [ordered, layout]
  · obtain ⟨several, extent⟩ := wholeCount_extent (Nat.lt_of_not_le ordered)
    have none := pageCount_wholeCount (Nat.lt_of_not_le ordered)
    have table : wholeCount start stop * linkSize / pageSize +
        (if wholeCount start stop * linkSize % pageSize = 0 then 0 else 1) =
          tableCount (wholeCount start stop) := by
      unfold tableCount linkSize pageSize
      split <;> omega
    have few : tableCount (wholeCount start stop) ≤ wholeCount start stop := by
      unfold tableCount
      omega
    have total : wholeCount start stop < wordLimit := by
      unfold pageSize at *
      omega
    have links : wholeCount start stop * linkSize < wordLimit := by
      unfold linkSize pageSize at *
      omega
    have pages : tableCount (wholeCount start stop) * pageSize < wordLimit := by
      unfold pageSize at *
      omega
    have base : ceiling start + tableCount (wholeCount start stop) * pageSize < wordLimit := by
      unfold pageSize at *
      omega
    have whole : (roundDown stop - ceiling start) / pageSize = wholeCount start stop := rfl
    have rest : wholeCount start stop - tableCount (wholeCount start stop) =
      pageCount (wholeCount start stop) := rfl
    simp only [layout, ordered, false_or, if_false, difference_some (Nat.le_of_not_le ordered),
      Option.bind_some, whole, asWord_some links, table, asWord_some (Nat.lt_of_le_of_lt few total),
      difference_some few, rest, none, asWord_some pages, asWord_some base]
    split_ifs <;> rfl

-- How a range is divided: the table first, right behind it the pages, up to the last boundary.
structure Divides (f : Frames) (start stop : Nat) : Prop where
  table : f.table = ceiling start
  tablePages : f.tablePages = tableCount (wholeCount start stop)
  count : f.count = pageCount (wholeCount start stop)
  some : 1 ≤ f.count
  few : f.count < listEnd.toNat
  room : f.count * linkSize ≤ f.tablePages * pageSize
  base : f.base = f.table + f.tablePages * pageSize
  extent : f.base + f.count * pageSize = f.limit
  limit : f.limit = roundDown stop

theorem layout_divides (ordered : ceiling start < roundDown stop) (several : wholeCount start stop ≠ 1)
    (few : pageCount (wholeCount start stop) < listEnd.toNat) :
    ∃ f, layout start stop = .ok f ∧ f.Divides start stop := by
  obtain ⟨least, extent⟩ := wholeCount_extent ordered
  refine ⟨_, layout_split ordered several few, rfl, rfl, rfl, ?_, few, ?_, rfl, ?_, rfl⟩
  · have none := pageCount_wholeCount ordered
    dsimp only
    omega
  · dsimp only
    unfold pageCount tableCount linkSize pageSize
    omega
  · dsimp only
    unfold pageCount tableCount pageSize at *
    omega

section Divided

variable (divides : f.Divides start stop)

include divides

theorem divides_boundary : f.base % pageSize = 0 := by
  have first := ceiling_mod start
  have base := divides.base
  rw [divides.table] at base
  unfold pageSize at *
  omega

theorem divides_inside {k : Nat} (known : k < f.count) :
    start ≤ f.base + k * pageSize ∧ f.base + k * pageSize + pageSize ≤ stop := by
  obtain ⟨least, _⟩ := ceiling_least start
  have most := roundDown_le stop
  obtain ⟨table, _, _, _, _, _, base, extent, limit⟩ := divides
  unfold pageSize at *
  omega

theorem divides_beyond {word : Nat} (inside : f.InTable word) (k : Nat) : word < f.base + k * pageSize := by
  have room := divides.room
  have base := divides.base
  unfold InTable at inside
  omega

theorem divides_indexOf {address : Nat} {i : UInt32} :
    f.indexOf address = .ok i ↔ i.toNat < f.count ∧ address = f.base + i.toNat * pageSize :=
  indexOf_page (divides_boundary divides) divides.extent.symm divides.few

theorem divides_plain {k : Nat} (known : k < f.count) :
    (UInt32.ofNat k).toNat = k ∧ UInt32.ofNat k ≠ listEnd ∧ UInt32.ofNat k ≠ allocated := by
  have few := divides.few
  have size : UInt32.size = 4294967296 := rfl
  have mark : listEnd.toNat = 4294967294 := rfl
  have whole : (UInt32.ofNat k).toNat = k := UInt32.toNat_ofNat_of_lt' (by omega)
  have here : (UInt32.ofNat k).toNat < f.count := by rwa [whole]
  exact ⟨whole, ne_listEnd few here, ne_allocated few here⟩

end Divided

structure Marks (f : Frames) (ram after : Ram) : Prop where
  marked : ∀ i : UInt32, i.toNat < f.count → f.link after i = .ok allocated
  unchanged : ∀ address, ¬ f.InTable address → after.byte address = ram.byte address
  base : after.base = ram.base
  limit : after.limit = ram.limit

theorem mark_marks (inside : ram.covers f.table (f.count * linkSize) = true) : f.Marks ram (f.mark ram) := by
  refine ⟨?_, ?_, Ram.base_setWords _ _, Ram.limit_setWords _ _⟩
  · intro i known
    rw [link_known known]
    exact congrArg Except.ok (Ram.word_setWords inside known allocated)
  · intro address outside
    apply Ram.byte_setWords_of_outside
    unfold InTable linkSize at outside
    omega

theorem divides_covers (divides : f.Divides start stop) (inside : ram.covers start (stop - start) = true) :
    ram.covers f.table (f.count * linkSize) = true := by
  obtain ⟨above, below⟩ := Ram.covers_iff.mp inside
  obtain ⟨least, _⟩ := ceiling_least start
  have most := roundDown_le stop
  obtain ⟨table, _, _, _, _, room, base, extent, limit⟩ := divides
  refine Ram.covers_iff.mpr ⟨?_, ?_⟩ <;> omega

-- For every range whose start is not on the last page of the address space: the split faults nowhere, it
-- is refused with the memory left alone if no page or too many pages remain beside the table, and otherwise
-- the pages are numbered without gaps and all marked as handed out.
theorem ranges_are_carved_exactly (room : start + pageSize < wordLimit) (word : stop < wordLimit) (ram : Ram) :
    ∃ result after, carve start stop ram = .ok (result, after) ∧ checkedPlan start stop = some result ∧
      (roundDown stop ≤ ceiling start ∨ wholeCount start stop = 1 →
        result = .error (.empty start stop) ∧ after = ram) ∧
      (ceiling start < roundDown stop → wholeCount start stop ≠ 1 →
        listEnd.toNat ≤ pageCount (wholeCount start stop) →
          result = .error (.tooLarge (pageCount (wholeCount start stop))) ∧ after = ram) ∧
      (ceiling start < roundDown stop → wholeCount start stop ≠ 1 →
        pageCount (wholeCount start stop) < listEnd.toNat →
          ∃ f, result = .ok f ∧ f.Divides start stop ∧
            (∀ k, k < f.count →
              start ≤ f.base + k * pageSize ∧ f.base + k * pageSize + pageSize ≤ stop) ∧
            (∀ j k, j < f.count → k < f.count → j ≠ k →
              f.base + j * pageSize + pageSize ≤ f.base + k * pageSize ∨
                f.base + k * pageSize + pageSize ≤ f.base + j * pageSize) ∧
            (∀ k address, f.InTable address → address < f.base + k * pageSize) ∧
            (∀ address (i : UInt32), f.indexOf address = .ok i ↔
              i.toNat < f.count ∧ address = f.base + i.toNat * pageSize) ∧
            (∀ k, k < f.count → (UInt32.ofNat k).toNat = k ∧ UInt32.ofNat k ≠ listEnd ∧
              UInt32.ofNat k ≠ allocated) ∧
            (ram.covers start (stop - start) = true → f.Marks ram after)) := by
  have checked := checkedPlan_layout room word
  simp only [carve, plan_layout room, Except.map]
  by_cases none : roundDown stop ≤ ceiling start ∨ wholeCount start stop = 1
  · rw [layout_empty none] at checked ⊢
    refine ⟨_, _, rfl, checked, fun _ => ⟨rfl, rfl⟩, ?_, ?_⟩
    · intro ordered several
      omega
    · intro ordered several
      omega
  · obtain ⟨ordered, several⟩ := not_or.mp none
    replace ordered := Nat.lt_of_not_le ordered
    by_cases many : listEnd.toNat ≤ pageCount (wholeCount start stop)
    · rw [layout_tooLarge ordered several many] at checked ⊢
      exact ⟨_, _, rfl, checked, fun empty => absurd empty none, fun _ _ _ => ⟨rfl, rfl⟩,
        fun _ _ few => absurd few (Nat.not_lt.mpr many)⟩
    · obtain ⟨f, split, divides⟩ := layout_divides ordered several (Nat.lt_of_not_le many)
      rw [split] at checked ⊢
      refine ⟨_, _, rfl, checked, fun empty => absurd empty none, fun _ _ large => absurd large many, ?_⟩
      intro _ _ _
      refine ⟨f, rfl, divides, fun k known => divides_inside divides known, ?_,
        fun k _ inside => divides_beyond divides inside k, fun _ _ => divides_indexOf divides,
        fun k known => divides_plain divides known,
        fun inside => mark_marks (divides_covers divides inside)⟩
      intro j k _ _ unlike
      unfold pageSize
      omega

-- Four whole pages, with a part of a page before them and behind them: one for the table, three to give.
theorem ranges_are_carved_exactly_unaligned :
    0x80000001 + pageSize < wordLimit ∧ 0x80005fff < wordLimit ∧
      ∃ f after, carve 0x80000001 0x80005fff (.zeroed kernelBase 6) = .ok (.ok f, after) ∧
        f.Divides 0x80000001 0x80005fff ∧ f.count = 3 ∧ f.Marks (.zeroed kernelBase 6) after := by
  have room : 0x80000001 + pageSize < wordLimit := by decide
  have word : 0x80005fff < wordLimit := by decide
  obtain ⟨result, after, carved, _, _, _, split⟩ :=
    ranges_are_carved_exactly room word (.zeroed kernelBase 6)
  obtain ⟨f, rfl, divides, _, _, _, _, _, marks⟩ := split (by decide) (by decide) (by decide)
  exact ⟨room, word, f, after, carved, divides, divides.count, marks (by decide)⟩

end Frames

namespace Allocator

theorem init_carves {cores : Nat} {e : Execution (Fin cores) (Act cores) (Allocator cores)}
    (uninitialized : e.state.frames.isInitialized = false) (start stop : Nat) :
    (init start stop).run e =
      match Frames.carve start stop e.state.ram with
      | .error fault => (.error (.word fault), e)
      | .ok (.error error, ram) =>
        (.ok (.error error), { e with state := ⟨ram, e.state.frames, e.state.lists⟩ })
      | .ok (.ok f, ram) =>
        (do
          Operation.act (.tells (.ready f))
          freeRange f.base f.limit
          return .ok () : Run cores (Except InitError Unit)).run
            { e with state := ⟨ram, ⟨some f⟩, e.state.lists⟩ } := by
  simp only [init, Frames.carve, word, Operation.run_bind, Operation.run_view, uninitialized,
    Bool.false_eq_true, if_false, Operation.run_ofExcept]
  cases Frames.plan start stop with
  | error fault => rfl
  | ok split => cases split <;> rfl

end Allocator

end KernelResources.Page
