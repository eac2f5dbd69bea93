import KernelResources.Page.Holder

-- The allocator as its users know it: one stack of pages for each core, and the pages that were lost.
-- There are no links, no counts and no memory here, and a page is its address.

namespace KernelResources.Page

structure Stock (cores : Nat) where
  -- The range under management, once there is one.
  managed : Option Frames
  -- Newest page first.
  stack : Vector (List Nat) cores
  lost : List Nat

inductive Call where
  | init (start stop : Nat)
  | alloc
  -- So many allocations in a row, until one fails.
  | allocMany (count : Nat)
  | free (address : Nat)
  | freeRange (start stop : Nat)
  | freePages (core : Nat)
  | totalFree
  | capacity
  | isFree (address : Nat)
  deriving Repr

def Holder.call? {cores : Nat} (h : Holder cores) : Holder.Event → Option Call
  | .init start stop =>
    if !h.allocator.frames.isInitialized && leavesRam h.allocator.ram start stop then none
    else some (.init start stop)
  | .alloc name =>
    match h.held.find? name with
    | some _ => none
    | none => some .alloc
  | .allocMany _ count => some (.allocMany count)
  | .free name => (h.held.find? name).map .free
  | .freeAddress address => if address = 0 then none else some (.free address)
  | .freeRange start stop => some (.freeRange start stop)
  | .freePages core => some (.freePages core)
  | .totalFree => some .totalFree
  | .capacity => some .capacity
  | .isFree address => some (.isFree address)
  | _ => none

namespace Stock

open Holder (Reply)

variable {cores : Nat}

def empty : Stock cores := ⟨none, Vector.replicate cores [], []⟩

def has (s : Stock cores) (page : Nat) : Bool :=
  s.lost.contains page || (List.finRange cores).any fun core => s.stack[core].contains page

def push (s : Stock cores) (core : Fin cores) (page : Nat) : Stock cores :=
  { s with stack := s.stack.set core (page :: s.stack[core]) core.isLt }

def pop (s : Stock cores) (core : Fin cores) : Stock cores :=
  { s with stack := s.stack.set core s.stack[core].tail core.isLt }

def lose (s : Stock cores) (page : Nat) : Stock cores := { s with lost := page :: s.lost }

def refusal (s : Stock cores) (address : Nat) : Option FreeError :=
  match s.managed with
  | none => some .uninitialized
  | some f =>
    match f.indexOf address with
    | .error error => some error
    | .ok _ => if s.has address then some (.doubleFree address) else none

-- A page goes to the stack of the core that runs, wherever it came from. Without such a core it is lost.
def free (s : Stock cores) (core address : Nat) : Except Fault Unit × Stock cores :=
  match s.refusal address with
  | some error => (.error (.freeRejected error), s)
  | none =>
    if known : core < cores then (.ok (), s.push ⟨core, known⟩ address)
    else (.error (.coreOutside .free core cores), s.lose address)

def freeAll (core : Nat) : List Nat → Stock cores → Except Fault Unit × Stock cores
  | [], s => (.ok (), s)
  | page :: rest, s =>
    match s.free core page with
    | (.ok (), s) => freeAll core rest s
    | (.error fault, s) => (.error fault, s)

def row (count first : Nat) : List Nat :=
  ((List.range count).map fun k => first + k * pageSize).filter (· ≠ 0)

def freeRange (s : Stock cores) (core start stop : Nat) : Except Fault Unit × Stock cores :=
  match nextMultiple start with
  | .error fault => (.error (.word fault), s)
  | .ok first =>
    let count := (stop - first) / pageSize
    match s.freeAll core (row count first) with
    | (.error fault, s) => (.error fault, s)
    | (.ok (), s) =>
      match addWord (first + count * pageSize) pageSize with
      | .error fault => (.error (.word fault), s)
      | .ok _ => (.ok (), s)

def init (s : Stock cores) (core start stop : Nat) :
    Except Fault (Except InitError Unit) × Stock cores :=
  if s.managed.isSome then (.ok (.error .alreadyInitialized), s)
  else match Frames.plan start stop with
  | .error fault => (.error (.word fault), s)
  | .ok (.error error) => (.ok (.error error), s)
  | .ok (.ok f) =>
    match { s with managed := some f }.freeRange core f.base f.limit with
    | (.error fault, s) => (.error fault, s)
    | (.ok (), s) => (.ok (.ok ()), s)

-- All cores, from `core` on and around.
def order (core : Fin cores) : List (Fin cores) :=
  (List.range cores).map fun k => ⟨(core + k) % cores, Nat.mod_lt _ (Nat.zero_lt_of_lt core.isLt)⟩

def source (s : Stock cores) (core : Fin cores) : Option (Fin cores) :=
  (order core).find? fun c => !s.stack[c].isEmpty

def alloc (s : Stock cores) (core : Nat) : Except Fault (Option Nat) × Stock cores :=
  match s.managed with
  | none => (.ok none, s)
  | some _ =>
    if known : core < cores then
      match s.source ⟨core, known⟩ with
      | none => (.ok none, s)
      | some c => (.ok s.stack[c].head?, s.pop c)
    else (.error (.coreOutside .alloc core cores), s)

def allocMany (core : Nat) : (count : Nat) → Stock cores →
    List Nat × Option (Option Fault) × Stock cores
  | 0, s => ([], none, s)
  | count + 1, s =>
    match s.alloc core with
    | (.ok (some page), s) =>
      let (rest, missing, s) := allocMany core count s
      (page :: rest, missing, s)
    | (.ok none, s) => ([], some none, s)
    | (.error fault, s) => ([], some (some fault), s)

def freePages (s : Stock cores) (id : Nat) : Except Fault Nat :=
  if known : id < cores then .ok s.stack[(⟨id, known⟩ : Fin cores)].length
  else .error (.coreOutside .freePages id cores)

def heights (s : Stock cores) : List (Fin cores) → Nat
  | [] => 0
  | core :: rest => s.stack[core].length + s.heights rest

def capacity (s : Stock cores) : Nat :=
  match s.managed with
  | some f => f.count
  | none => 0

def serve (s : Stock cores) (core : Nat) : Call → Reply × Stock cores
  | .init start stop =>
    match s.init core start stop with
    | (.ok result, s) => (.map (fun _ => .unit) (.ofExcept result), s)
    | (.error fault, s) => (.halted fault, s)
  | .alloc =>
    match s.alloc core with
    | (.ok (some page), s) => (.done (.page page (List.replicate pageSize allocFill)), s)
    | (.ok none, s) => (.done .noPage, s)
    | (.error fault, s) => (.halted fault, s)
  | .allocMany count =>
    let (pages, missing, s) := allocMany core count s
    (.done (.pages pages missing), s)
  | .free address =>
    let (result, s) := s.free core address
    (.map (fun _ => .unit) (.ofRun result), s)
  | .freeRange start stop =>
    let (result, s) := s.freeRange core start stop
    (.map (fun _ => .unit) (.ofRun result), s)
  | .freePages id => (.map .number (.ofRun (s.freePages id)), s)
  | .totalFree => (.done (.number (s.heights (List.finRange cores))), s)
  | .capacity => (.done (.number s.capacity), s)
  | .isFree address => (.done (.flag (s.has address)), s)

section Pages

variable {s : Stock cores} {core : Fin cores} {page other : Nat}

theorem has_iff : s.has page = true ↔ page ∈ s.lost ∨ ∃ core : Fin cores, page ∈ s.stack[core] := by
  simp [has]

theorem not_has_iff :
    s.has page = false ↔ page ∉ s.lost ∧ ∀ core : Fin cores, page ∉ s.stack[core] := by
  rw [← Bool.not_eq_true, has_iff]
  simp

theorem stack_push (s : Stock cores) (core other : Fin cores) (page : Nat) :
    (s.push core page).stack[other] =
      if core = other then page :: s.stack[core] else s.stack[other] := by
  simp only [push, entry_set]

theorem mem_push {c : Fin cores} : other ∈ (s.push core page).stack[c] ↔
    core = c ∧ other = page ∨ other ∈ s.stack[c] := by
  rw [stack_push]
  split
  · rename_i same
    subst same
    simp
  · rename_i away
    simp [away]

theorem stack_pop (s : Stock cores) (core other : Fin cores) :
    (s.pop core).stack[other] =
      if core = other then s.stack[core].tail else s.stack[other] := by
  simp only [pop, entry_set]

theorem has_push : (s.push core page).has other = (decide (other = page) || s.has other) := by
  rw [Bool.eq_iff_iff, Bool.or_eq_true, decide_eq_true_iff, has_iff, has_iff]
  simp only [mem_push]
  constructor
  · rintro (lost | ⟨c, ⟨_, same⟩ | member⟩)
    · exact .inr (.inl lost)
    · exact .inl same
    · exact .inr (.inr ⟨c, member⟩)
  · rintro (same | lost | ⟨c, member⟩)
    · exact .inr ⟨core, .inl ⟨rfl, same⟩⟩
    · exact .inl lost
    · exact .inr ⟨c, .inr member⟩

theorem has_lose : (s.lose page).has other = (decide (other = page) || s.has other) := by
  rw [Bool.eq_iff_iff, Bool.or_eq_true, decide_eq_true_iff, has_iff, has_iff]
  simp only [lose, List.mem_cons, or_assoc]

end Pages

section Growing

variable {s t u : Stock cores}

def Grows (s t : Stock cores) : Prop := ∀ p, s.has p = true → t.has p = true

theorem Grows.refl (s : Stock cores) : s.Grows s := fun _ has => has

theorem Grows.trans (first : s.Grows t) (later : t.Grows u) : s.Grows u :=
  fun p has => later p (first p has)

theorem Grows.steady (first : s.Grows t) (later : t.Grows u) (p : Nat)
    (same : s.has p = u.has p) : s.has p = t.has p := by
  have up := first p
  have on := later p
  rw [same] at up ⊢
  cases middle : t.has p <;> cases last : u.has p <;> simp_all

theorem Grows.steady_down (first : t.Grows s) (later : u.Grows t) (p : Nat)
    (same : s.has p = u.has p) : s.has p = t.has p :=
  same.trans (Grows.steady later first p same.symm)

end Growing

theorem mem_order (core c : Fin cores) : c ∈ order core := by
  refine List.mem_map.mpr ⟨(c + (cores - core)) % cores, ?_, ?_⟩
  · exact List.mem_range.mpr (Nat.mod_lt _ (Nat.zero_lt_of_lt core.isLt))
  · apply Fin.ext
    have around : core.val + (c + (cores - core)) = c + cores := by omega
    dsimp only
    rw [Nat.add_mod_mod, around, Nat.add_mod_right, Nat.mod_eq_of_lt c.isLt]

theorem order_eq (core : Fin cores) : order core = core :: Allocator.victims core := by
  obtain ⟨rest, rfl⟩ : ∃ rest, cores = rest + 1 := ⟨cores - 1, by have := core.isLt; omega⟩
  unfold order Allocator.victims
  rw [List.range_succ_eq_map, List.map_cons, List.map_map, Nat.add_sub_cancel]
  congr 1
  exact Fin.ext (Nat.mod_eq_of_lt core.isLt)

-- Core 1 of 3 goes around by way of core 2.
example : order (1 : Fin 3) = [1, 2, 0] := by decide

theorem source_none {s : Stock cores} {core : Fin cores} :
    s.source core = none ↔ ∀ c : Fin cores, s.stack[c] = [] := by
  simp only [source, List.find?_eq_none]
  constructor
  · intro all c
    simpa using all c (mem_order core c)
  · intro all c _
    simp [all c]

theorem source_some {s : Stock cores} {core c : Fin cores} (found : s.source core = some c) :
    ∃ page rest, s.stack[c] = page :: rest := by
  have full := List.find?_some found
  cases stack : s.stack[c] with
  | nil => simp [stack] at full
  | cons page rest => exact ⟨page, rest, rfl⟩

theorem row_succ (count first : Nat) :
    row (count + 1) first =
      if first = 0 then row count (first + pageSize) else first :: row count (first + pageSize) := by
  unfold row
  rw [List.range_succ_eq_map, List.map_cons, List.map_map, List.filter_cons, Nat.zero_mul]
  have later : (fun k => first + k * pageSize) ∘ Nat.succ = fun k => first + pageSize + k * pageSize := by
    funext k
    simp only [Function.comp_apply, Nat.succ_mul]
    omega
  rw [later]
  by_cases zero : first = 0 <;> simp [zero]

end Stock

end KernelResources.Page
