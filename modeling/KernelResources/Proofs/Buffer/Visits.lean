import KernelResources.Buffer.Counters
import Mathlib.Data.List.Rotate

namespace KernelResources.Buffer.Counters

theorem range_filterMap {α : Type} (l : List α) : (List.range l.length).filterMap (l[·]?) = l := by
  induction l with
  | nil => rfl
  | cons x l ih =>
    rw [List.length_cons, List.range_succ_eq_map, List.filterMap_cons, List.filterMap_map]
    simpa [Function.comp_def] using ih

theorem visits_succ (blocks : List BlockId) (rounds offset : Nat) :
    visits blocks (rounds + 1) offset = visits blocks rounds offset ++ blocks.rotate offset := by
  have round : ∀ r ∈ List.range blocks.length,
      blocks[(rounds * blocks.length + r + offset) % blocks.length]? = (blocks.rotate offset)[r]? := by
    intro r member
    have inside := List.mem_range.mp member
    rw [List.getElem?_rotate inside, Nat.add_assoc, Nat.mul_add_mod_self_right]
  have last : (List.range blocks.length).filterMap
      (fun r => blocks[(rounds * blocks.length + r + offset) % blocks.length]?) =
        blocks.rotate offset := by
    rw [List.filterMap_congr round, ← List.length_rotate blocks offset]
    exact range_filterMap _
  rw [visits, Nat.succ_mul, List.range_add, List.filterMap_append, List.filterMap_map]
  exact congrArg (visits blocks rounds offset ++ ·) last

theorem count_visits (blocks : List BlockId) (rounds offset : Nat) (b : BlockId) :
    (visits blocks rounds offset).count b = rounds * blocks.count b := by
  induction rounds with
  | zero => simp [visits]
  | succ rounds ih =>
    rw [visits_succ, List.count_append, ih, (List.rotate_perm blocks offset).count_eq, Nat.succ_mul]

theorem count_clients (blocks : List BlockId) (threads rounds : Nat) (b : BlockId) :
    ((clients blocks threads rounds).flatMap (·.todo)).count b = threads * rounds * blocks.count b := by
  induction threads with
  | zero => simp [clients]
  | succ threads ih =>
    rw [clients, List.range_succ, List.map_append, List.flatMap_append, List.count_append]
    rw [clients] at ih
    simp [ih, count_visits, Nat.succ_mul, Nat.add_mul]

end KernelResources.Buffer.Counters
