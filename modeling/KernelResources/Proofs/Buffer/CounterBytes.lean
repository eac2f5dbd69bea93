import KernelResources.Buffer.Block
import Mathlib.Data.List.Basic

namespace KernelResources.Buffer.Block

theorem toList_overwrite (block : Block) (offset : Nat) (bytes : List UInt8)
    (inside : offset + bytes.length ≤ blockSize) :
    (block.overwrite offset bytes).toList =
      block.toList.take offset ++ bytes ++ block.toList.drop (offset + bytes.length) := by
  induction bytes generalizing block offset with
  | nil => simp [overwrite]
  | cons byte rest ih =>
    rw [List.length_cons] at inside
    have room : offset < block.toList.length := by
      rw [Vector.length_toList]
      omega
    have before : (block.toList.take offset).length = offset := by
      rw [List.length_take]
      omega
    have after : offset + 1 + rest.length - offset = rest.length + 1 := by omega
    have taken : (block.toList.take offset ++ byte :: block.toList.drop (offset + 1)).take (offset + 1) =
        block.toList.take offset ++ [byte] := by
      rw [List.take_append, before, List.take_of_length_le (by omega)]
      simp
    have dropped : (block.toList.take offset ++ byte :: block.toList.drop (offset + 1)).drop
        (offset + 1 + rest.length) = block.toList.drop (offset + (rest.length + 1)) := by
      rw [List.drop_append, before, List.drop_of_length_le (by omega), after, List.drop_succ_cons,
        List.drop_drop, List.nil_append]
      congr 1
      omega
    rw [overwrite, ih _ _ (by omega), Vector.toList_setIfInBounds,
      List.set_eq_take_append_cons_drop, if_pos room, taken, dropped, List.length_cons]
    simp

def number (bytes : List UInt8) : UInt64 := bytes.foldr (fun byte n => n * 256 + byte.toUInt64) 0

theorem counter_eq (block : Block) : block.counter = number (block.toList.take 8) := by
  rw [counter, number, List.foldl_reverse]

theorem number_bytes (count k : Nat) (above : k >>> (8 * count) = 0) :
    number ((List.range count).map fun i => UInt8.ofNat (k >>> (8 * i))) = UInt64.ofNat k := by
  induction count generalizing k with
  | zero =>
    have none : k = 0 := by simpa using above
    rw [none]
    rfl
  | succ count ih =>
    have rest : ((fun i => UInt8.ofNat (k >>> (8 * i))) ∘ Nat.succ) =
        fun i => UInt8.ofNat ((k >>> 8) >>> (8 * i)) := by
      funext i
      rw [Function.comp_apply, ← Nat.shiftRight_add, Nat.mul_succ, Nat.add_comm]
    have lower := ih (k >>> 8) (by rw [← Nat.shiftRight_add, Nat.add_comm, ← Nat.mul_succ]; exact above)
    have lowest : (UInt8.ofNat k).toUInt64 = UInt64.ofNat (k % 256) := by
      apply UInt64.toNat_inj.mp
      simp
      omega
    rw [number] at lower
    rw [List.range_succ_eq_map, List.map_cons, List.map_map, number, List.foldr_cons, rest, lower,
      Nat.mul_zero, Nat.shiftRight_zero, lowest]
    have whole : k >>> 8 * 256 + k % 256 = k := by
      rw [Nat.shiftRight_eq_div_pow]
      omega
    calc UInt64.ofNat (k >>> 8) * 256 + UInt64.ofNat (k % 256)
      _ = UInt64.ofNat (k >>> 8 * 256 + k % 256) := by rw [UInt64.ofNat_add, UInt64.ofNat_mul]; rfl
      _ = UInt64.ofNat k := by rw [whole]

theorem counter_overwrite (block : Block) (n : UInt64) :
    (block.overwrite 0 (counterBytes n)).counter = n := by
  have length : (counterBytes n).length = 8 := by simp [counterBytes]
  rw [counter_eq, toList_overwrite block 0 _ (by rw [length]; decide), List.take_zero, List.nil_append,
    ← length, List.take_left, counterBytes, number_bytes]
  · simp
  · rw [Nat.shiftRight_eq_div_pow]
    exact Nat.div_eq_of_lt n.toNat_lt

end KernelResources.Buffer.Block
