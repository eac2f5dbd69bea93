-- Vectors indexed by positions of their own: `v[i]` for `i : Fin n` has no bound to prove.

namespace KernelResources

variable {α : Type} {n : Nat}

instance getElemEntry : GetElem (Vector α n) (Fin n) α fun _ _ => True where
  getElem v i _ := v.get i

theorem entry_val (v : Vector α n) (i : Fin n) : v[i] = getElem v i.val i.isLt := rfl

theorem entry_set (v : Vector α n) (i j : Fin n) (x : α) :
    (v.set i x i.isLt)[j] = if i = j then x else v[j] := by
  simp [entry_val, Vector.getElem_set, Fin.ext_iff]

@[simp] theorem entry_set_self (v : Vector α n) (i : Fin n) (x : α) : (v.set i x i.isLt)[i] = x := by
  rw [entry_set, if_pos rfl]

@[simp] theorem set_entry (v : Vector α n) (i : Fin n) : v.set i v[i] i.isLt = v := by
  simp [entry_val]

@[simp] theorem entry_replicate (x : α) (i : Fin n) : (Vector.replicate n x)[i] = x := by
  simp [entry_val]

@[simp] theorem entry_ofFn (f : Fin n → α) (i : Fin n) : (Vector.ofFn f)[i] = f i := by
  simp [entry_val]

@[simp] theorem entry_map {β : Type} (f : α → β) (v : Vector α n) (i : Fin n) :
    (v.map f)[i] = f v[i] := by
  simp [entry_val]

end KernelResources
