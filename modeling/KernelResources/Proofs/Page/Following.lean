import KernelResources.Proofs.Page.Treatment

namespace KernelResources.Page

variable {cores : Nat}

namespace Allocator

-- What the stock is of this allocator: nothing before a range was taken over, from then on the pages of
-- that range.
inductive Shows (a : Allocator cores) (s : Stock cores) : Prop where
  | idle (aligned : a.ram.base % pageSize = 0) (frames : a.frames = .empty)
      (lists : a.lists = Vector.replicate cores .empty) (stock : s = .empty)
  | running (f : Frames) (frames : a.frames = ⟨some f⟩) (managed : s.managed = some f)
      (kept : a.Kept f s)

structure Follows (a : Allocator cores) (s : Stock cores) (b : Allocator cores) (t : Stock cores) :
    Prop where
  shows : Shows b t
  managed : ∀ f, s.managed = some f → t.managed = some f
  treats : ∀ f, t.managed = some f → Treats f a s b t
  idle : t.managed = none → b = a ∧ t = s

variable {a b c : Allocator cores} {s t u : Stock cores} {f : Frames} {i : UInt32} {p : Nat}
  {core : Nat}

theorem Shows.of_frames (shows : Shows a s) (frames : a.frames = ⟨some f⟩) :
    s.managed = some f ∧ a.Kept f s := by
  cases shows with
  | idle _ none =>
    rw [none] at frames
    cases frames
  | running g same managed kept =>
    cases same.symm.trans frames
    exact ⟨managed, kept⟩

theorem Shows.of_managed (shows : Shows a s) (managed : s.managed = some f) :
    a.frames = ⟨some f⟩ ∧ a.Kept f s := by
  cases shows with
  | idle _ _ _ stock =>
    rw [stock] at managed
    cases managed
  | running g frames same kept =>
    cases managed.symm.trans same
    exact ⟨frames, kept⟩

theorem Follows.refl (shows : Shows a s) : Follows a s a s :=
  ⟨shows, fun _ managed => managed, fun f _ => .refl f a s, fun _ => ⟨rfl, rfl⟩⟩

theorem Follows.trans (first : Follows a s b t) (later : Follows b t c u)
    (steady : ∀ p, s.has p = u.has p → s.has p = t.has p) : Follows a s c u := by
  refine ⟨later.shows, fun f managed => later.managed f (first.managed f managed), ?_, ?_⟩
  · intro f managed
    have after := later.treats f managed
    cases between : t.managed with
    | none =>
      obtain ⟨rfl, rfl⟩ := first.idle between
      exact after
    | some g =>
      have same := later.managed g between
      rw [managed] at same
      cases same
      exact (first.treats f between).trans after steady
  · intro none
    obtain ⟨rfl, rfl⟩ := later.idle none
    exact first.idle none

theorem follows_running (managed : s.managed = some f) (frames : b.frames = ⟨some f⟩)
    (same : t.managed = s.managed) (kept : b.Kept f t) (treats : Treats f a s b t) : Follows a s b t := by
  have still : t.managed = some f := same.trans managed
  refine ⟨.running f frames still kept, fun g before => same.trans before, ?_, ?_⟩
  · intro g after
    cases still.symm.trans after
    exact treats
  · intro none
    rw [still] at none
    cases none

theorem follows_founded (shows : Shows a s) (fresh : a.frames = .empty) (lies : f.Lies a.ram) :
    Follows a s (a.founded f) { s with managed := some f } := by
  cases shows with
  | running g frames =>
    rw [fresh] at frames
    cases frames
  | idle _ _ lists stock =>
    subst stock
    have nothing : ∀ p, Stock.has { (Stock.empty : Stock cores) with managed := some f } p = false := by
      intro p
      simp [Stock.not_has_iff, Stock.empty]
    refine ⟨.running f rfl rfl ?_, fun _ => (nomatch ·), ?_, (nomatch ·)⟩
    · refine ⟨lies.of_extent (Ram.base_setWords _ _) (Ram.limit_setWords _ _), ?_, ?_, ?_, ?_, .nil, ?_,
        ?_, ?_⟩
      · intro core
        simp [founded, lists, Stock.empty, FreeList.empty, Frames.Chained]
      · intro core
        simp [founded, lists, Stock.empty, FreeList.empty]
      · intro i known
        exact iff_of_true (Frames.linkWord_mark lies known) (nothing _)
      · intro page member
        cases member
      · intro core
        simp [Stock.empty]
      · intro core other page member
        simp [Stock.empty] at member
      · intro core page member
        simp [Stock.empty] at member
    · intro g managed
      cases managed
      have beyond : ∀ address, ¬ f.InTable address →
          (a.founded f).ram.byte address = a.ram.byte address := by
        intro address beyond
        refine Ram.byte_setWords_of_outside ?_ allocated
        unfold Frames.InTable linkSize at beyond
        omega
      refine ⟨?_, ?_, ?_, (nomatch ·), fun address away => beyond address (away <| .inl ·)⟩
      · intro p managed _ k small
        apply beyond
        intro word
        have below := Frames.page_outside_table lies managed word
        omega
      · intro p _ _ known
        rw [nothing] at known
        cases known
      · intro p _ known
        simp [Stock.has_iff, Stock.empty] at known

section Running

variable (frames : a.frames = ⟨some f⟩) (managed : s.managed = some f) (kept : a.Kept f s)

include frames managed kept

theorem follows_lost (known : i.toNat < f.count) (out : s.has (f.page i) = false) :
    Follows a s ((a.claimed f i).filled (f.page i) freeFill) (s.lose (f.page i)) ∧
      s.Grows (s.lose (f.page i)) := by
  have claimed := kept.claimed known out
  have page := Frames.manages_page known
  have grows : s.Grows (s.lose (f.page i)) := by
    intro p has
    rw [Stock.has_lose, has, Bool.or_true]
  refine ⟨follows_running managed (by simp [frames]) rfl (claimed.filled page freeFill) ?_, grows⟩
  refine treats_one kept.lies known rfl ?_ ?_ ?_ ?_
  · simp [out, Stock.has_lose]
  · intro q apart
    simp [Stock.has_lose, apart]
  · intro address apart beside
    rw [filled_elsewhere claimed.lies page freeFill beside, ram_claimed, Frames.setLink,
      Ram.byte_setWord_of_outside apart]
  · rw [if_pos (by simp [Stock.has_lose])]
    exact filled_full claimed.lies page freeFill

theorem follows_pushed (known : i.toNat < f.count) (out : s.has (f.page i) = false)
    (core : Fin cores) :
    Follows a s (((a.claimed f i).filled (f.page i) freeFill).pushed f core i)
        (s.push core (f.page i)) ∧ s.Grows (s.push core (f.page i)) := by
  have page := Frames.manages_page known
  have filled := (kept.claimed known out).filled page freeFill
  have pushed := filled.pushed known core
  have grows : s.Grows (s.push core (f.page i)) := by
    intro p has
    rw [Stock.has_push, has, Bool.or_true]
  refine ⟨follows_running managed (by simp [frames]) rfl pushed ?_, grows⟩
  refine treats_one kept.lies known rfl ?_ ?_ ?_ ?_
  · simp [out, Stock.has_push]
  · intro q apart
    simp [Stock.has_push, apart]
  · intro address apart beside
    rw [ram_pushed, Frames.setLink, Ram.byte_setWord_of_outside apart,
      filled_elsewhere (kept.claimed known out).lies page freeFill beside, ram_claimed, Frames.setLink,
      Ram.byte_setWord_of_outside apart]
  · rw [if_pos (by simp [Stock.has_push])]
    intro k small
    -- The link is written after the fill, and lies below every page.
    have above := Frames.page_outside_table kept.lies page (Frames.link_inTable known (k := 3) (by decide))
    rw [ram_pushed, Frames.setLink, Ram.byte_setWord_of_outside (by omega)]
    exact filled_full (kept.claimed known out).lies page freeFill k small

theorem follows_popped {core : Fin cores} {rest : List Nat} (stack : s.stack[core] = p :: rest) :
    f.page a.lists[core].head = p ∧
      Follows a s ((a.popped f core).filled p allocFill) (s.pop core) ∧ (s.pop core).Grows s := by
  have head := kept.chained core
  rw [stack] at head
  obtain ⟨known, rfl, _⟩ := head
  have page := Frames.manages_page known
  have popped := kept.popped stack
  obtain ⟨here, gone⟩ := kept.gone stack
  have tails : ∀ q, q ≠ f.page a.lists[core].head → s.has q = (s.pop core).has q := by
    intro q unlike
    rw [kept.has_pop stack, decide_eq_true unlike, Bool.and_true]
  refine ⟨rfl, follows_running managed (by simp [frames]) rfl (popped.filled page allocFill) ?_, ?_⟩
  · refine treats_one kept.lies known rfl ?_ tails ?_ ?_
    · simp [here, gone]
    · intro address apart beside
      rw [filled_elsewhere popped.lies page allocFill beside, ram_popped, Frames.setLink,
        Ram.byte_setWord_of_outside apart]
    · rw [if_neg (by simp [gone])]
      exact filled_full popped.lies page allocFill
  · intro q has
    rw [kept.has_pop stack, Bool.and_eq_true] at has
    exact has.1

end Running

end Allocator

end KernelResources.Page
