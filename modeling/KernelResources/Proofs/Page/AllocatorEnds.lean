import Mathlib.Data.List.FinRange
import KernelResources.Proofs.OperationEnds
import KernelResources.Proofs.Page.Following

namespace KernelResources.Page.Allocator

open Operation

variable {cores : Nat} {a : Allocator cores} {s : Stock cores} {f : Frames} {core : Nat}

theorem ownList_known (caller : Caller) (known : core < cores) :
    (ownList caller : Run cores _).Yields core a (.ok ⟨core, known⟩) a := by
  rintro e rfl rfl
  unfold ownList
  rw [run_bind, run_processor]
  simp only [known, ↓reduceDIte]
  exact ⟨rfl, rfl, rfl⟩

theorem ownList_unknown (caller : Caller) (unknown : ¬ core < cores) :
    (ownList caller : Run cores _).Yields core a (.error (.coreOutside caller core cores)) a := by
  rintro e rfl rfl
  unfold ownList
  rw [run_bind, run_processor]
  simp only [unknown, ↓reduceDIte]
  exact ⟨rfl, rfl, rfl⟩

theorem pushOn_yields {i : UInt32} (known : i.toNat < f.count) (c : Fin cores) :
    (pushOn f c i).Yields core a (.ok ()) (a.pushed f c i) := by
  refine yields_holding c (yields_bind (yields_act _ _ _) (yields_attempt ?_))
  simp only [FreeList.push, Frames.link_known known]
  rfl

theorem popFrom_empty (kept : a.Kept f s) {c : Fin cores} (stack : s.stack[c] = []) :
    (popFrom f c).Yields core a (.ok none) a := by
  have ends := kept.chained c
  rw [stack] at ends
  refine yields_holding c (yields_bind (yields_act _ _ _) (yields_attempt ?_))
  simp only [FreeList.pop, if_pos (show a.lists[c].head = listEnd from ends), set_entry]
  rfl

theorem popFrom_stack (kept : a.Kept f s) {c : Fin cores} {p : Nat} {rest : List Nat}
    (stack : s.stack[c] = p :: rest) :
    (popFrom f c).Yields core a (.ok (some a.lists[c].head)) (a.popped f c) := by
  have chained := kept.chained c
  have length := kept.lengths c
  rw [stack] at chained length
  obtain ⟨known, _, _⟩ := chained
  refine yields_holding c (yields_bind (yields_act _ _ _) (yields_attempt ?_))
  simp only [FreeList.pop, if_neg (Frames.ne_listEnd kept.lies.few known), Frames.link_known known, length,
    List.length_cons, predWord, popped, Nat.add_sub_cancel]
  rfl

theorem managed_yields {frames : Option Frames} (managed : a.frames = ⟨frames⟩) :
    (Allocator.managed : Run cores _).Yields core a (.ok frames) a := by
  have looked : (Allocator.managed : Run cores _).Yields core a (.ok a.frames.get?) a :=
    yields_view core a _
  rwa [managed] at looked

theorem claim_yields {i : UInt32} {address : Nat} {result : Except FreeError Unit} {claimed : Ram}
    (claim : f.claim a.ram i address = (.ok result, claimed)) :
    (attempt fun ⟨ram, cell, lists⟩ =>
      let (result, ram) := f.claim ram i address
      (result.mapError .word, ⟨ram, cell, lists⟩) : Run cores (Except FreeError Unit)).Yields
        core a (.ok result) ⟨claimed, a.frames, a.lists⟩ := by
  apply yields_attempt
  simp only [claim]
  rfl

theorem accept_refuses (shows : Shows a s) {address : Nat} {error : FreeError}
    (refused : s.refusal address = some error) :
    (accept address).Yields core a (.error (.freeRejected error)) a := by
  cases shows with
  | idle _ frames _ stock =>
    subst stock
    cases refused
    exact yields_bind (managed_yields frames) (yields_throw _ _ _)
  | running f frames managed kept =>
    refine yields_bind (managed_yields frames) ?_
    simp only [Stock.refusal, managed] at refused
    dsimp only
    cases place : f.indexOf address with
    | error why =>
      rw [place] at refused
      cases refused
      exact yields_throw _ _ _
    | ok i =>
      obtain ⟨known, page⟩ := (Frames.indexOf_ok kept.lies).mp place
      simp only [place] at refused ⊢
      split at refused
      · rename_i has
        cases refused
        have free : f.linkWord a.ram i ≠ allocated := (kept.unmarked known).mpr (page ▸ has)
        have claim : f.claim a.ram i address = (.ok (.error (.doubleFree address)), a.ram) := by
          simp only [Frames.claim, Frames.link_known known, if_neg free]
        exact yields_bind (claim_yields claim) (yields_throw _ _ _)
      · cases refused

theorem accept_claims (shows : Shows a s) {address : Nat} (accepted : s.refusal address = none) :
    ∃ f i, a.frames = ⟨some f⟩ ∧ s.managed = some f ∧ a.Kept f s ∧ i.toNat < f.count ∧
      address = f.page i ∧ s.has address = false ∧
      ∀ core, (accept address).Yields core a (.ok (f, i)) (a.claimed f i) := by
  cases shows with
  | idle _ _ _ stock =>
    subst stock
    cases accepted
  | running f frames managed kept =>
    simp only [Stock.refusal, managed] at accepted
    cases place : f.indexOf address with
    | error why =>
      rw [place] at accepted
      cases accepted
    | ok i =>
      obtain ⟨known, page⟩ := (Frames.indexOf_ok kept.lies).mp place
      simp only [place] at accepted
      split at accepted
      · cases accepted
      · rename_i out
        have out : s.has address = false := Bool.eq_false_iff.mpr out
        refine ⟨f, i, frames, managed, kept, known, page, out, fun core => ?_⟩
        refine yields_bind (managed_yields frames) ?_
        simp only [place]
        have marked : f.linkWord a.ram i = allocated := (kept.marked i known).mpr (page ▸ out)
        have claim : f.claim a.ram i address = (.ok (.ok ()), f.setLink a.ram i listEnd) := by
          simp only [Frames.claim, Frames.link_known known, if_pos marked]
        exact yields_bind (claim_yields claim) (yields_pure _ _ _)

theorem fillPage_yields (address : Nat) (byte : UInt8) :
    (fillPage address byte).Yields core a (.ok ()) (a.filled address byte) :=
  yields_change core a _

theorem free_follows (shows : Shows a s) (core address : Nat) :
    ∃ b, (free address).Yields core a (s.free core address).1 b ∧
      Follows a s b (s.free core address).2 ∧ s.Grows (s.free core address).2 := by
  unfold Stock.free
  cases refused : s.refusal address with
  | some error =>
    exact ⟨a, yields_bind_error (accept_refuses shows refused), .refl shows, .refl s⟩
  | none =>
    obtain ⟨f, i, frames, managed, kept, known, rfl, out, accepted⟩ := accept_claims shows refused
    dsimp only
    split
    · rename_i here
      refine ⟨_, ?_, follows_pushed frames managed kept known out ⟨core, here⟩⟩
      exact yields_bind (accepted core) (yields_bind (fillPage_yields _ _)
        (yields_masked (yields_bind (ownList_known _ here) (pushOn_yields known _))))
    · rename_i nowhere
      refine ⟨_, ?_, follows_lost frames managed kept known out⟩
      exact yields_bind (accepted core) (yields_bind (fillPage_yields _ _)
        (yields_masked (yields_bind_error (ownList_unknown _ nowhere))))

def freeEach : List Nat → Run cores Unit
  | [] => pure ()
  | page :: rest => do
    free page
    freeEach rest

-- By induction on the pages that are left; what is free stays free over all of them.
theorem freeEach_follows (shows : Shows a s) (core : Nat) (pages : List Nat) :
    ∃ b, (freeEach pages).Yields core a (s.freeAll core pages).1 b ∧
      Follows a s b (s.freeAll core pages).2 ∧ s.Grows (s.freeAll core pages).2 := by
  induction pages generalizing a s with
  | nil => exact ⟨a, yields_pure _ _ _, .refl shows, .refl s⟩
  | cons page rest ih =>
    obtain ⟨b, yields, follows, grows⟩ := free_follows shows core page
    unfold freeEach Stock.freeAll
    generalize s.free core page = ended at yields follows grows ⊢
    obtain ⟨result, t⟩ := ended
    cases result with
    | error fault => exact ⟨b, yields_bind_error yields, follows, grows⟩
    | ok value =>
      obtain ⟨c, others, further, later⟩ := ih follows.shows
      exact ⟨c, yields_bind yields others, follows.trans further (Stock.Grows.steady grows later),
        Stock.Grows.trans grows later⟩

theorem freeRun_each (count address : Nat) :
    (freeRun count address : Run cores Unit) = freeEach (Stock.row count address) := by
  induction count generalizing address with
  | zero => rfl
  | succ count ih =>
    unfold freeRun
    rw [Stock.row_succ, ih]
    by_cases zero : address = 0
    · rw [if_pos zero, if_neg (not_not.mpr zero)]
    · rw [if_neg zero, if_pos zero, freeEach]

theorem freeRun_follows (shows : Shows a s) (core count address : Nat) :
    ∃ b, (freeRun count address).Yields core a (s.freeAll core (Stock.row count address)).1 b ∧
      Follows a s b (s.freeAll core (Stock.row count address)).2 ∧
      s.Grows (s.freeAll core (Stock.row count address)).2 := by
  rw [freeRun_each]
  exact freeEach_follows shows core _

theorem word_yields {α : Type} (core : Nat) (a : Allocator cores) (result : Except WordFault α) :
    (word result : Run cores α).Yields core a (result.mapError .word) a :=
  yields_ofExcept core a _

theorem freeRange_follows (shows : Shows a s) (core start stop : Nat) :
    ∃ b, (freeRange start stop).Yields core a (s.freeRange core start stop).1 b ∧
      Follows a s b (s.freeRange core start stop).2 ∧ s.Grows (s.freeRange core start stop).2 := by
  unfold freeRange Stock.freeRange
  have begins := word_yields core a (nextMultiple start)
  cases rounded : nextMultiple start with
  | error fault =>
    rw [rounded] at begins
    exact ⟨a, yields_bind_error begins, .refl shows, .refl s⟩
  | ok first =>
    rw [rounded] at begins
    dsimp only
    obtain ⟨b, yields, follows⟩ := freeRun_follows shows core ((stop - first) / pageSize) first
    generalize s.freeAll core (Stock.row ((stop - first) / pageSize) first) = ended at yields follows ⊢
    obtain ⟨result, t⟩ := ended
    cases result with
    | error fault => exact ⟨b, yields_bind begins (yields_bind_error yields), follows⟩
    | ok value =>
      have ends := yields_discard (word_yields core b
        (addWord (first + (stop - first) / pageSize * pageSize) pageSize))
      refine ⟨b, yields_bind begins (yields_bind yields ?_), ?_⟩
      · dsimp only
        cases total : addWord (first + (stop - first) / pageSize * pageSize) pageSize with
        | error fault =>
          rw [total] at ends
          exact ends
        | ok sum =>
          rw [total] at ends
          exact ends
      · dsimp only
        cases addWord (first + (stop - first) / pageSize * pageSize) pageSize with
        | error fault => exact follows
        | ok sum => exact follows

theorem init_follows (shows : Shows a s) (core start stop : Nat)
    (stays : a.frames.isInitialized = false → leavesRam a.ram start stop = false) :
    ∃ b, (init start stop).Yields core a (s.init core start stop).1 b ∧
      Follows a s b (s.init core start stop).2 ∧ s.Grows (s.init core start stop).2 := by
  have looked : (view (·.frames.isInitialized) : Run cores Bool).Yields core a
    (.ok a.frames.isInitialized) a := yields_view core a _
  unfold init Stock.init
  cases shows with
  | running f frames managed kept =>
    rw [frames] at looked
    rw [managed]
    exact ⟨a, yields_bind looked (yields_pure _ _ _), .refl (.running f frames managed kept), .refl s⟩
  | idle aligned frames lists stock =>
    have shows : Shows a s := .idle aligned frames lists stock
    have unmanaged : s.managed = none := by rw [stock]; rfl
    have planned := word_yields core a (Frames.plan start stop)
    rw [frames] at looked stays
    rw [unmanaged]
    cases plan : Frames.plan start stop with
    | error fault =>
      rw [plan] at planned
      exact ⟨a, yields_bind looked (yields_bind_error planned), .refl shows, .refl s⟩
    | ok split =>
      rw [plan] at planned
      cases split with
      | error error =>
        exact ⟨a, yields_bind looked (yields_bind planned (yields_pure _ _ _)), .refl shows, .refl s⟩
      | ok f =>
        -- The marks come first: the pages are then freed as pages that were handed out.
        have founded := follows_founded shows frames (Frames.lies_of_plan aligned plan (stays rfl))
        obtain ⟨b, yields, follows, grows⟩ := freeRange_follows founded.shows core f.base f.limit
        have marks : (change fun ⟨ram, _, lists⟩ => ⟨f.mark ram, ⟨some f⟩, lists⟩ : Run cores Unit).Yields
          core a (.ok ()) (a.founded f) := yields_change core a _
        have first : s.Grows { s with managed := some f } := fun _ has => has
        have whole := founded.trans follows (first.steady grows)
        dsimp only [Option.isSome_none, Bool.false_eq_true, if_false]
        generalize Stock.freeRange { s with managed := some f } core f.base f.limit = ended
          at yields grows whole ⊢
        obtain ⟨result, t⟩ := ended
        cases result with
        | error fault =>
          exact ⟨b, yields_bind looked (yields_bind planned (yields_bind marks (yields_bind
            (yields_act _ _ _) (yields_bind_error yields)))), whole, first.trans grows⟩
        | ok value =>
          exact ⟨b, yields_bind looked (yields_bind planned (yields_bind marks (yields_bind
            (yields_act _ _ _) (yields_bind yields (yields_pure _ _ _))))), whole, first.trans grows⟩

theorem stealFrom_yields (core : Nat) (kept : a.Kept f s) (thief : Fin cores)
    (victims : List (Fin cores)) :
    (stealFrom f thief victims).Yields core a
      (.ok ((victims.find? fun c => !s.stack[c].isEmpty).map fun c => a.lists[c].head))
      (match victims.find? fun c => !s.stack[c].isEmpty with
        | none => a
        | some c => a.popped f c) := by
  induction victims with
  | nil => exact yields_pure _ _ _
  | cons victim rest ih =>
    unfold stealFrom
    cases stack : s.stack[victim] with
    | nil =>
      rw [List.find?_cons_of_neg (by simp [stack])]
      exact yields_bind (popFrom_empty kept stack) ih
    | cons page pages =>
      rw [List.find?_cons_of_pos (by simp [stack])]
      exact yields_bind (popFrom_stack kept stack) (yields_bind (yields_act _ _ _) (yields_pure _ _ _))

theorem take_yields (core : Nat) (kept : a.Kept f s) (c : Fin cores) :
    (take f c).Yields core a (.ok ((s.source c).map fun c => a.lists[c].head))
      (match s.source c with
        | none => a
        | some c => a.popped f c) := by
  have stolen := stealFrom_yields core kept c (victims c)
  unfold take Stock.source
  rw [Stock.order_eq]
  cases stack : s.stack[c] with
  | nil =>
    rw [List.find?_cons_of_neg (by simp [stack])]
    exact yields_bind (popFrom_empty kept stack) stolen
  | cons page pages =>
    rw [List.find?_cons_of_pos (by simp [stack])]
    exact yields_bind (popFrom_stack kept stack) (yields_pure _ _ _)

theorem alloc_outside (frames : a.frames = ⟨some f⟩) (unknown : ¬ core < cores) :
    alloc.Yields core a (.error (.coreOutside .alloc core cores)) a :=
  yields_bind (managed_yields frames) (yields_masked (yields_bind_error (ownList_unknown _ unknown)))

theorem alloc_follows (shows : Shows a s) (core : Nat) :
    ∃ b, alloc.Yields core a (s.alloc core).1 b ∧ Follows a s b (s.alloc core).2 ∧
      (s.alloc core).2.Grows s := by
  unfold alloc Stock.alloc
  cases shows with
  | idle aligned frames lists stock =>
    have shows : Shows a s := .idle aligned frames lists stock
    subst stock
    exact ⟨a, yields_bind (managed_yields frames) (yields_pure _ _ _), .refl shows, .refl _⟩
  | running f frames managed kept =>
    have shows : Shows a s := .running f frames managed kept
    rw [managed]
    dsimp only
    split
    · rename_i known
      have taken := take_yields core kept ⟨core, known⟩
      cases found : s.source ⟨core, known⟩ with
      | none =>
        rw [found] at taken
        exact ⟨a, yields_bind (managed_yields frames) (yields_masked (yields_bind (ownList_known _ known)
          (yields_bind taken (yields_bind (yields_act _ _ _) (yields_pure _ _ _))))), .refl shows,
          .refl s⟩
      | some c =>
        rw [found] at taken
        obtain ⟨page, rest, stack⟩ := Stock.source_some found
        obtain ⟨rfl, follows⟩ := follows_popped frames managed kept stack
        dsimp only
        rw [stack]
        exact ⟨_, yields_bind (managed_yields frames) (yields_masked (yields_bind (ownList_known _ known)
          (yields_bind taken (yields_bind (fillPage_yields _ _) (yields_pure _ _ _))))), follows⟩
    · rename_i unknown
      exact ⟨a, alloc_outside frames unknown, .refl shows, .refl s⟩

theorem Shows.length (shows : Shows a s) (c : Fin cores) : a.lists[c].length = s.stack[c].length := by
  cases shows with
  | idle _ _ lists stock =>
    rw [lists, stock, Stock.empty, entry_replicate, entry_replicate]
    rfl
  | running f _ _ kept => exact kept.lengths c

theorem Shows.unlost (shows : Shows a s) {c : Fin cores} {p : Nat} (member : p ∈ s.stack[c]) :
    p ∉ s.lost := by
  cases shows with
  | idle _ _ _ stock => simp [stock, Stock.empty]
  | running f _ _ kept => exact kept.unlost c p member

theorem Shows.lengths (shows : Shows a s) : a.lists.map (·.length) = s.stack.map (·.length) := by
  ext i inside
  rw [Vector.getElem_map, Vector.getElem_map]
  exact shows.length ⟨i, inside⟩

theorem freePages_yields (shows : Shows a s) (core id : Nat) :
    (freePages id).Yields core a (s.freePages id) a := by
  unfold freePages Stock.freePages
  apply yields_masked
  split
  · rename_i known
    have length := shows.length ⟨id, known⟩
    rw [← length]
    exact yields_holding _ (yields_view _ _ _)
  · exact yields_throw _ _ _

theorem sumFree_yields (shows : Shows a s) (core : Nat) (ids : List (Fin cores)) :
    (sumFree (ids.map Fin.val)).Yields core a (.ok (s.heights ids)) a := by
  induction ids with
  | nil => exact yields_pure _ _ _
  | cons id rest ih =>
    have own := freePages_yields shows core id.val
    unfold Stock.freePages at own
    rw [dif_pos id.isLt] at own
    exact yields_bind own (yields_bind ih (yields_pure _ _ _))

theorem totalFree_yields (shows : Shows a s) (core : Nat) :
    totalFree.Yields core a (.ok (s.heights (List.finRange cores))) a := by
  have all := sumFree_yields shows core (List.finRange cores)
  rwa [List.map_coe_finRange_eq_range] at all

theorem Shows.capacity (shows : Shows a s) : a.capacity = s.capacity := by
  cases shows with
  | idle _ frames _ stock =>
    rw [stock]
    simp only [Allocator.capacity, frames]
    rfl
  | running f frames managed _ =>
    simp only [Allocator.capacity, Stock.capacity, frames, managed, WriteOnce.get?]

theorem Shows.isFree (shows : Shows a s) (address : Nat) : a.isFree address = s.has address := by
  cases shows with
  | idle _ frames _ stock =>
    subst stock
    rw [Allocator.isFree, frames, Stock.not_has_iff.mpr (by simp [Stock.empty])]
    rfl
  | running f frames managed kept =>
    simp only [Allocator.isFree, frames, WriteOnce.get?, Frames.isFree, Frames.isAllocated]
    cases place : f.indexOf address with
    | error error =>
      dsimp only
      refine (Bool.eq_false_iff.mpr fun has => ?_).symm
      obtain ⟨i, known, rfl⟩ := kept.manages has
      rw [(Frames.indexOf_ok kept.lies).mpr ⟨known, rfl⟩] at place
      cases place
    | ok i =>
      obtain ⟨known, rfl⟩ := (Frames.indexOf_ok kept.lies).mp place
      simp only [Frames.link_known known, bind, Except.bind, pure, Except.pure]
      have marked := kept.marked i known
      cases has : s.has (f.page i) with
      | true => simpa [has] using marked
      | false => simpa [has] using marked

end KernelResources.Page.Allocator
