import KernelResources.Proofs.Page.Partition

namespace KernelResources.Page

variable {cores : Nat}

def Frames.Lists (f : Frames) (a : Allocator cores) (core : Fin cores) (i : UInt32) : Prop :=
  ∃ indices, f.follow a.ram a.lists[core].length a.lists[core].head = .ok (indices, listEnd) ∧ i ∈ indices

namespace Account

variable {ram : Ram} {a : Account cores} {address : Nat}

def Out (a : Account cores) (address : Nat) : Prop :=
  ∃ f i, a.holder.allocator.frames = ⟨some f⟩ ∧ i.toNat < f.count ∧ address = f.page i ∧
    f.linkWord a.holder.allocator.ram i = allocated

inductive Rejects (a : Account cores) (address : Nat) : FreeError → Prop where
  | uninitialized (frames : a.holder.allocator.frames = ⟨none⟩) : Rejects a address .uninitialized
  | misaligned {f : Frames} (frames : a.holder.allocator.frames = ⟨some f⟩)
      (between : address % pageSize ≠ 0) : Rejects a address (.misaligned address)
  | belowRange {f : Frames} (frames : a.holder.allocator.frames = ⟨some f⟩)
      (boundary : address % pageSize = 0) (below : address < f.base) :
      Rejects a address (.belowRange address f.base)
  | aboveRange {f : Frames} (frames : a.holder.allocator.frames = ⟨some f⟩)
      (boundary : address % pageSize = 0) (within : f.base ≤ address) (above : f.limit ≤ address) :
      Rejects a address (.aboveRange address f.limit)
  | doubleFree {f : Frames} {i : UInt32} (frames : a.holder.allocator.frames = ⟨some f⟩)
      (known : i.toNat < f.count) (here : address = f.page i)
      (idle : (∃ core, f.Lists a.holder.allocator core i) ∨ address ∈ a.lost) :
      Rejects a address (.doubleFree address)

theorem has_iff_idle (sound : Sound a) {f : Frames} (frames : a.holder.allocator.frames = ⟨some f⟩)
    (i : UInt32) : a.stock.has (f.page i) = true ↔
      (∃ core, f.Lists a.holder.allocator core i) ∨ f.page i ∈ a.lost := by
  obtain ⟨_, kept⟩ := sound.shows.of_frames frames
  rw [Stock.has_iff, sound.lost, or_comm]
  refine or_congr_left (exists_congr fun core => ?_)
  obtain ⟨indices, followed, pages⟩ := Frames.follow_chained (kept.chained core)
  rw [← kept.lengths core] at followed
  rw [← pages, List.mem_map]
  constructor
  · rintro ⟨j, member, same⟩
    exact ⟨indices, followed, Frames.page_inj same ▸ member⟩
  · rintro ⟨others, same, member⟩
    rw [followed] at same
    cases same
    exact ⟨i, member, rfl⟩

theorem indexOf_error {f : Frames} {error : FreeError} (refused : f.indexOf address = .error error) :
    address % pageSize ≠ 0 ∧ error = .misaligned address ∨
      address % pageSize = 0 ∧ (address < f.base ∧ error = .belowRange address f.base ∨
        f.base ≤ address ∧ f.limit ≤ address ∧ error = .aboveRange address f.limit) := by
  unfold Frames.indexOf at refused
  split at refused
  · rename_i between
    cases refused
    exact .inl ⟨between, rfl⟩
  · rename_i boundary
    split at refused
    · rename_i below
      cases refused
      exact .inr ⟨not_not.mp boundary, .inl ⟨below, rfl⟩⟩
    · rename_i within
      split at refused
      · rename_i above
        cases refused
        exact .inr ⟨not_not.mp boundary, .inr ⟨Nat.le_of_not_lt within, above, rfl⟩⟩
      · cases refused

theorem refusal_some (sound : Sound a) {error : FreeError}
    (refused : a.stock.refusal address = some error) : a.Rejects address error := by
  cases sound.shows with
  | idle _ frames _ stock =>
    rw [stock] at refused
    cases refused
    exact .uninitialized frames
  | running f frames managed kept =>
    simp only [Stock.refusal, managed] at refused
    cases place : f.indexOf address with
    | error why =>
      rw [place] at refused
      cases refused
      rcases indexOf_error place with ⟨between, rfl⟩ | ⟨boundary, ⟨below, rfl⟩ | ⟨within, above, rfl⟩⟩
      · exact .misaligned frames between
      · exact .belowRange frames boundary below
      · exact .aboveRange frames boundary within above
    | ok i =>
      obtain ⟨known, rfl⟩ := (Frames.indexOf_ok kept.lies).mp place
      simp only [place] at refused
      split at refused
      · rename_i has
        cases refused
        exact .doubleFree frames known rfl ((has_iff_idle sound frames i).mp has)
      · cases refused

theorem refusal_none (sound : Sound a) (accepted : a.stock.refusal address = none) : a.Out address := by
  obtain ⟨f, i, frames, _, kept, known, rfl, out, _⟩ := Allocator.accept_claims sound.shows accepted
  exact ⟨f, i, frames, known, rfl, (kept.marked i known).mpr out⟩

theorem out_refusal (sound : Sound a) (out : a.Out address) : a.stock.refusal address = none := by
  obtain ⟨f, i, frames, known, rfl, word⟩ := out
  obtain ⟨managed, kept⟩ := sound.shows.of_frames frames
  simp only [Stock.refusal, managed, (Frames.indexOf_ok kept.lies).mpr ⟨known, rfl⟩,
    (kept.marked i known).mp word, Bool.false_eq_true, if_false]

theorem rejects_refusal (sound : Sound a) {error : FreeError} (rejects : a.Rejects address error) :
    a.stock.refusal address = some error := by
  cases rejects with
  | uninitialized none =>
    cases sound.shows with
    | idle _ _ _ stock =>
      rw [stock]
      rfl
    | running f frames =>
      rw [none] at frames
      cases frames
  | misaligned frames between =>
    obtain ⟨managed, _⟩ := sound.shows.of_frames frames
    simp only [Stock.refusal, managed, Frames.indexOf, if_pos between]
  | belowRange frames boundary below =>
    obtain ⟨managed, _⟩ := sound.shows.of_frames frames
    simp only [Stock.refusal, managed, Frames.indexOf, if_neg (not_not.mpr boundary), if_pos below]
  | aboveRange frames boundary within above =>
    obtain ⟨managed, _⟩ := sound.shows.of_frames frames
    simp only [Stock.refusal, managed, Frames.indexOf, if_neg (not_not.mpr boundary),
      if_neg (Nat.not_lt.mpr within), if_pos above]
  | doubleFree frames known here idle =>
    subst here
    obtain ⟨managed, kept⟩ := sound.shows.of_frames frames
    simp only [Stock.refusal, managed, (Frames.indexOf_ok kept.lies).mpr ⟨known, rfl⟩,
      (has_iff_idle sound frames _).mpr idle, if_true]

end Account

namespace Allocator

open Operation

variable {e : Execution (Fin cores) (Act cores) (Allocator cores)} {s : Stock cores} {address : Nat}

theorem accept_quiet (e : Execution (Fin cores) (Act cores) (Allocator cores)) (address : Nat) :
    ((accept address).run e).2 = { e with state := ((accept address).run e).2.state } := by
  unfold accept managed
  rw [run_bind, run_view]
  dsimp only
  cases e.state.frames.get? with
  | none => rfl
  | some f =>
    dsimp only
    cases f.indexOf address with
    | error error => rfl
    | ok i =>
      dsimp only
      rw [run_bind, run_attempt]
      dsimp only
      cases ((f.claim e.state.ram i address).1.mapError Fault.word) with
      | error fault => rfl
      | ok claimed => cases claimed <;> rfl

theorem free_rejected (shows : Shows e.state s) {error : FreeError}
    (refused : s.refusal address = some error) :
    (free address).run e = (.error (.freeRejected error), e) := by
  obtain ⟨told, left, -⟩ := accept_refuses shows refused e rfl rfl
  have quiet := accept_quiet e address
  rw [left] at quiet
  unfold free
  rw [run_bind, show (accept address).run e = (.error (.freeRejected error), e) from Prod.ext told quiet]

theorem free_outside (shows : Shows e.state s) (accepted : s.refusal address = none)
    (nowhere : ¬ e.cpu.core < cores) :
    ∃ f i, e.state.frames = ⟨some f⟩ ∧ e.state.Kept f s ∧ i.toNat < f.count ∧ address = f.page i ∧
      s.has address = false ∧
      ((free address).run e).1 = .error (.coreOutside .free e.cpu.core cores) ∧
      ((free address).run e).2.state = (e.state.claimed f i).filled address freeFill ∧
      ((free address).run e).2.cpu = e.cpu := by
  obtain ⟨f, i, frames, _, kept, known, here, out, accepted⟩ := accept_claims shows accepted
  have yields : (free address).Yields e.cpu.core e.state (.error (.coreOutside .free e.cpu.core cores))
      ((e.state.claimed f i).filled address freeFill) :=
    yields_bind (accepted e.cpu.core) (yields_bind (fillPage_yields _ _)
      (yields_masked (yields_bind_error (ownList_unknown _ nowhere))))
  exact ⟨f, i, frames, kept, known, here, out, yields e rfl rfl⟩

end Allocator

structure Judges (a : Account cores) (address : Nat)
    (e : Execution (Fin cores) (Allocator.Act cores) (Allocator cores)) : Prop where
  passes : (∃ taken, ((Allocator.accept address).run e).1 = .ok taken) ↔ a.Out address
  decided : a.Out address ∨ ∃ error, a.Rejects address error
  rejects : ∀ error, ((Allocator.free address).run e).1 = .error (.freeRejected error) ↔
    a.Rejects address error
  -- A rejection leaves the allocator, the interrupt flag and what was done so far as they are.
  unchanged : ∀ error, a.Rejects address error →
    (Allocator.free address).run e = (.error (.freeRejected error), e)
  -- Where there is no core, the page is marked and filled before the free stops.
  loses : ¬ e.cpu.core < cores → a.Out address → ∃ f i, e.state.frames = ⟨some f⟩ ∧
    i.toNat < f.count ∧ address = f.page i ∧
    ((Allocator.free address).run e).1 = .error (.coreOutside .free e.cpu.core cores) ∧
    ((Allocator.free address).run e).2.cpu = e.cpu ∧
    ((Allocator.free address).run e).2.state =
      ⟨(f.setLink e.state.ram i listEnd).fillPage address freeFill, e.state.frames, e.state.lists⟩ ∧
    f.linkWord ((Allocator.free address).run e).2.state.ram i = listEnd ∧
    ((Allocator.free address).run e).2.state.ram.Full address freeFill

namespace Account

variable {a : Account cores}

theorem sound_judges (sound : Sound a) (address : Nat)
    (e : Execution (Fin cores) (Allocator.Act cores) (Allocator cores))
    (here : e.state = a.holder.allocator) : Judges a address e := by
  have shows : e.state.Shows a.stock := here ▸ sound.shows
  refine ⟨⟨?_, ?_⟩, ?_, ?_, ?_, ?_⟩
  · rintro ⟨taken, passed⟩
    cases refused : a.stock.refusal address with
    | none => exact refusal_none sound refused
    | some error =>
      rw [(Allocator.accept_refuses shows refused e rfl rfl).1] at passed
      cases passed
  · intro out
    obtain ⟨f, i, _, _, _, _, _, _, accepted⟩ :=
      Allocator.accept_claims shows (out_refusal sound out)
    exact ⟨(f, i), (accepted e.cpu.core e rfl rfl).1⟩
  · cases refused : a.stock.refusal address with
    | none => exact .inl (refusal_none sound refused)
    | some error => exact .inr ⟨error, refusal_some sound refused⟩
  · intro error
    constructor
    · intro told
      obtain ⟨_, yields, _⟩ := Allocator.free_follows shows e.cpu.core address
      have same := (yields e rfl rfl).1
      rw [told, Stock.free] at same
      cases refused : a.stock.refusal address with
      | some why =>
        rw [refused] at same
        cases same
        exact refusal_some sound refused
      | none =>
        rw [refused] at same
        dsimp only at same
        split at same <;> cases same
    · intro rejects
      rw [Allocator.free_rejected shows (rejects_refusal sound rejects)]
  · intro error rejects
    exact Allocator.free_rejected shows (rejects_refusal sound rejects)
  · intro nowhere out
    obtain ⟨f, i, frames, kept, known, start, unfree, told, left, still⟩ :=
      Allocator.free_outside shows (out_refusal sound out) nowhere
    have claimed := kept.claimed known (start ▸ unfree)
    have page : f.Manages address := ⟨i, known, start⟩
    refine ⟨f, i, frames, known, start, told, still, left, ?_, ?_⟩
    · have marked : f.linkWord (e.state.claimed f i).ram i = listEnd := by
        rw [Allocator.ram_claimed, Frames.linkWord_setLink kept.lies known, if_pos rfl]
      rw [left, Allocator.filled, Frames.linkWord_fillPage claimed.lies page known, marked]
    · rw [left]
      exact Allocator.filled_full claimed.lies page freeFill

end Account

end KernelResources.Page
