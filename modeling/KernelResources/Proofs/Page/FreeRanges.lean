import KernelResources.Proofs.Page.Boundaries
import KernelResources.Proofs.Page.Rejections
import KernelResources.Proofs.Trails

namespace KernelResources.Page

variable {cores : Nat}

theorem nextMultiple_ceiling {start : Nat} (room : start + 2 * pageSize ≤ wordLimit) :
    nextMultiple start = .ok (ceiling start) := by
  obtain ⟨least, most⟩ := ceiling_least start
  have inside : ceiling start < wordLimit := by
    unfold pageSize at *
    omega
  rw [nextMultiple_cases (Nat.lt_of_le_of_lt least inside), if_pos inside]

namespace Stock

variable {s : Stock cores} {c : Fin cores} {p q start stop count first : Nat} {pages : List Nat}

theorem mem_row : p ∈ row count first ↔ (∃ k, k < count ∧ p = first + k * pageSize) ∧ p ≠ 0 := by
  simp only [row, List.mem_filter, List.mem_map, List.mem_range, decide_eq_true_eq]
  exact and_congr_left' (exists_congr fun k => and_congr_right' eq_comm)

theorem row_ascends (count first : Nat) : (row count first).Pairwise (· < ·) := by
  apply List.Pairwise.filter
  rw [List.pairwise_map]
  apply List.pairwise_lt_range.imp
  intro j k less
  unfold pageSize
  omega

theorem rowIn_eq (room : start + 2 * pageSize ≤ wordLimit) (stop : Nat) :
    rowIn start stop = row ((stop - ceiling start) / pageSize) (ceiling start) := by
  rw [rowIn, nextMultiple_ceiling room]

theorem mem_rowIn (room : start + 2 * pageSize ≤ wordLimit) :
    p ∈ rowIn start stop ↔ p % pageSize = 0 ∧ start ≤ p ∧ p + pageSize ≤ stop ∧ p ≠ 0 := by
  obtain ⟨least, most⟩ := ceiling_least start
  have boundary := ceiling_mod start
  rw [rowIn_eq room, mem_row]
  unfold pageSize at *
  constructor
  · rintro ⟨⟨k, known, rfl⟩, nonzero⟩
    omega
  · rintro ⟨aligned, above, below, nonzero⟩
    exact ⟨⟨(p - ceiling start) / 4096, by omega, by omega⟩, nonzero⟩

theorem refusal_push (apart : p ≠ q) : (s.push c q).refusal p = s.refusal p := by
  have has : (s.push c q).has p = s.has p := by simp [has_push, apart]
  simp only [refusal, has]
  rfl

def pushAll (s : Stock cores) (c : Fin cores) (pages : List Nat) : Stock cores :=
  pages.foldl (fun s page => s.push c page) s

@[simp] theorem managed_pushAll (pages : List Nat) : (s.pushAll c pages).managed = s.managed := by
  induction pages generalizing s with
  | nil => rfl
  | cons page rest ih => exact ih

@[simp] theorem lost_pushAll (pages : List Nat) : (s.pushAll c pages).lost = s.lost := by
  induction pages generalizing s with
  | nil => rfl
  | cons page rest ih => exact ih

theorem stack_pushAll (pages : List Nat) (d : Fin cores) :
    (s.pushAll c pages).stack[d] = if c = d then pages.reverse ++ s.stack[c] else s.stack[d] := by
  induction pages generalizing s with
  | nil =>
    split
    · rename_i same
      rw [same]
      rfl
    · rfl
  | cons page rest ih =>
    have first : s.pushAll c (page :: rest) = (s.push c page).pushAll c rest := rfl
    rw [first, ih, stack_push, stack_push]
    by_cases here : c = d <;> simp [here]

theorem refusal_pushAll (apart : p ∉ pages) : (s.pushAll c pages).refusal p = s.refusal p := by
  induction pages generalizing s with
  | nil => rfl
  | cons page rest ih =>
    obtain ⟨unlike, later⟩ := List.ne_and_not_mem_of_not_mem_cons apart
    exact (ih later).trans (refusal_push unlike)

theorem has_pushAll (apart : p ∉ pages) : (s.pushAll c pages).has p = s.has p := by
  induction pages generalizing s with
  | nil => rfl
  | cons page rest ih =>
    obtain ⟨unlike, later⟩ := List.ne_and_not_mem_of_not_mem_cons apart
    refine (ih later).trans ?_
    simp [has_push, unlike]

theorem freeAll_accepted {core : Nat} (known : core < cores) (once : pages.Nodup)
    (accepted : ∀ p ∈ pages, s.refusal p = none) :
    s.freeAll core pages = (.ok (), s.pushAll ⟨core, known⟩ pages) := by
  induction pages generalizing s with
  | nil => rfl
  | cons page rest ih =>
    obtain ⟨apart, once⟩ := List.nodup_cons.mp once
    have first : s.free core page = (.ok (), s.push ⟨core, known⟩ page) := by
      simp only [free, accepted page List.mem_cons_self, dif_pos known]
    rw [freeAll, first]
    apply ih once
    intro p member
    rw [refusal_push (by rintro rfl; exact apart member)]
    exact accepted p (List.mem_cons_of_mem _ member)

theorem first_refused (s : Stock cores) (pages : List Nat) :
    (∀ p ∈ pages, s.refusal p = none) ∨ ∃ before p after error, pages = before ++ p :: after ∧
      (∀ q ∈ before, s.refusal q = none) ∧ s.refusal p = some error := by
  induction pages with
  | nil => exact .inl nofun
  | cons page rest ih =>
    cases refused : s.refusal page with
    | some error => exact .inr ⟨[], page, rest, error, rfl, nofun, refused⟩
    | none =>
      rcases ih with all | ⟨before, p, after, error, split, accepted, why⟩
      · exact .inl (List.forall_mem_cons.mpr ⟨refused, all⟩)
      · refine .inr ⟨page :: before, p, after, error, ?_, ?_, why⟩
        · rw [split, List.cons_append]
        · exact List.forall_mem_cons.mpr ⟨refused, accepted⟩

theorem refusal_stays {error : FreeError} (refused : s.refusal p = some error) :
    (s.push c q).refusal p = some error := by
  by_cases same : p = q
  · subst same
    unfold refusal at refused ⊢
    rw [show (s.push c p).managed = s.managed from rfl]
    cases managed : s.managed with
    | none =>
      rw [managed] at refused
      exact refused
    | some f =>
      rw [managed] at refused
      dsimp only at refused ⊢
      cases place : f.indexOf p with
      | error why =>
        rw [place] at refused
        exact refused
      | ok i =>
        rw [place] at refused
        dsimp only at refused ⊢
        split at refused
        · rw [if_pos (by simp [has_push])]
          exact refused
        · cases refused
  · rw [refusal_push same]
    exact refused

theorem freeAll_ok {core : Nat} (freed : (s.freeAll core pages).1 = .ok ()) :
    ∀ p ∈ pages, s.refusal p = none := by
  induction pages generalizing s with
  | nil => exact nofun
  | cons page rest ih =>
    unfold freeAll free at freed
    cases refused : s.refusal page with
    | some error =>
      rw [refused] at freed
      cases freed
    | none =>
      by_cases known : core < cores
      · simp only [refused, dif_pos known] at freed
        refine List.forall_mem_cons.mpr ⟨refused, fun p member => ?_⟩
        have later := ih freed p member
        cases before : s.refusal p with
        | none => rfl
        | some error =>
          rw [refusal_stays before] at later
          cases later
      · simp only [refused, dif_neg known] at freed
        cases freed

end Stock

def Frames.Stacked (f : Frames) (a : Allocator cores) (core : Fin cores) (pages : List Nat) : Prop :=
  ∃ indices, f.follow a.ram a.lists[core].length a.lists[core].head = .ok (indices, listEnd) ∧
    indices.map f.page = pages

namespace Allocator

open Operation

variable {a b : Allocator cores} {s t : Stock cores} {f : Frames} {p start stop : Nat}
  {e : Execution (Fin cores) (Act cores) (Allocator cores)} {before after : List Nat} {fault : Fault}

theorem word_ok {α : Type} (value : α) : (word (.ok value) : Run cores α) = pure value := rfl

def freeCounted (count address : Nat) : Run cores Unit := do
  freeRun count address
  discard <| word (addWord (address + count * pageSize) pageSize)

theorem freeCounted_zero (address : Nat) :
    (freeCounted 0 address : Run cores Unit) = discard (word (addWord address pageSize)) := by
  unfold freeCounted
  rw [Nat.zero_mul, Nat.add_zero, freeRun, pure_then]

theorem freeCounted_succ (count address : Nat) :
    (freeCounted (count + 1) address : Run cores Unit) = (do
      if address ≠ 0 then free address
      freeCounted count (address + pageSize)) := by
  have total : address + (count + 1) * pageSize = address + pageSize + count * pageSize := by
    rw [Nat.succ_mul]
    omega
  unfold freeCounted
  rw [total, freeRun]
  by_cases zero : address = 0
  · simp only [zero, ne_eq, not_true_eq_false, if_false]
  · simp only [zero, ne_eq, not_false_eq_true, if_true, then_assoc]

def freeFrom (stop address : Nat) : Run cores Unit := freeCounted ((stop - address) / pageSize) address

theorem freeRange_from (start stop : Nat) :
    (freeRange start stop : Run cores Unit) = (do freeFrom stop (← word (nextMultiple start))) := rfl

-- The end of a page is computed, which may fault, and if it is inside the range, the page is freed and the
-- loop goes on from there. That sum was a word, so the step to it cannot wrap.
def Loops (stop : Nat) (loop : Nat → Run cores Unit) : Prop :=
  ∀ address, loop address = do
    let next ← word (addWord address pageSize)
    if next ≤ stop then
      if address ≠ 0 then free address
      loop next
    else pure ()

theorem freeFrom_loops (bounded : stop < wordLimit) : Loops stop (freeFrom stop : Nat → Run cores Unit) := by
  intro address
  by_cases inside : address + pageSize ≤ stop
  · have small : address + pageSize < wordLimit := Nat.lt_of_le_of_lt inside bounded
    have more : (stop - address) / pageSize = (stop - (address + pageSize)) / pageSize + 1 := by
      unfold pageSize at *
      omega
    unfold freeFrom
    rw [more, freeCounted_succ, addWord.eq_def address, if_pos small, word_ok, pure_then, if_pos inside]
  · have none : (stop - address) / pageSize = 0 := by
      unfold pageSize at *
      omega
    unfold freeFrom
    rw [none, freeCounted_zero]
    cases sum : addWord address pageSize with
    | error fault => rfl
    | ok next =>
      obtain ⟨_, rfl⟩ := addWord_ok.mp sum
      rw [word_ok, pure_then, if_neg inside]
      rfl

theorem freeEach_append (before after : List Nat) :
    (freeEach (before ++ after)).run e =
      match (freeEach before).run e with
      | (.ok (), e) => (freeEach after).run e
      | (.error fault, e) => (.error fault, e) := by
  induction before generalizing e with
  | nil => rfl
  | cons page rest ih =>
    rw [List.cons_append, freeEach, freeEach, run_bind, run_bind]
    cases (free page).run e with
    | mk result e =>
      cases result with
      | error fault => rfl
      | ok value => exact ih

theorem freeEach_stops (before after : List Nat) (passed : ((freeEach before).run e).1 = .ok ())
    (stopped : ((free p).run ((freeEach before).run e).2).1 = .error fault) :
    (freeEach (before ++ p :: after)).run e = (free p).run ((freeEach before).run e).2 := by
  rw [freeEach_append]
  generalize (freeEach before).run e = ended at passed stopped ⊢
  obtain ⟨result, middle⟩ := ended
  cases passed
  dsimp only at stopped ⊢
  rw [freeEach, run_bind]
  generalize (free p).run middle = last at stopped ⊢
  obtain ⟨result, final⟩ := last
  cases stopped
  rfl

-- Over a managed range that leaves the last page of the address space free, the sum behind the last page
-- is a word: that page was taken back.
theorem freeRange_row (shows : Shows e.state s) (room : start + 2 * pageSize ≤ wordLimit)
    (top : ∀ f, e.state.frames = ⟨some f⟩ → f.limit + pageSize < wordLimit) (stop : Nat) :
    (freeRange start stop).run e = (freeEach (Stock.rowIn start stop)).run e := by
  obtain ⟨b, yields, _, _⟩ := freeEach_follows shows e.cpu.core (Stock.rowIn start stop)
  obtain ⟨told, _, _⟩ := yields e rfl rfl
  have accepted : (s.freeAll e.cpu.core (Stock.rowIn start stop)).1 = .ok () →
      ∀ p ∈ Stock.rowIn start stop, s.refusal p = none := Stock.freeAll_ok
  rw [← told] at accepted
  have last : ((freeEach (Stock.rowIn start stop)).run e).1 = .ok () →
      ceiling start + (stop - ceiling start) / pageSize * pageSize + pageSize < wordLimit := by
    intro passed
    cases counted : (stop - ceiling start) / pageSize with
    | zero =>
      obtain ⟨_, most⟩ := ceiling_least start
      omega
    | succ k =>
      by_cases zero : ceiling start + k * pageSize = 0
      · rw [Nat.succ_mul, ← Nat.add_assoc, zero]
        decide
      · have member : ceiling start + k * pageSize ∈ Stock.rowIn start stop := by
          rw [Stock.rowIn_eq room, Stock.mem_row, counted]
          exact ⟨⟨k, Nat.lt_succ_self k, rfl⟩, zero⟩
        obtain ⟨f, i, frames, _, kept, known, here, _⟩ := accept_claims shows (accepted passed _ member)
        have high := top f frames
        have inside := kept.lies.extent
        unfold Frames.page at here
        unfold pageSize at *
        omega
  have begins : (freeRange start stop).run e =
      (freeCounted ((stop - ceiling start) / pageSize) (ceiling start)).run e := by
    rw [freeRange_from, nextMultiple_ceiling room]
    rfl
  rw [begins, freeCounted, freeRun_each, ← Stock.rowIn_eq room, run_bind]
  generalize (freeEach (Stock.rowIn start stop)).run e = ended at last ⊢
  obtain ⟨result, final⟩ := ended
  cases result with
  | error fault => rfl
  | ok value =>
    rw [addWord, if_pos (last rfl)]
    rfl

theorem Kept.stacked (kept : a.Kept f s) (c : Fin cores) : f.Stacked a c s.stack[c] := by
  obtain ⟨indices, followed, pages⟩ := Frames.follow_chained (kept.chained c)
  rw [← kept.lengths c] at followed
  exact ⟨indices, followed, pages⟩

structure Freed (a b : Allocator cores) (core : Nat) (pages : List Nat) : Prop where
  frames : b.frames = a.frames
  lists : ∀ f, a.frames = ⟨some f⟩ → ∀ c : Fin cores, ∃ old, f.Stacked a c old ∧
    f.Stacked b c (if c.val = core then pages.reverse ++ old else old)
  filled : ∀ p ∈ pages, b.isFree p = true ∧ b.ram.Full p freeFill

def Spared (a b : Allocator cores) (page : Nat) : Prop :=
  (∀ k, k < pageSize → b.ram.byte (page + k) = a.ram.byte (page + k)) ∧ b.isFree page = a.isFree page

theorem Freed.of_follows (shows : Shows a s) {core : Nat} (known : core < cores) {pages : List Nat}
    (accepted : ∀ p ∈ pages, s.refusal p = none)
    (follows : Follows a s b (s.pushAll ⟨core, known⟩ pages)) : Freed a b core pages := by
  refine ⟨?_, ?_, ?_⟩
  · cases shows with
    | idle _ frames _ stock =>
      obtain ⟨rfl, _⟩ := follows.idle (by rw [Stock.managed_pushAll, stock]; rfl)
      rfl
    | running f frames managed _ =>
      rw [(follows.shows.of_managed (follows.managed f managed)).1, frames]
  · intro f frames c
    obtain ⟨managed, kept⟩ := shows.of_frames frames
    obtain ⟨_, later⟩ := follows.shows.of_managed (follows.managed f managed)
    refine ⟨s.stack[c], kept.stacked c, ?_⟩
    have stacked := later.stacked c
    rw [Stock.stack_pushAll] at stacked
    by_cases own : c.val = core
    · subst own
      rwa [if_pos rfl] at stacked ⊢
    · rw [if_neg (fun same => own (congrArg Fin.val same).symm)] at stacked
      rwa [if_neg own]
  · intro p member
    obtain ⟨f, i, _, managed, _, known', rfl, out, _⟩ := accept_claims shows (accepted p member)
    have has : (s.pushAll ⟨core, known⟩ pages).has (f.page i) = true := by
      refine Stock.has_iff.mpr (.inr ⟨⟨core, known⟩, ?_⟩)
      rw [Stock.stack_pushAll, if_pos rfl]
      exact List.mem_append_left _ (List.mem_reverse.mpr member)
    refine ⟨(follows.shows.isFree _).trans has, ?_⟩
    exact (follows.treats f (follows.managed f managed)).taken _ (Frames.manages_page known') out has

theorem spared_follows (shows : Shows a s) (follows : Follows a s b t) (frames : a.frames = ⟨some f⟩)
    (boundary : p % pageSize = 0) (above : f.base ≤ p) (same : s.has p = t.has p) : Spared a b p := by
  obtain ⟨managed, kept⟩ := shows.of_frames frames
  have treats := follows.treats f (follows.managed f managed)
  refine ⟨?_, by rw [follows.shows.isFree, shows.isFree, same]⟩
  by_cases manages : f.Manages p
  · exact treats.spared p manages same
  · intro k small
    apply treats.outside
    rintro (word | ⟨q, ⟨i, known, rfl⟩, least, most⟩)
    · have table := kept.lies.table
      unfold Frames.InTable at word
      omega
    · refine manages ⟨i, known, ?_⟩
      have start := kept.lies.boundary
      unfold Frames.page at *
      unfold pageSize at *
      omega

theorem freed_nil (shows : Shows a s) (core : Nat) : Freed a a core [] := by
  refine ⟨rfl, ?_, nofun⟩
  intro f frames c
  obtain ⟨_, kept⟩ := shows.of_frames frames
  exact ⟨s.stack[c], kept.stacked c, by simpa using kept.stacked c⟩

theorem freeEach_accepted {pages : List Nat} (shows : Shows e.state s) (known : e.cpu.core < cores)
    (once : pages.Nodup) (accepted : ∀ p ∈ pages, s.refusal p = none) :
    ((freeEach pages).run e).1 = .ok () ∧
      Follows e.state s ((freeEach pages).run e).2.state (s.pushAll ⟨e.cpu.core, known⟩ pages) := by
  obtain ⟨b, yields, follows, _⟩ := freeEach_follows shows e.cpu.core pages
  rw [Stock.freeAll_accepted known once accepted] at yields follows
  obtain ⟨told, rfl, _⟩ := yields e rfl rfl
  exact ⟨told, follows⟩

end Allocator

namespace Account

open Allocator

variable {ram : Ram} {a : Account cores} {pages : List Nat}
  {e : Execution (Fin cores) (Act cores) (Allocator cores)}

-- How a row of frees fails: the pages before `page` are freed, and then it is that page that stops it. The
-- pages after it are left alone.
structure Stops (a : Account cores) (e : Execution (Fin cores) (Act cores) (Allocator cores))
    (op : Allocator.Run cores Unit) (before : List Nat) (page : Nat) (after : List Nat) : Prop where
  accepted : ∀ p ∈ before, a.Out p
  passed : ((freeEach before).run e).1 = .ok ()
  freed : Freed e.state ((freeEach before).run e).2.state e.cpu.core before
  -- The whole ends as the free of that page does.
  ends : op.run e = (free page).run ((freeEach before).run e).2
  fails : (∃ error, a.Rejects page error ∧
      op.run e = (.error (.freeRejected error), ((freeEach before).run e).2)) ∨
    a.Out page ∧ ¬ e.cpu.core < cores ∧ before = [] ∧
      (op.run e).1 = .error (.coreOutside .free e.cpu.core cores)
  spared : ∀ p ∈ after, Spared e.state (op.run e).2.state p

structure FreesRow (a : Account cores) (pages : List Nat)
    (e : Execution (Fin cores) (Act cores) (Allocator cores)) (op : Allocator.Run cores Unit) : Prop where
  same : op.run e = (freeEach pages).run e
  nothing : pages = [] → op.run e = (.ok (), e)
  whole : e.cpu.core < cores → (∀ p ∈ pages, a.Out p) →
    (op.run e).1 = .ok () ∧ Freed e.state (op.run e).2.state e.cpu.core pages
  part : pages ≠ [] → ¬ (e.cpu.core < cores ∧ ∀ p ∈ pages, a.Out p) →
    ∃ before page after, pages = before ++ page :: after ∧ Stops a e op before page after

theorem spared_above (sound : Sound a) {b : Allocator cores} {t : Stock cores}
    (follows : Follows a.holder.allocator a.stock b t) {low high : Nat} (out : a.Out low) (less : low < high)
    (boundary : high % pageSize = 0) (same : a.stock.has high = t.has high) :
    Spared a.holder.allocator b high := by
  obtain ⟨f, i, frames, _, rfl, _⟩ := out
  refine spared_follows sound.shows follows frames boundary ?_ same
  unfold Frames.page at less
  omega

theorem stops_rejected (sound : Sound a) (here : e.state = a.holder.allocator) {op : Allocator.Run cores Unit}
    {before after : List Nat} {page : Nat} {error : FreeError}
    (same : op.run e = (freeEach (before ++ page :: after)).run e)
    (ascends : (before ++ page :: after).Pairwise (· < ·))
    (aligned : ∀ p ∈ before ++ page :: after, p % pageSize = 0)
    (known : before ≠ [] → e.cpu.core < cores) (accepted : ∀ p ∈ before, a.stock.refusal p = none)
    (refused : a.stock.refusal page = some error) : Stops a e op before page after := by
  have shows : e.state.Shows a.stock := here ▸ sound.shows
  have outs : ∀ p ∈ before, a.Out p := fun p member => refusal_none sound (accepted p member)
  obtain ⟨first, rest, across⟩ := List.pairwise_append.mp ascends
  obtain ⟨next, _⟩ := List.pairwise_cons.mp rest
  cases before with
  | nil =>
    have stopped := free_rejected shows refused
    have ends := freeEach_stops (e := e) [] after rfl (congrArg Prod.fst stopped)
    rw [← same] at ends
    have whole := ends.trans stopped
    refine ⟨List.forall_mem_nil _, rfl, freed_nil shows _, ends,
      .inl ⟨error, refusal_some sound refused, whole⟩, ?_⟩
    intro p _
    rw [whole]
    exact ⟨fun _ _ => rfl, rfl⟩
  | cons head tail =>
    have known := known (List.cons_ne_nil _ _)
    obtain ⟨passed, follows⟩ := freeEach_accepted shows known (first.imp Nat.ne_of_lt) accepted
    have apart : page ∉ head :: tail := fun member => Nat.lt_irrefl _ (across _ member _ List.mem_cons_self)
    have stopped := free_rejected follows.shows ((Stock.refusal_pushAll apart).trans refused)
    have ends := freeEach_stops (head :: tail) after passed (congrArg Prod.fst stopped)
    rw [← same] at ends
    have whole := ends.trans stopped
    refine ⟨outs, passed, .of_follows shows known accepted follows, ends,
      .inl ⟨error, refusal_some sound refused, whole⟩, ?_⟩
    intro p member
    have later : p ∉ head :: tail := fun earlier =>
      Nat.lt_irrefl _ (across _ earlier _ (List.mem_cons_of_mem _ member))
    rw [whole, here]
    refine spared_above sound (here ▸ follows) (outs head List.mem_cons_self)
      (across _ List.mem_cons_self _ (List.mem_cons_of_mem _ member)) ?_ (Stock.has_pushAll later).symm
    exact aligned p (List.mem_append_right _ (List.mem_cons_of_mem _ member))

theorem stops_outside (sound : Sound a) (here : e.state = a.holder.allocator) {op : Allocator.Run cores Unit}
    {after : List Nat} {page : Nat} (same : op.run e = (freeEach (page :: after)).run e)
    (ascends : (page :: after).Pairwise (· < ·)) (aligned : ∀ p ∈ page :: after, p % pageSize = 0)
    (unknown : ¬ e.cpu.core < cores) (accepted : a.stock.refusal page = none) :
    Stops a e op [] page after := by
  have shows : e.state.Shows a.stock := here ▸ sound.shows
  have out := refusal_none sound accepted
  obtain ⟨next, _⟩ := List.pairwise_cons.mp ascends
  obtain ⟨b, yields, follows, _⟩ := free_follows shows e.cpu.core page
  simp only [Stock.free, accepted, dif_neg unknown] at yields follows
  obtain ⟨told, rfl, _⟩ := yields e rfl rfl
  have ends := freeEach_stops [] after rfl told
  rw [List.nil_append, ← same] at ends
  refine ⟨List.forall_mem_nil _, rfl, freed_nil shows _, ends, .inr ⟨out, unknown, rfl, ?_⟩, ?_⟩
  · rw [ends]
    exact told
  · intro p member
    have less := next p member
    rw [ends, here]
    refine spared_above sound (here ▸ follows) out less (aligned p (List.mem_cons_of_mem _ member)) ?_
    simp [Stock.has_lose, Nat.ne_of_gt less]

theorem frees_row (sound : Sound a) (here : e.state = a.holder.allocator) {op : Allocator.Run cores Unit}
    (same : op.run e = (freeEach pages).run e) (ascends : pages.Pairwise (· < ·))
    (aligned : ∀ p ∈ pages, p % pageSize = 0) : FreesRow a pages e op := by
  have shows : e.state.Shows a.stock := here ▸ sound.shows
  refine ⟨same, ?_, ?_, ?_⟩
  · intro none
    rw [same, none]
    rfl
  · intro known outs
    have accepted := fun p member => out_refusal sound (outs p member)
    obtain ⟨passed, follows⟩ := freeEach_accepted shows known (ascends.imp Nat.ne_of_lt) accepted
    rw [same]
    exact ⟨passed, .of_follows shows known accepted follows⟩
  · intro some fails
    by_cases known : e.cpu.core < cores
    · rcases Stock.first_refused a.stock pages with all | stops
      · exact absurd ⟨known, fun p member => refusal_none sound (all p member)⟩ fails
      · obtain ⟨before, page, after, error, rfl, accepted, refused⟩ := stops
        exact ⟨before, page, after, rfl,
          stops_rejected sound here same ascends aligned (fun _ => known) accepted refused⟩
    · obtain ⟨page, after, rfl⟩ := List.exists_cons_of_ne_nil some
      cases refused : a.stock.refusal page with
      | some error =>
        exact ⟨[], page, after, rfl,
          stops_rejected sound here same ascends aligned (fun none => absurd rfl none) nofun refused⟩
      | none =>
        exact ⟨[], page, after, rfl, stops_outside sound here same ascends aligned known refused⟩

-- Freeing a range is freeing the whole pages in it, in ascending order and without the page at zero, in
-- every state that the calls can bring about: all of them if they are all taken back, else those before the
-- first that is not, with the fault of that one. No sum on the way leaves the word, in the loop either that
-- looks for the end of the range page by page.
theorem ranges_are_freed_in_order (aligned : ram.base % pageSize = 0) (path : Run Spares (start cores ram) a)
    (top : ∀ f, a.holder.allocator.frames = ⟨some f⟩ → f.limit + pageSize < wordLimit) {begin : Nat}
    (room : begin + 2 * pageSize ≤ wordLimit) (stop : Nat) :
    (freeRange begin stop : Allocator.Run cores Unit) = (do freeFrom stop (← word (nextMultiple begin))) ∧
    (stop < wordLimit → Loops stop (freeFrom stop : Nat → Allocator.Run cores Unit)) ∧
    ∃ pages : List Nat, pages.Pairwise (· < ·) ∧
      (∀ p, p ∈ pages ↔ p % pageSize = 0 ∧ begin ≤ p ∧ p + pageSize ≤ stop ∧ p ≠ 0) ∧
      ∀ e : Execution (Fin cores) (Act cores) (Allocator cores), e.state = a.holder.allocator →
        FreesRow a pages e (freeRange begin stop) := by
  have sound := run_sound path (sound_start aligned)
  have ascends : (Stock.rowIn begin stop).Pairwise (· < ·) := by
    rw [Stock.rowIn_eq room]
    exact Stock.row_ascends _ _
  refine ⟨freeRange_from begin stop, freeFrom_loops, Stock.rowIn begin stop, ascends, fun p => Stock.mem_rowIn room, ?_⟩
  intro e here
  refine frees_row sound here (freeRange_row (here ▸ sound.shows) room (here ▸ top) stop) ascends ?_
  intro p member
  exact ((Stock.mem_rowIn room).mp member).1

-- The page in the middle of the range is free already.
theorem ranges_are_freed_in_order_stopped :
    let a := (((((start 1 (.zeroed 0x80000000 4)).next (.init 0x80000000 0x80004000)).next
      (.alloc "p")).next (.alloc "q")).next (.alloc "r")).next (.free "q")
    Run Spares (start 1 (.zeroed 0x80000000 4)) a ∧
      (∀ f, a.holder.allocator.frames = ⟨some f⟩ → f.limit + pageSize < wordLimit) ∧
      0x80000800 + 2 * pageSize ≤ wordLimit ∧ a.holder.allocator.isFree 0x80002000 = true ∧
      ∃ pages, 0x80002000 ∈ pages ∧
        ∀ e : Execution (Fin 1) (Act 1) (Allocator 1), e.state = a.holder.allocator →
          FreesRow a pages e (freeRange 0x80000800 0x80004000) := by
  have path : Run Spares (start 1 (.zeroed 0x80000000 4))
      ((((((start 1 (.zeroed 0x80000000 4)).next (.init 0x80000000 0x80004000)).next
        (.alloc "p")).next (.alloc "q")).next (.alloc "r")).next (.free "q")) :=
    .step (.step (.step (.step (.step .refl (spares_silent rfl)) (spares_silent rfl)) (spares_silent rfl))
      (spares_silent rfl)) (spares_silent rfl)
  have managed : ((((((start 1 (.zeroed 0x80000000 4)).next (.init 0x80000000 0x80004000)).next
      (.alloc "p")).next (.alloc "q")).next (.alloc "r")).next (.free "q")).holder.allocator.frames =
        ⟨some ⟨0x80000000, 1, 3, 0x80001000, 0x80004000⟩⟩ := by decide +kernel
  have top : ∀ f, ((((((start 1 (.zeroed 0x80000000 4)).next (.init 0x80000000 0x80004000)).next
      (.alloc "p")).next (.alloc "q")).next (.alloc "r")).next (.free "q")).holder.allocator.frames =
        ⟨some f⟩ → f.limit + pageSize < wordLimit := by
    intro f frames
    rw [managed] at frames
    cases frames
    decide
  have room : 0x80000800 + 2 * pageSize ≤ wordLimit := by decide
  obtain ⟨-, -, pages, -, member, row⟩ := ranges_are_freed_in_order (by decide) path top room 0x80004000
  exact ⟨path, top, room, by decide +kernel, pages, (member _).mpr (by decide), row⟩

end Account

end KernelResources.Page
