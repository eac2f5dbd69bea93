import KernelResources.Proofs.Page.FreeRanges

namespace KernelResources.Page

open Holder (Event handed)

variable {cores : Nat}

namespace Frames

variable {f : Frames} {ram : Ram} {start stop p : Nat}

def pages (f : Frames) : List Nat := (List.range f.count).map fun k => f.base + k * pageSize

theorem mem_pages : p ∈ f.pages ↔ ∃ k, k < f.count ∧ p = f.base + k * pageSize := by
  simp only [pages, List.mem_map, List.mem_range]
  exact exists_congr fun k => and_congr_right' eq_comm

theorem pages_managed (divides : f.Divides start stop) (member : p ∈ f.pages) : f.Manages p := by
  obtain ⟨k, known, rfl⟩ := mem_pages.mp member
  obtain ⟨whole, _, _⟩ := divides_plain divides known
  refine ⟨.ofNat k, ?_, ?_⟩
  · rwa [whole]
  · rw [page, whole]

theorem pages_ascend (f : Frames) : f.pages.Pairwise (· < ·) := by
  rw [pages, List.pairwise_map]
  apply List.pairwise_lt_range.imp
  intro j k less
  unfold pageSize
  omega

-- No page is at zero, since the table lies below all of them.
theorem row_pages (divides : f.Divides start stop) : Stock.row f.count f.base = f.pages := by
  obtain ⟨_, _, _, some, _, room, base, _, _⟩ := divides
  apply List.filter_eq_self.mpr
  intro p member
  obtain ⟨k, _, rfl⟩ := List.mem_map.mp member
  simp only [decide_eq_true_eq]
  unfold linkSize at room
  omega

theorem stays_covered (room : start + pageSize < wordLimit) (inside : ram.covers start (stop - start) = true) :
    leavesRam ram start stop = false := by
  obtain ⟨above, below⟩ := Ram.covers_iff.mp inside
  obtain ⟨least, _⟩ := ceiling_least start
  have most := roundDown_le stop
  have whole : wholePages start stop = .ok (ceiling start, wholeCount start stop) := by
    simp only [wholePages, wholeCount, roundUp_ceiling room, bind, Except.bind, pure, Except.pure]
  unfold leavesRam
  rw [whole]
  dsimp only
  by_cases several : 1 < wholeCount start stop
  · have ordered : ceiling start < roundDown stop := by
      unfold wholeCount pageSize at several
      omega
    obtain ⟨_, extent⟩ := wholeCount_extent ordered
    have covered : ram.covers (ceiling start) (wholeCount start stop * pageSize) = true :=
      Ram.covers_iff.mpr ⟨by omega, by omega⟩
    rw [covered, Bool.not_true, Bool.and_false]
  · rw [decide_eq_false several, Bool.false_and, Bool.false_and]

theorem room_covered (top : ram.limit + pageSize < wordLimit)
    (inside : ram.covers start (stop - start) = true) : start + pageSize < wordLimit := by
  obtain ⟨_, below⟩ := Ram.covers_iff.mp inside
  omega

theorem plan_covered (top : ram.limit + pageSize < wordLimit)
    (few : ram.limit < ram.base + listEnd.toNat * pageSize) (inside : ram.covers start (stop - start) = true)
    (several : 2 ≤ wholeCount start stop) :
    ∃ f, plan start stop = .ok (.ok f) ∧ f.Divides start stop ∧ f.limit + pageSize < wordLimit := by
  obtain ⟨above, below⟩ := Ram.covers_iff.mp inside
  have most := roundDown_le stop
  have ordered : ceiling start < roundDown stop := by
    unfold wholeCount pageSize at several
    omega
  obtain ⟨_, extent⟩ := wholeCount_extent ordered
  have least := (ceiling_least start).1
  have marks : pageCount (wholeCount start stop) < listEnd.toNat := by
    unfold pageCount
    unfold pageSize at extent few
    omega
  obtain ⟨f, split, divides⟩ := layout_divides ordered (Nat.ne_of_gt several) marks
  refine ⟨f, ?_, divides, ?_⟩
  · rw [plan_layout (room_covered top inside), split]
  · rw [divides.limit]
    omega

end Frames

namespace Stock

variable {s : Stock cores} {f : Frames} {c : Fin cores} {core start stop : Nat} {rest : List Nat}

theorem freeRange_pages (divides : f.Divides start stop) (top : f.limit + pageSize < wordLimit)
    (known : core < cores) (accepted : ∀ p ∈ f.pages, s.refusal p = none) :
    s.freeRange core f.base f.limit = (.ok (), s.pushAll ⟨core, known⟩ f.pages) := by
  have extent := divides.extent
  have begins : nextMultiple f.base = .ok f.base := if_pos (Frames.divides_boundary divides)
  have counted : (f.limit - f.base) / pageSize = f.count := by
    unfold pageSize at *
    omega
  have freed := freeAll_accepted known ((Frames.pages_ascend f).imp Nat.ne_of_lt) accepted
  simp only [freeRange, begins, counted, Frames.row_pages divides, freed, extent, addWord, if_pos top]

def opened (f : Frames) : Stock cores := ⟨some f, Vector.replicate cores [], []⟩

theorem not_has_opened (f : Frames) (p : Nat) : (opened f : Stock cores).has p = false :=
  not_has_iff.mpr (by simp [opened])

theorem serve_init_pages (planned : Frames.plan start stop = .ok (.ok f)) (divides : f.Divides start stop)
    (top : f.limit + pageSize < wordLimit) (known : core < cores) :
    (empty : Stock cores).serve core (.init start stop) =
      (.done .unit, (opened f).pushAll ⟨core, known⟩ f.pages) := by
  have accepted : ∀ p ∈ f.pages, (opened f : Stock cores).refusal p = none := by
    intro p member
    obtain ⟨k, small, rfl⟩ := Frames.mem_pages.mp member
    obtain ⟨whole, _, _⟩ := Frames.divides_plain divides small
    have place : f.indexOf (f.base + k * pageSize) = .ok (.ofNat k) := by
      apply (Frames.divides_indexOf divides).mpr
      rw [whole]
      exact ⟨small, rfl⟩
    have out : (opened f : Stock cores).has (f.base + k * pageSize) = false := not_has_opened f _
    simp only [refusal, opened] at out ⊢
    simp only [place, out, Bool.false_eq_true, if_false]
  have freed := freeRange_pages divides top known accepted
  simp only [opened] at freed
  simp only [serve, init, empty, planned, Option.isSome_none, Bool.false_eq_true, if_false, freed]
  rfl

-- One core has all the pages that are left.
structure Left (s : Stock cores) (f : Frames) (c : Fin cores) (rest : List Nat) : Prop where
  managed : s.managed = some f
  own : s.stack[c] = rest
  others : ∀ d : Fin cores, d ≠ c → s.stack[d] = []

theorem Left.has {p : Nat} (left : s.Left f c rest) (member : p ∈ rest) : s.has p = true := by
  apply has_iff.mpr
  rw [← left.own] at member
  exact .inr ⟨c, member⟩

theorem left_pages (f : Frames) (c : Fin cores) :
    Left ((opened f).pushAll c f.pages) f c f.pages.reverse := by
  refine ⟨managed_pushAll _, ?_, ?_⟩
  · rw [stack_pushAll, if_pos rfl]
    simp [opened]
  · intro d away
    rw [stack_pushAll, if_neg (Ne.symm away)]
    simp [opened]

theorem Left.alloc_page {p : Nat} (left : s.Left f c (p :: rest)) (known : core < cores) :
    s.alloc core = (.ok (some p), s.pop c) := by
  obtain ⟨managed, own, others⟩ := left
  have found : s.source ⟨core, known⟩ = some c := by
    cases source : s.source ⟨core, known⟩ with
    | none =>
      rw [source_none.mp source c] at own
      cases own
    | some d =>
      obtain ⟨page, later, stack⟩ := source_some source
      by_cases here : d = c
      · rw [here]
      · rw [others d here] at stack
        cases stack
  simp only [Stock.alloc, managed, dif_pos known, found, own, List.head?_cons]

theorem Left.alloc_none (left : s.Left f c []) (known : core < cores) : s.alloc core = (.ok none, s) := by
  obtain ⟨managed, own, others⟩ := left
  have nothing : s.source ⟨core, known⟩ = none := by
    apply source_none.mpr
    intro d
    by_cases here : d = c
    · rw [here, own]
    · exact others d here
  simp only [Stock.alloc, managed, dif_pos known, nothing]

theorem Left.pop {p : Nat} (left : s.Left f c (p :: rest)) : (s.pop c).Left f c rest := by
  obtain ⟨managed, own, others⟩ := left
  refine ⟨managed, ?_, ?_⟩
  · rw [stack_pop, if_pos rfl, own, List.tail_cons]
  · intro d away
    rw [stack_pop, if_neg (Ne.symm away)]
    exact others d away

theorem Left.alloc_unknown (left : s.Left f c rest) (unknown : ¬ core < cores) :
    s.alloc core = (.error (.coreOutside .alloc core cores), s) := by
  simp only [Stock.alloc, left.managed, dif_neg unknown]

theorem Left.allocMany (left : s.Left f c rest) (core count : Nat) :
    ∃ later, rest = (s.allocMany core count).1 ++ later ∧ (s.allocMany core count).2.2.Left f c later := by
  induction count generalizing s rest with
  | zero => exact ⟨rest, rfl, left⟩
  | succ count ih =>
    unfold Stock.allocMany
    by_cases known : core < cores
    · cases rest with
      | nil =>
        rw [left.alloc_none known]
        exact ⟨[], rfl, left⟩
      | cons p rest =>
        rw [left.alloc_page known]
        obtain ⟨later, split, left⟩ := ih left.pop
        exact ⟨later, congrArg (p :: ·) split, left⟩
    · rw [left.alloc_unknown known]
      exact ⟨rest, rfl, left⟩

end Stock

def Frees : Event → Prop
  | .free _ | .freeAddress _ | .freeRange _ _ => True
  | _ => False

namespace Stock

variable {s : Stock cores} {f : Frames} {c : Fin cores} {rest : List Nat} {h : Holder cores}

theorem keeps_call {event : Event} {call : Call} (asks : h.call? event = some call)
    (keeps : ¬ Frees event) :
    (∀ address, call ≠ .free address) ∧ ∀ start stop, call ≠ .freeRange start stop := by
  cases event with
  | free name => exact absurd trivial keeps
  | freeAddress address => exact absurd trivial keeps
  | freeRange start stop => exact absurd trivial keeps
  | init start stop =>
    simp only [Holder.call?] at asks
    split at asks <;> cases asks
    simp
  | alloc name =>
    simp only [Holder.call?] at asks
    split at asks <;> cases asks
    simp
  | _ => cases asks <;> simp

theorem Left.serve (left : s.Left f c rest) {event : Event} {call : Call} (asks : h.call? event = some call)
    (keeps : ¬ Frees event) (core : Nat) :
    ∃ later, rest = handed (s.serve core call).1 ++ later ∧ (s.serve core call).2.Left f c later := by
  cases call with
  | init start stop =>
    simp only [Stock.serve, Stock.init, left.managed]
    exact ⟨rest, rfl, left⟩
  | alloc =>
    simp only [Stock.serve]
    by_cases known : core < cores
    · cases rest with
      | nil =>
        rw [left.alloc_none known]
        exact ⟨[], rfl, left⟩
      | cons p rest =>
        rw [left.alloc_page known]
        exact ⟨rest, rfl, left.pop⟩
    · rw [left.alloc_unknown known]
      exact ⟨rest, rfl, left⟩
  | allocMany count => exact left.allocMany core count
  | free address => exact absurd rfl ((keeps_call asks keeps).1 address)
  | freeRange start stop => exact absurd rfl ((keeps_call asks keeps).2 start stop)
  | freePages id =>
    simp only [Stock.serve, Stock.freePages]
    split <;> exact ⟨rest, rfl, left⟩
  | totalFree => exact ⟨rest, rfl, left⟩
  | capacity => exact ⟨rest, rfl, left⟩
  | isFree address => exact ⟨rest, rfl, left⟩

end Stock

namespace Account

variable {ram : Ram} {a b : Account cores} {f : Frames} {c : Fin cores} {rest pages : List Nat}

-- Steps that give no page back, with the pages that the replies hand out in this order.
inductive Draws (a : Account cores) : List Nat → Account cores → Prop where
  | refl : Draws a [] a
  | step {pages : List Nat} {b : Account cores} {event : Event} (before : Draws a pages b)
      (spares : Spares b event) (keeps : ¬ Frees event) :
      Draws a (pages ++ handed (b.holder.step event).1.reply) (b.next event)

theorem next_left (sound : Sound a) (left : a.stock.Left f c rest) {event : Event} (keeps : ¬ Frees event) :
    ∃ later, rest = handed (a.holder.step event).1.reply ++ later ∧ (a.next event).stock.Left f c later := by
  cases asks : a.holder.call? event with
  | none =>
    rw [(Holder.step_writes asks).2.1, (next_unserved asks).1]
    exact ⟨rest, rfl, left⟩
  | some call =>
    rw [(Holder.step_serves sound.shows asks).1, (next_served asks).1]
    exact left.serve asks keeps a.holder.cpu.core

theorem draws_left (sound : Sound a) (left : a.stock.Left f c rest) (draws : Draws a pages b) :
    Sound b ∧ ∃ later, rest = pages ++ later ∧ b.stock.Left f c later := by
  induction draws with
  | refl => exact ⟨sound, rest, rfl, left⟩
  | step _ spares keeps ih =>
    obtain ⟨sound, middle, split, left⟩ := ih
    obtain ⟨later, next, left⟩ := next_left sound left keeps
    refine ⟨next_sound sound spares, later, ?_, left⟩
    rw [split, next, List.append_assoc]

def offered : List Nat → Holder.Answer
  | [] => .noPage
  | p :: _ => .page p (List.replicate pageSize allocFill)

theorem left_alloc (sound : Sound a) (left : a.stock.Left f c rest) {name : String}
    (unused : a.holder.held.find? name = none) (known : a.holder.cpu.core < cores) :
    (a.holder.step (.alloc name)).1.reply = .done (offered rest) := by
  have asks : a.holder.call? (.alloc name) = some .alloc := by simp only [Holder.call?, unused]
  rw [(Holder.step_serves sound.shows asks).1, Stock.serve]
  cases rest with
  | nil =>
    rw [left.alloc_none known]
    rfl
  | cons p rest =>
    rw [left.alloc_page known]
    rfl

theorem unmanaged_extent (aligned : ram.base % pageSize = 0) (path : Run Spares (start cores ram) a)
    (none : a.holder.allocator.frames = ⟨none⟩) :
    a.holder.allocator.ram.base = ram.base ∧ a.holder.allocator.ram.limit = ram.limit := by
  induction path with
  | refl => exact ⟨rfl, rfl⟩
  | @step b event before spares ih =>
    have sound := run_sound before (sound_start aligned)
    cases asks : b.holder.call? event with
    | none =>
      have wrote : (b.next event).holder.allocator = _ := (Holder.step_writes asks).1
      rw [wrote] at none ⊢
      cases wrote : b.holder.written event with
      | none =>
        rw [wrote] at none
        exact ih none
      | some piece =>
        rw [wrote] at none
        obtain ⟨base, limit⟩ := ih none
        exact ⟨(Ram.base_setBytes _).trans base, (Ram.limit_setBytes _).trans limit⟩
    | some call =>
      have follows := (Holder.step_serves sound.shows asks).2
      rw [← (next_served asks).1] at follows
      have unmanaged : (b.next event).stock.managed = Option.none := by
        cases managed : (b.next event).stock.managed with
        | none => rfl
        | some f =>
          have frames := (follows.shows.of_managed managed).1
          rw [show (b.holder.step event).2 = (b.next event).holder from rfl, none] at frames
          cases frames
      have same : (b.next event).holder.allocator = b.holder.allocator := (follows.idle unmanaged).1
      rw [same] at none ⊢
      exact ih none

end Account

namespace Allocator

open Operation

variable {e : Execution (Fin cores) (Act cores) (Allocator cores)} {start stop : Nat}

theorem init_again (initialized : e.state.frames.isInitialized = true) (start stop : Nat) :
    (init start stop).run e = (.ok (.error .alreadyInitialized), e) := by
  simp only [init, run_bind, run_view, initialized, if_true]
  rfl

theorem init_refused (uninitialized : e.state.frames.isInitialized = false)
    (room : start + pageSize < wordLimit) (few : wholeCount start stop ≤ 1) :
    (init start stop).run e = (.ok (.error (.empty start stop)), e) := by
  have none : roundDown stop ≤ ceiling start ∨ wholeCount start stop = 1 := by
    by_cases ordered : ceiling start < roundDown stop
    · obtain ⟨several, _⟩ := wholeCount_extent ordered
      exact .inr (Nat.le_antisymm few several)
    · exact .inl (Nat.le_of_not_lt ordered)
  rw [init_carves uninitialized, Frames.carve, Frames.plan_layout room, Frames.layout_empty none]
  rfl

end Allocator

namespace Holder

variable {h : Holder cores} {start stop : Nat} {error : InitError}

theorem step_init_rejected (asks : h.call? (.init start stop) = some (.init start stop))
    (refused : ∀ e : Execution (Fin cores) (Allocator.Act cores) (Allocator cores),
      e.state = h.allocator → (Allocator.init start stop).run e = (.ok (.error error), e)) :
    (h.step (.init start stop)).1.reply = .rejected error ∧
      (h.step (.init start stop)).2 = { h with past := [] } := by
  have inside : (!h.allocator.frames.isInitialized && leavesRam h.allocator.ram start stop) = false := by
    simpa [call?] using asks
  obtain ⟨cpu, held, past, allocator⟩ := h
  have ran := refused ⟨⟨0⟩, cpu, [], allocator⟩ rfl
  simp only [step, advance, inside, Bool.false_eq_true, if_false, call, ran]
  exact ⟨rfl, trivial⟩

end Holder

namespace Account

open Allocator (init_refused init_again)

variable {ram : Ram} {a : Account cores} {f : Frames} {c : Fin cores} {begin stop : Nat}

-- What a holder has after it took over a range. All pages are on the list of the core that took it, the
-- highest on top, and come out in that order wherever they are asked for.
structure TakenOver (a : Account cores) (core begin stop : Nat) (f : Frames) : Prop where
  frames : a.holder.allocator.frames = ⟨some f⟩
  divides : f.Divides begin stop
  capacity : (a.holder.step .capacity).1.reply = .done (.number (pageCount (wholeCount begin stop)))
  ascends : f.pages.Pairwise (· < ·)
  free : ∀ p ∈ f.pages, (a.holder.step (.isFree p)).1.reply = .done (.flag true) ∧
    a.holder.allocator.ram.Full p freeFill
  lists : ∀ c : Fin cores, f.Stacked a.holder.allocator c (if c.val = core then f.pages.reverse else [])
  draws : ∀ pages b, Draws a pages b → ∃ rest, f.pages.reverse = pages ++ rest ∧
    ∀ name, b.holder.held.find? name = none → b.holder.cpu.core < cores →
      (b.holder.step (.alloc name)).1.reply = .done (offered rest)

theorem init_asks (room : begin + pageSize < wordLimit)
    (inside : a.holder.allocator.ram.covers begin (stop - begin) = true) :
    a.holder.call? (.init begin stop) = some (.init begin stop) := by
  simp only [Holder.call?, Frames.stays_covered room inside, Bool.and_false, Bool.false_eq_true, if_false]

theorem taken_over (sound : Sound a) (left : a.stock.Left f c f.pages.reverse)
    (frames : a.holder.allocator.frames = ⟨some f⟩) (divides : f.Divides begin stop)
    (full : ∀ p ∈ f.pages, a.holder.allocator.ram.Full p freeFill) : TakenOver a c.val begin stop f := by
  obtain ⟨_, kept⟩ := sound.shows.of_frames frames
  refine ⟨frames, divides, ?_, Frames.pages_ascend f, ?_, ?_, ?_⟩
  · have served : (a.holder.step .capacity).1.reply = _ := (Holder.step_serves sound.shows rfl).1
    simp only [Stock.serve, Stock.capacity, left.managed, divides.count] at served
    exact served
  · intro p member
    refine ⟨?_, full p member⟩
    rw [sound_isFree sound, left.has (List.mem_reverse.mpr member)]
  · intro d
    have stacked := kept.stacked d
    by_cases here : d = c
    · subst here
      rw [if_pos rfl, ← left.own]
      exact stacked
    · rw [left.others d here] at stacked
      rw [if_neg fun same => here (Fin.ext same)]
      exact stacked
  · intro pages b draws
    obtain ⟨later, rest, split, remain⟩ := draws_left sound left draws
    exact ⟨rest, split, fun name unused known => left_alloc later remain unused known⟩

theorem takes_over (sound : Sound a) (fresh : a.holder.allocator.frames = ⟨none⟩)
    (known : a.holder.cpu.core < cores) (high : a.holder.allocator.ram.limit + pageSize < wordLimit)
    (few : a.holder.allocator.ram.limit < a.holder.allocator.ram.base + listEnd.toNat * pageSize)
    (inside : a.holder.allocator.ram.covers begin (stop - begin) = true)
    (several : 2 ≤ wholeCount begin stop) :
    (a.holder.step (.init begin stop)).1.reply = .done .unit ∧
      ∃ f, TakenOver (a.next (.init begin stop)) a.holder.cpu.core begin stop f := by
  obtain ⟨f, planned, divides, top⟩ := Frames.plan_covered high few inside several
  have asks := init_asks (Frames.room_covered high inside) inside
  have stock : a.stock = .empty := by
    cases sound.shows with
    | idle _ _ _ stock => exact stock
    | running f frames =>
      rw [fresh] at frames
      cases frames
  obtain ⟨reply, follows⟩ := Holder.step_serves sound.shows asks
  have taken := Stock.serve_init_pages planned divides top known
  have next := (next_served asks).1
  have left := Stock.left_pages f ⟨a.holder.cpu.core, known⟩
  rw [stock, taken] at reply follows next
  dsimp only at reply follows next
  rw [← next] at left follows
  obtain ⟨frames, _⟩ := follows.shows.of_managed left.managed
  refine ⟨reply, f, taken_over (served_sound sound asks) left frames divides ?_⟩
  intro p member
  have managed := Frames.pages_managed divides member
  exact (follows.treats f left.managed).taken p managed (Stock.not_has_iff.mpr (by simp [Stock.empty]))
    (left.has (List.mem_reverse.mpr member))

theorem leaves_alone (fresh : a.holder.allocator.frames = ⟨none⟩)
    (high : a.holder.allocator.ram.limit + pageSize < wordLimit)
    (inside : a.holder.allocator.ram.covers begin (stop - begin) = true) (few : wholeCount begin stop ≤ 1) :
    (a.holder.step (.init begin stop)).1.reply = .rejected (.empty begin stop) ∧
      (a.holder.step (.init begin stop)).2 = { a.holder with past := [] } := by
  have room := Frames.room_covered high inside
  apply Holder.step_init_rejected (init_asks room inside)
  intro e here
  exact init_refused (by rw [here, fresh]; rfl) room few

theorem already_taken (frames : a.holder.allocator.frames = ⟨some f⟩) (begin stop : Nat) :
    (a.holder.step (.init begin stop)).1.reply = .rejected .alreadyInitialized ∧
      (a.holder.step (.init begin stop)).2 = { a.holder with past := [] } := by
  have initialized : a.holder.allocator.frames.isInitialized = true := by rw [frames]; rfl
  apply Holder.step_init_rejected
  · simp only [Holder.call?, initialized, Bool.not_true, Bool.false_and, Bool.false_eq_true, if_false]
  · intro e here
    exact init_again (by rw [here, initialized]) begin stop

-- Over any memory that ends a page before the address space does and has fewer pages than there are links,
-- from any state that the calls can bring about. A range is taken over just when it
-- holds two whole pages; what is refused changes nothing, so that a later call may still succeed, and after
-- the first success every call is refused.
theorem a_range_is_taken_over_once (aligned : ram.base % pageSize = 0)
    (top : ram.limit + pageSize < wordLimit) (few : ram.limit < ram.base + listEnd.toNat * pageSize)
    (path : Run Spares (start cores ram) a) :
    (a.holder.allocator.frames = ⟨none⟩ → ∀ begin stop, ram.covers begin (stop - begin) = true →
      (2 ≤ wholeCount begin stop → a.holder.cpu.core < cores →
        (a.holder.step (.init begin stop)).1.reply = .done .unit ∧
          ∃ f, TakenOver (a.next (.init begin stop)) a.holder.cpu.core begin stop f) ∧
      (wholeCount begin stop ≤ 1 →
        (a.holder.step (.init begin stop)).1.reply = .rejected (.empty begin stop) ∧
          (a.holder.step (.init begin stop)).2 = { a.holder with past := [] } ∧
          ∀ first last, ram.covers first (last - first) = true → 2 ≤ wholeCount first last →
            a.holder.cpu.core < cores →
              ((a.next (.init begin stop)).holder.step (.init first last)).1.reply = .done .unit)) ∧
      ∀ f, a.holder.allocator.frames = ⟨some f⟩ → ∀ begin stop,
        (a.holder.step (.init begin stop)).1.reply = .rejected .alreadyInitialized ∧
          (a.holder.step (.init begin stop)).2 = { a.holder with past := [] } := by
  have sound := run_sound path (sound_start aligned)
  refine ⟨?_, fun f frames => already_taken frames⟩
  intro fresh begin stop inside
  obtain ⟨base, limit⟩ := unmanaged_extent aligned path fresh
  have high : a.holder.allocator.ram.limit + pageSize < wordLimit := limit ▸ top
  have marks : a.holder.allocator.ram.limit <
      a.holder.allocator.ram.base + listEnd.toNat * pageSize := by
    rw [limit, base]
    exact few
  have holds : ∀ {first last}, ram.covers first (last - first) = true →
      a.holder.allocator.ram.covers first (last - first) = true := by
    intro first last covered
    rw [Ram.covers_iff] at covered ⊢
    rwa [base, limit]
  refine ⟨fun several known => takes_over sound fresh known high marks (holds inside) several,
    fun little => ?_⟩
  obtain ⟨reply, same⟩ := leaves_alone fresh high (holds inside) little
  refine ⟨reply, same, ?_⟩
  intro first last covered several known
  have after : (a.next (.init begin stop)).holder = { a.holder with past := [] } := same
  have spares : Spares a (.init begin stop) := spares_silent rfl
  have later := next_sound sound spares
  refine (takes_over later ?_ ?_ ?_ ?_ ?_ several).1
  · rw [after]
    exact fresh
  · rw [after]
    exact known
  · rw [after]
    exact high
  · rw [after]
    exact marks
  · rw [after]
    exact holds covered

-- No whole page at first, and then four of them with parts of pages on both sides.
theorem a_range_is_taken_over_once_unaligned :
    let a := (start 2 (.zeroed kernelBase 6)).next (.init 0x80000001 0x80001fff)
    Run Spares (start 2 (.zeroed kernelBase 6)) a ∧ a.holder.allocator.frames = ⟨none⟩ ∧
      wholeCount 0x80000001 0x80005fff = 4 ∧
      (a.holder.step (.init 0x80000001 0x80005fff)).1.reply = .done .unit ∧
      ∃ f, TakenOver (a.next (.init 0x80000001 0x80005fff)) 0 0x80000001 0x80005fff f := by
  have path : Run Spares (start 2 (.zeroed kernelBase 6))
      ((start 2 (.zeroed kernelBase 6)).next (.init 0x80000001 0x80001fff)) :=
    .step .refl (spares_silent rfl)
  have fresh : ((start 2 (.zeroed kernelBase 6)).next
      (.init 0x80000001 0x80001fff)).holder.allocator.frames = ⟨none⟩ := by decide +kernel
  obtain ⟨uninitialized, _⟩ := a_range_is_taken_over_once (by decide) (by decide) (by decide) path
  obtain ⟨taken, _⟩ := uninitialized fresh 0x80000001 0x80005fff (by decide)
  exact ⟨path, fresh, by decide, taken (by decide) (by decide +kernel)⟩

end Account

end KernelResources.Page
