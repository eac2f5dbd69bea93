import KernelResources.Proofs.Buffer.Attendance
import KernelResources.Proofs.Buffer.Teams
import KernelResources.Proofs.Buffer.WriteThrough

namespace KernelResources.Buffer

open Machine

variable {n m : Nat}

theorem nameOf_inj {a b : TaskId} : nameOf a = nameOf b ↔ a = b := by
  refine ⟨?_, congrArg nameOf⟩
  obtain ⟨a⟩ := a
  obtain ⟨b⟩ := b
  intro same
  have digits : Nat.toDigits 10 a = Nat.toDigits 10 b := by
    rw [← Nat.toList_repr, ← Nat.toList_repr]
    exact congrArg String.toList same
  rw [TaskId.mk.injEq, ← Nat.ofDigitChars_ten_toDigits (n := a), digits, Nat.ofDigitChars_ten_toDigits]

theorem Client.name_ne {c d : Client} (apart : c.task ≠ d.task) : c.name ≠ d.name :=
  fun same => apart (nameOf_inj.mp same)

namespace Ledger

variable (l : Ledger m) (task : TaskId) (request : Request m) (reply : Reply)

theorem find?_lose_other {name other : String} (apart : other ≠ name) :
    (l.lose name).grants.find? other = l.grants.find? other := by
  unfold lose
  cases l.grants.find? name with
  | none => rfl
  | some g => exact (Registry.find?_erase l.grants name other).trans (by simp [apart])

theorem lose_absent {name : String} (absent : l.grants.find? name = none) : l.lose name = l := by
  rw [lose, absent]

theorem requests_hear {other : TaskId} (apart : other ≠ task) :
    (l.hear task request reply).requests.find? other = l.requests.find? other := by
  unfold hear
  split
  · simp [grant, requests_lose, Registry.find?_erase, apart]
  · simp [Registry.find?_put, apart]
  · simp [Registry.find?_erase, apart]
  · rfl

theorem grants_hear {other : String} (apart : other ≠ request.name) :
    (l.hear task request reply).grants.find? other = l.grants.find? other := by
  unfold hear
  split
  · simp [grant, Registry.find?_put, apart, find?_lose_other]
  · rfl
  · rfl
  · rfl

theorem written_hear : (l.hear task request reply).written = l.written := by
  unfold hear
  split
  · dsimp only [grant, lose]
    split <;> rfl
  · rfl
  · rfl
  · rfl

theorem grants_edit (name other : String) (f : Block → Block) :
    (l.edit name f).grants.find? other =
      if other = name then
        (l.grants.find? name).map fun g => { g with bytes := f g.bytes, edited := true }
      else l.grants.find? other := by
  have found := Registry.find?_update l.grants name other fun g : Grant m =>
    { g with bytes := f g.bytes, edited := true }
  unfold edit
  by_cases here : other = name
  · subst here
    simpa using found
  · simpa [here] using found

theorem grants_write (name other : String) :
    (l.write name).grants.find? other =
      if other = name then (l.grants.find? name).map fun g => { g with edited := false }
      else l.grants.find? other := by
  have found := Registry.find?_update l.grants name other fun g : Grant m => { g with edited := false }
  unfold write
  cases known : l.grants.find? name with
  | none =>
    by_cases here : other = name
    · simpa [here] using known
    · simp [here]
  | some g =>
    by_cases here : other = name
    · subst here
      simpa [known] using found
    · simpa [here] using found

theorem grants_giveBack (name other : String) :
    { l with grants := l.grants.erase name }.grants.find? other =
      if other = name then none else l.grants.find? other := by
  simpa using Registry.find?_erase l.grants name other

theorem write_keeps (name : String) :
    (l.write name).requests = l.requests ∧ (l.write name).pins = l.pins ∧
      (l.write name).lostBuffers = l.lostBuffers ∧ (l.write name).lostPins = l.lostPins := by
  unfold write
  cases l.grants.find? name <;> exact ⟨rfl, rfl, rfl, rfl⟩

theorem content_write {name : String} {g : Grant m} (known : l.grants.find? name = some g)
    (disks : Vector Disk m) (b : BlockId) :
    (l.write name).content disks g.spot.cache b =
      if b = g.block then g.bytes else l.content disks g.spot.cache b := by
  rw [write, known, content, content]
  dsimp only
  rw [Registry.find?_put]
  by_cases here : b = g.block <;> simp [here]

theorem content_hear (disks : Vector Disk m) (c : Fin m) (b : BlockId) :
    (l.hear task request reply).content disks c b = l.content disks c b := by
  rw [content, content, written_hear]

end Ledger

def Phase.Knows (phase : Phase) (g : Grant 1) (content : Block) : Prop :=
  match phase with
  | .asking => False
  | .counting => g.edited = false
  | .writing => g.bytes.counter = content.counter + 1
  | .releasing => g.edited = false
  | .stopped => False

structure Client.Waits (c : Client) (l : Ledger 1) (b : BlockId) (rest : List BlockId) : Prop where
  todo : c.todo = b :: rest
  phase : c.phase = .counting
  asked : l.requests.find? c.task = some ⟨0, b, true, c.name⟩
  unheld : l.grants.find? c.name = none

structure Client.Holds (c : Client) (l : Ledger 1) (g : Grant 1) (rest : List BlockId) : Prop where
  todo : c.todo = g.block :: rest
  unasked : l.requests.find? c.task = none
  held : l.grants.find? c.name = some g
  task : g.task = c.task
  loaded : g.loaded = true

inductive Standing (disks : Vector Disk 1) (l : Ledger 1) (c : Client) : Prop where
  | away (phase : c.phase = .asking) (unasked : l.requests.find? c.task = none)
      (unheld : l.grants.find? c.name = none)
  | waiting {b : BlockId} {rest : List BlockId} (waits : c.Waits l b rest)
  | holding {g : Grant 1} {rest : List BlockId} (holds : c.Holds l g rest)
      (knows : c.phase.Knows g (l.content disks 0 g.block))

variable {disks : Vector Disk 1} {l l' : Ledger 1} {c : Client} {b : BlockId} {rest : List BlockId}

namespace Standing

theorem same (standing : Standing disks l c)
    (requests : l'.requests.find? c.task = l.requests.find? c.task)
    (grants : l'.grants.find? c.name = l.grants.find? c.name)
    (contents : ∀ g, l.grants.find? c.name = some g →
      l'.content disks 0 g.block = l.content disks 0 g.block) : Standing disks l' c := by
  cases standing with
  | away phase unasked unheld => exact .away phase (requests.trans unasked) (grants.trans unheld)
  | waiting waits =>
    obtain ⟨todo, phase, asked, unheld⟩ := waits
    exact .waiting ⟨todo, phase, requests.trans asked, grants.trans unheld⟩
  | holding holds knows =>
    obtain ⟨todo, unasked, held, task, loaded⟩ := holds
    rw [← contents _ held] at knows
    exact .holding ⟨todo, requests.trans unasked, grants.trans held, task, loaded⟩ knows

theorem away_of_asking (standing : Standing disks l c) (phase : c.phase = .asking) :
    l.requests.find? c.task = none ∧ l.grants.find? c.name = none := by
  cases standing with
  | away _ unasked unheld => exact ⟨unasked, unheld⟩
  | waiting waits => cases phase.symm.trans waits.phase
  | holding _ knows =>
    rw [phase] at knows
    cases knows

theorem holds_of_phase (standing : Standing disks l c)
    (phase : c.phase = .writing ∨ c.phase = .releasing) :
    ∃ g rest, c.Holds l g rest ∧ c.phase.Knows g (l.content disks 0 g.block) := by
  cases standing with
  | away asking => rcases phase with phase | phase <;> cases phase.symm.trans asking
  | waiting waits => rcases phase with phase | phase <;> cases phase.symm.trans waits.phase
  | holding holds knows => exact ⟨_, _, holds, knows⟩

theorem hear (standing : Standing disks l c) {task : TaskId} {request : Request 1} (reply : Reply)
    (other : c.task ≠ task) (named : request.name = nameOf task) :
    Standing disks (l.hear task request reply) c := by
  have apart : c.name ≠ request.name := by
    rw [named]
    exact fun same => other (nameOf_inj.mp same)
  exact standing.same (l.requests_hear task request reply other) (l.grants_hear task request reply apart)
    fun g _ => l.content_hear task request reply disks 0 g.block

theorem served (todo : c.todo = b :: rest) (phase : c.phase = .counting)
    (unheld : l.grants.find? c.name = none) {reply : Reply} (served : Served reply) :
    Standing disks (l.hear c.task ⟨0, b, true, c.name⟩ reply) c := by
  cases served with
  | buffer info bytes =>
    refine .holding (g := Request.granted ⟨0, b, true, c.name⟩ c.task info.index bytes)
      ⟨todo, ?_, ?_, rfl, rfl⟩ ?_
    · simp [Ledger.hear, Ledger.grant, Ledger.requests_lose, Registry.find?_erase]
    · simp [Ledger.hear, Ledger.grant, Registry.find?_put]
    · rw [phase]
      rfl
  | asleep =>
    refine .waiting ⟨todo, phase, ?_, unheld⟩
    simp [Ledger.hear, Registry.find?_put]

end Standing

structure Books (disks : Vector Disk 1) (l : Ledger 1) (clients : List Client) : Prop where
  distinct : (clients.map (·.task)).Nodup
  standing : ∀ c ∈ clients, Standing disks l c
  askers : ∀ task request, l.requests.find? task = some request → ∃ c ∈ clients, c.task = task
  holders : ∀ name g, l.grants.find? name = some g → ∃ c ∈ clients, c.name = name
  unpinned : l.pins = []
  keptBuffers : l.lostBuffers = []
  keptPins : l.lostPins = []

namespace Books

variable {clients before after : List Client}

theorem apart (books : Books disks l (before ++ c :: after)) {d : Client} (other : d ∈ before ++ after) :
    d.task ≠ c.task := by
  have distinct := books.distinct
  rw [List.map_append, List.map_cons, List.nodup_middle, List.nodup_cons, ← List.map_append] at distinct
  intro same
  exact distinct.1 (List.mem_map.mpr ⟨d, other, same⟩)

theorem asker (books : Books disks l clients) {task : TaskId} {request : Request 1}
    (asked : l.requests.find? task = some request) :
    ∃ c ∈ clients, ∃ b rest, c.task = task ∧ c.Waits l b rest ∧ request = ⟨0, b, true, c.name⟩ := by
  obtain ⟨c, member, rfl⟩ := books.askers task request asked
  refine ⟨c, member, ?_⟩
  cases books.standing c member with
  | away phase unasked unheld =>
    rw [asked] at unasked
    cases unasked
  | waiting waits =>
    have same := asked.symm.trans waits.asked
    cases same
    exact ⟨_, _, rfl, waits, rfl⟩
  | holding holds =>
    have unasked := holds.unasked
    rw [asked] at unasked
    cases unasked

theorem holder (books : Books disks l clients) {name : String} {g : Grant 1}
    (known : l.grants.find? name = some g) :
    ∃ c ∈ clients, ∃ rest, c.name = name ∧ c.Holds l g rest ∧
      c.phase.Knows g (l.content disks 0 g.block) := by
  obtain ⟨c, member, rfl⟩ := books.holders name g known
  refine ⟨c, member, ?_⟩
  cases books.standing c member with
  | away phase unasked unheld =>
    rw [known] at unheld
    cases unheld
  | waiting waits =>
    have unheld := waits.unheld
    rw [known] at unheld
    cases unheld
  | holding holds knows =>
    have same := known.symm.trans holds.held
    cases same
    exact ⟨_, rfl, holds, knows⟩

theorem replace (books : Books disks l (before ++ c :: after)) {d : Client} (task : d.task = c.task)
    (standing : Standing disks l' d)
    (others : ∀ e ∈ before ++ after, e.task ≠ c.task → Standing disks l e → Standing disks l' e)
    (askers : ∀ task request, l'.requests.find? task = some request →
      task = c.task ∨ ∃ request, l.requests.find? task = some request)
    (holders : ∀ name g, l'.grants.find? name = some g →
      name = c.name ∨ ∃ g, l.grants.find? name = some g)
    (pins : l'.pins = l.pins) (lostBuffers : l'.lostBuffers = l.lostBuffers)
    (lostPins : l'.lostPins = l.lostPins) : Books disks l' (before ++ d :: after) := by
  have name : d.name = c.name := congrArg nameOf task
  have stays : ∀ e ∈ before ++ c :: after, e = c ∨ e ∈ before ++ d :: after := by
    intro e member
    rcases List.mem_append.mp member with early | late
    · exact .inr (List.mem_append_left _ early)
    · rcases List.mem_cons.mp late with here | late
      · exact .inl here
      · exact .inr (List.mem_append_right _ (List.mem_cons_of_mem d late))
  have here : d ∈ before ++ d :: after := List.mem_append_right _ List.mem_cons_self
  refine ⟨?_, ?_, ?_, ?_, pins.trans books.unpinned, lostBuffers.trans books.keptBuffers,
    lostPins.trans books.keptPins⟩
  · have distinct := books.distinct
    rw [List.map_append, List.map_cons] at distinct ⊢
    rw [task]
    exact distinct
  · intro e member
    rcases List.mem_append.mp member with early | late
    · have other := List.mem_append_left after early
      exact others e other (books.apart other) (books.standing e (List.mem_append_left _ early))
    · rcases List.mem_cons.mp late with rfl | late
      · exact standing
      · have other := List.mem_append_right before late
        exact others e other (books.apart other)
          (books.standing e (List.mem_append_right _ (List.mem_cons_of_mem c late)))
  · intro asker request asked
    rcases askers asker request asked with rfl | ⟨old, known⟩
    · exact ⟨d, here, task⟩
    · obtain ⟨e, member, same⟩ := books.askers asker old known
      rcases stays e member with rfl | still
      · exact ⟨d, here, task.trans same⟩
      · exact ⟨e, still, same⟩
  · intro holder g held
    rcases holders holder g held with rfl | ⟨old, known⟩
    · exact ⟨d, here, name⟩
    · obtain ⟨e, member, same⟩ := books.holders holder old known
      rcases stays e member with rfl | still
      · exact ⟨d, here, name.trans same⟩
      · exact ⟨e, still, same⟩

theorem hear (books : Books disks l (before ++ c :: after)) (todo : c.todo = b :: rest)
    (unheld : l.grants.find? c.name = none) {reply : Reply} (served : Served reply) :
    Books disks (l.hear c.task ⟨0, b, true, c.name⟩ reply)
      (before ++ { c with phase := .counting } :: after) := by
  have kept : (l.hear c.task ⟨0, b, true, c.name⟩ reply).pins = l.pins ∧
      (l.hear c.task ⟨0, b, true, c.name⟩ reply).lostBuffers = l.lostBuffers ∧
      (l.hear c.task ⟨0, b, true, c.name⟩ reply).lostPins = l.lostPins := by
    cases served with
    | buffer info bytes =>
      have absent : { l with requests := l.requests.erase c.task }.grants.find? c.name = none := unheld
      rw [Ledger.hear, Ledger.grant, Ledger.lose_absent _ absent]
      exact ⟨rfl, rfl, rfl⟩
    | asleep => exact ⟨rfl, rfl, rfl⟩
  refine books.replace (d := { c with phase := .counting }) rfl
    (Standing.served (c := { c with phase := .counting }) todo rfl unheld served) ?_ ?_ ?_
    kept.1 kept.2.1 kept.2.2
  · intro e _ other standing
    exact standing.hear reply other rfl
  · intro task request asked
    by_cases here : task = c.task
    · exact .inl here
    · rw [l.requests_hear _ _ _ here] at asked
      exact .inr ⟨request, asked⟩
  · intro name g held
    by_cases here : name = c.name
    · exact .inl here
    · rw [l.grants_hear _ _ _ here] at held
      exact .inr ⟨g, held⟩

theorem edit {g : Grant 1} (books : Books disks l (before ++ c :: after)) (holds : c.Holds l g rest)
    {f : Block → Block} (counts : (f g.bytes).counter = (l.content disks 0 g.block).counter + 1) :
    Books disks (l.edit c.name f) (before ++ { c with phase := .writing } :: after) := by
  refine books.replace (d := { c with phase := .writing }) rfl ?_ ?_
    (fun _ request asked => .inr ⟨request, asked⟩) ?_ rfl rfl rfl
  · have held : (l.edit c.name f).grants.find? c.name =
        some { g with bytes := f g.bytes, edited := true } := by
      rw [Ledger.grants_edit, if_pos rfl, holds.held]
      rfl
    exact .holding (g := { g with bytes := f g.bytes, edited := true })
      ⟨holds.todo, holds.unasked, held, holds.task, holds.loaded⟩ counts
  · intro e _ other standing
    refine standing.same rfl ?_ fun _ _ => rfl
    rw [Ledger.grants_edit, if_neg (Client.name_ne other)]
  · intro name h held
    rw [Ledger.grants_edit] at held
    split at held
    · rename_i same
      exact .inl same
    · exact .inr ⟨h, held⟩

theorem write {g : Grant 1} (books : Books disks l (before ++ c :: after)) (holds : c.Holds l g rest)
    (alone : ∀ name h, l.grants.find? name = some h → h.block = g.block → name = c.name) :
    Books disks (l.write c.name) (before ++ { c with phase := .releasing } :: after) := by
  obtain ⟨requests, pins, lostBuffers, lostPins⟩ := l.write_keeps c.name
  refine books.replace (d := { c with phase := .releasing }) rfl ?_ ?_ ?_ ?_ pins lostBuffers lostPins
  · have held : (l.write c.name).grants.find? c.name = some { g with edited := false } := by
      rw [Ledger.grants_write, if_pos rfl, holds.held]
      rfl
    exact .holding (g := { g with edited := false })
      ⟨holds.todo, requests ▸ holds.unasked, held, holds.task, holds.loaded⟩ rfl
  · intro e _ other standing
    have apart := Client.name_ne other
    refine standing.same (by rw [requests]) ?_ ?_
    · rw [Ledger.grants_write, if_neg apart]
    · intro h held
      have written := l.content_write holds.held disks h.block
      rw [Subsingleton.elim g.spot.cache 0, if_neg fun same => apart (alone e.name h held same)] at written
      exact written
  · intro task request asked
    exact .inr ⟨request, requests ▸ asked⟩
  · intro name h held
    rw [Ledger.grants_write] at held
    split at held
    · rename_i same
      exact .inl same
    · exact .inr ⟨h, held⟩

theorem giveBack {g : Grant 1} (books : Books disks l (before ++ c :: after)) (holds : c.Holds l g rest) :
    Books disks { l with grants := l.grants.erase c.name }
      (before ++ { c with todo := rest, phase := .asking } :: after) := by
  refine books.replace (d := { c with todo := rest, phase := .asking }) rfl ?_ ?_
    (fun _ request asked => .inr ⟨request, asked⟩) ?_ rfl rfl rfl
  · exact .away rfl holds.unasked ((l.grants_giveBack ..).trans (if_pos rfl))
  · intro e _ other standing
    exact standing.same rfl ((l.grants_giveBack ..).trans (if_neg (Client.name_ne other))) fun _ _ => rfl
  · intro name h held
    rw [Ledger.grants_giveBack] at held
    split at held
    · cases held
    · exact .inr ⟨h, held⟩

theorem resume (books : Books disks l clients) {woken : List Woken}
    (served : ∀ w ∈ woken, Served w.reply) : Books disks (l.resume woken) clients := by
  induction woken generalizing l with
  | nil => exact books
  | cons w later ih =>
    obtain ⟨first, served⟩ := List.forall_mem_cons.mp served
    unfold Ledger.resume
    cases asked : l.requests.find? w.task with
    | none => exact ih books served
    | some request =>
      obtain ⟨c, member, b, rest, same, waits, rfl⟩ := books.asker asked
      obtain ⟨before, after, rfl⟩ := List.append_of_mem member
      have told := books.hear waits.todo waits.unheld first
      -- To be answered moves nobody on: the client counts as soon as it has asked.
      have unmoved : { c with phase := .counting } = c := by
        rw [← waits.phase]
      rw [unmoved] at told
      rw [← same]
      exact ih told served

end Books

end KernelResources.Buffer
