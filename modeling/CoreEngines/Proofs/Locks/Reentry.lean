import CoreEngines.Proofs.Locks.Upkeep
import CoreEngines.Proofs.Mailbox.Upkeep
import CoreEngines.Proofs.Schedules

/-!
Callbacks that come back.  A callback can run any operations before it answers, and can fail; no
operation is ever in its way, since none holds a lock while it asks.  Only a lock in the hands of
another flow can make an operation wait.
-/

namespace CoreEngines

def Happening.locks (held : List Lock) : Happening → List Lock
  | .acted (.acquire lock) _ => lock :: held
  | .acted (.release lock) _ => held.erase lock
  | _ => held

def locksIn (story : List Happening) : List Lock :=
  story.foldl Happening.locks []

/-- Nothing goes on in a flow: it is idle, a callback runs in it, or its innermost operation is
about to return. -/
def Flow.pauses : Flow → Bool
  | [] => true
  | ⟨_, .ask _ _⟩ :: _ => true
  | ⟨_, .done _⟩ :: _ => true
  | _ => false

/-- No lock is held, and what is read without a lock is right. -/
structure World.AtRest (world : World) : Prop where
  held : world.held = []
  mailboxes : ∀ {place mailbox}, world.mailboxAt? place = some mailbox →
    mailbox.queued = mailbox.queue.size
  registries : ∀ {place registry}, world.registryAt? place = some registry →
    registry.count = registry.roster.size

theorem Keeping.locks_next {state later : Keeping} {happening : Happening}
    (hnext : state.next? happening = some later) :
    happening.locks state.lock?.toList = later.lock?.toList := by
  induction happening using Happening.cases_inert with
  | inert happening hinert =>
      rw [next?_of_inert hinert] at hnext
      cases hnext
      unfold Happening.locks
      split <;> first | rfl | simp at hinert
  | acquire lock answer =>
      simp only [next?, Option.ite_none_right_eq_some, Option.some.injEq] at hnext
      obtain ⟨rfl, rfl⟩ := hnext
      rfl
  | release lock answer =>
      simp only [next?, Option.ite_none_right_eq_some, Option.some.injEq] at hnext
      obtain ⟨rfl, rfl⟩ := hnext
      simp [Happening.locks, lock?]
  | enroll registry thread length =>
      simp only [next?, Option.ite_none_right_eq_some, Option.some.injEq] at hnext
      obtain ⟨rfl, rfl⟩ := hnext
      rfl
  | publish registry count answer =>
      simp only [next?, Option.ite_none_right_eq_some, Option.some.injEq] at hnext
      obtain ⟨rfl, rfl⟩ := hnext
      rfl
  | answered callback result =>
      simp only [next?, Option.ite_none_right_eq_some, Option.some.injEq] at hnext
      obtain ⟨rfl, rfl⟩ := hnext
      rfl
  | called procedure =>
      simp only [next?, Option.ite_none_right_eq_some, Option.some.injEq] at hnext
      obtain ⟨rfl, rfl⟩ := hnext
      rfl

section
variable {journal : Journal} {flows : Nat → Flow} {index number : Nat} {below : List Nat}

theorem locks_foldl {state : Keeping} {steps : List Happening}
    (hkeeps : keeping.Keeps state steps) :
    steps.foldl Happening.locks state.lock?.toList =
      (steps.foldl keeping.observe state).lock?.toList := by
  induction steps generalizing state with
  | nil => rfl
  | cons happening steps ih =>
      obtain ⟨hallows, hkeeps⟩ := hkeeps
      obtain ⟨later, hnext⟩ := Option.isSome_iff_exists.mp hallows
      rw [(keeping_step hnext).2] at hkeeps
      rw [List.foldl_cons, List.foldl_cons, Keeping.locks_next hnext, (keeping_step hnext).2]
      exact ih hkeeps

/-- Who has put a thread on record and has not given a roster back has its lock. -/
theorem lock_of_enroll {target : Ref .registry} {thread : Ref .thread} {length : Nat}
    {steps : List Happening} (hkeeps : keeping.Keeps .free steps)
    (henroll : .acted (.registry target (.enroll thread)) length ∈ steps)
    (hrelease : .acted (.release (.roster target)) () ∉ steps) :
    (steps.foldl keeping.observe .free).lock? = some (.roster target) := by
  induction steps using List.reverseRecOn with
  | nil => cases henroll
  | append_singleton steps happening ih =>
      obtain ⟨hkeeps, hallows⟩ := (Discipline.keeps_concat _ _ _).mp hkeeps
      obtain ⟨later, hnext⟩ := Option.isSome_iff_exists.mp hallows
      rw [List.foldl_append, List.foldl_cons, List.foldl_nil, (keeping_step hnext).2]
      by_cases hearlier : .acted (.registry target (.enroll thread)) length ∈ steps
      · have hlock := ih hkeeps hearlier fun hmem => hrelease (List.mem_append_left _ hmem)
        have hlocks := Keeping.locks_next hnext
        rw [hlock, Option.toList_some] at hlocks
        unfold Happening.locks at hlocks
        split at hlocks
        · simp only [Keeping.next?, Option.ite_none_right_eq_some] at hnext
          rw [hnext.1] at hlock
          cases hlock
        · next lock _ =>
          simp only [Keeping.next?, Option.ite_none_right_eq_some] at hnext
          rw [hnext.1] at hlock
          cases hlock
          exact absurd (List.mem_append_right _ (List.mem_singleton_self _)) hrelease
        · exact Option.toList_eq_singleton_iff.mp hlocks.symm
      · obtain rfl := List.mem_singleton.mp ((List.mem_append.mp henroll).resolve_left hearlier)
        simp only [Keeping.next?, Option.ite_none_right_eq_some, Option.some.injEq] at hnext
        rw [← hnext.2]
        rfl

/-- The locks of an operation's story are what it has in its hands. -/
theorem locksIn_own (haccount : keeping.Account journal flows) (number : Nat) :
    locksIn (journal.own number) =
      (handsOf (keeping.standing journal) number).lock?.toList := by
  by_cases hnumber : number < journal.started
  · obtain ⟨operation, steps, hsteps, hkeeps, hown | ⟨result, hown, hreturns⟩⟩ :=
      haccount.story hnumber
    · have hstanding : keeping.standing journal number = some (keeping.after operation steps) :=
        Discipline.standing_of_own hown hsteps
      simp only [handsOf, hstanding, Option.getD_some]
      rw [hown]
      exact locks_foldl hkeeps
    · have hfree : steps.foldl keeping.observe .free = .free := hreturns
      have hstanding : keeping.standing journal number = none := by
        rw [Discipline.standing, hown, ← List.cons_append, List.foldl_append]
        rfl
      have hsteps : steps.foldl Happening.locks [] = [] := by
        have hlocks := locks_foldl hkeeps
        rwa [show keeping.start operation = .free from rfl, hfree] at hlocks
      simp only [handsOf, hstanding, Option.getD_none]
      rw [hown, locksIn, List.foldl_cons, List.foldl_append]
      change List.foldl _ (List.foldl Happening.locks [] steps) _ = _
      rw [hsteps]
      rfl
  · have hle := Nat.le_of_not_lt hnumber
    rw [Journal.own_eq_nil haccount.sound hle, handsOf,
      Discipline.standing_eq_none haccount.sound hle]
    rfl

/-- Who asks or is about to return has nothing in its hands. -/
theorem locksIn_of_accounts {activation : Activation}
    (haccounts : keeping.Accounts journal number activation)
    (haccount : keeping.Account journal flows) (hpauses : Flow.pauses [activation]) :
    locksIn (journal.own number) = [] := by
  obtain ⟨state, hstate, hensures⟩ := haccounts.standing
  have hfree : state = .free := by
    obtain ⟨operation, rest⟩ := activation
    cases rest with
    | ask callback next =>
        obtain ⟨hallows, _⟩ := hensures (.error .aborted) trivial
        simpa [keeping, Keeping.next?] using hallows
    | done result => exact hensures
    | _ => cases hpauses
  rw [locksIn_own haccount, handsOf, hstate, hfree]
  rfl

/-- Operations whose callbacks are running have nothing in their hands. -/
theorem locksIn_of_asking {flow : Flow} (haccount : keeping.Account journal flows)
    (hflow : List.Forall₂ (keeping.Accounts journal) below flow)
    (hasking : flow.all (·.isAsking)) :
    ∀ number ∈ below, locksIn (journal.own number) = [] := by
  induction hflow with
  | nil => simp
  | @cons number activation below flow hhead htail ih =>
      simp only [List.all_cons, Bool.and_eq_true] at hasking
      intro other hother
      rcases List.mem_cons.mp hother with rfl | hother
      · apply locksIn_of_accounts hhead haccount
        obtain ⟨operation, rest⟩ := activation
        cases rest with
        | ask callback next => rfl
        | _ => cases hasking.1
      · exact ih hasking.2 other hother

end

namespace Machine

/-- Below the innermost operation of a flow there are only operations whose callbacks run. -/
def Nested (machine : Machine) : Prop :=
  ∀ index, (machine.flow index).tail.all (·.isAsking)

theorem nested_idle (world : World) (count : Nat) : (idle world count).Nested := by
  intro index
  by_cases hinside : index < count <;> simp [flow, idle, hinside]

theorem nested_flow {world later : World} {flow flow' : Flow} {move : Move}
    {happening : Happening} (hnested : flow.tail.all (·.isAsking))
    (hmove : flow.move? world move = some (later, flow', happening)) :
    flow'.tail.all (·.isAsking) := by
  cases move with
  | start operation =>
      simp only [Flow.move?, Option.ite_none_right_eq_some] at hmove
      obtain ⟨hasking, heq⟩ := hmove
      cases heq
      exact hasking
  | step =>
      cases flow with
      | nil => cases hmove
      | cons top below =>
          simp only [Flow.move?, Option.map_eq_some_iff] at hmove
          obtain ⟨⟨later, rest, happening⟩, _, heq⟩ := hmove
          cases heq
          exact hnested
  | choose choice =>
      simp only [Flow.move?] at hmove
      split at hmove
      · cases hmove
        exact hnested
      · cases hmove
  | answer callback result =>
      simp only [Flow.move?] at hmove
      split at hmove
      · split at hmove
        · cases hmove
          exact hnested
        · cases hmove
      · cases hmove
  | finish =>
      simp only [Flow.move?] at hmove
      split at hmove
      case h_1 operation result below =>
        cases hmove
        cases flow' with
        | nil => rfl
        | cons top below =>
            simp only [List.tail_cons, List.all_cons, Bool.and_eq_true] at hnested
            exact hnested.2
      case h_2 => cases hmove

theorem nested_move? {machine machine' : Machine} {index : Nat} {move : Move}
    {happening : Happening} (hnested : machine.Nested)
    (hmove : machine.move? index move = some (machine', happening)) : machine'.Nested := by
  simp only [move?, Option.bind_eq_some_iff, Option.map_eq_some_iff] at hmove
  obtain ⟨old, hold, ⟨later, flow, happened⟩, hflow, heq⟩ := hmove
  cases heq
  have hindex : machine.flow index = old := by simp [Machine.flow, hold]
  have hinside : index < machine.flows.size := (Array.getElem?_eq_some_iff.mp hold).1
  intro other
  by_cases hother : other = index
  · subst hother
    have hnow := nested_flow (hindex ▸ hnested other) hflow
    simpa [Machine.flow, hinside] using hnow
  · simpa [Machine.flow, Ne.symm hother] using hnested other

theorem nested_run? {machine machine' : Machine} {moves : List (Nat × Move)} {history : History}
    (hnested : machine.Nested) (hrun : machine.run? moves = some (machine', history)) :
    machine'.Nested := by
  induction moves generalizing machine history with
  | nil =>
      cases hrun
      exact hnested
  | cons head moves ih =>
      simp only [run?, Option.bind_eq_some_iff, Option.map_eq_some_iff] at hrun
      obtain ⟨⟨next, happening⟩, hmove, ⟨last, later⟩, hlater, heq⟩ := hrun
      cases heq
      exact ih (nested_move? hnested hmove) hlater

theorem Nested.top_of_done {machine : Machine} {index : Nat} {operation : Operation}
    {result : Except Failure operation.Reply} (hnested : machine.Nested)
    (hmem : ⟨operation, .done result⟩ ∈ machine.flow index) :
    ∃ below, machine.flow index = ⟨operation, .done result⟩ :: below := by
  have hbelow := hnested index
  cases hflow : machine.flow index with
  | nil =>
      rw [hflow] at hmem
      cases hmem
  | cons activation below =>
      rw [hflow] at hmem hbelow
      rcases List.mem_cons.mp hmem with rfl | hmem
      · exact ⟨below, rfl⟩
      · cases List.all_eq_true.mp hbelow _ hmem

end Machine

namespace Locks

/-- Who holds which locks after a run. -/
structure InOrder (machine : Machine) (history : History) : Prop where
  /-- No operation holds two locks at once. -/
  single : ∀ number, (locksIn ((Journal.ofHistory history).own number)).length ≤ 1
  /-- Every lock that is held is held by an operation in progress, -/
  held : ∀ lock, lock ∈ machine.world.held ↔ ∃ index,
    ∃ number ∈ (Journal.ofHistory history).running index,
      lock ∈ locksIn ((Journal.ofHistory history).own number)
  /-- and by one only. -/
  alone : ∀ {lock number other}, lock ∈ locksIn ((Journal.ofHistory history).own number) →
    lock ∈ locksIn ((Journal.ofHistory history).own other) → number = other
  /-- An operation holds no lock while a callback of it runs other operations, -/
  enclosing : ∀ {index number below}, (Journal.ofHistory history).running index = number :: below →
    ∀ other ∈ below, locksIn ((Journal.ofHistory history).own other) = []
  /-- so a lock that an operation is to take can be in the hands of another flow only. -/
  waits : ∀ {index operation lock next below},
    machine.flow index = ⟨operation, .act (.acquire lock) next⟩ :: below →
      lock ∈ machine.world.held → ∃ other ≠ index,
        ∃ number ∈ (Journal.ofHistory history).running other,
          lock ∈ locksIn ((Journal.ofHistory history).own number)
  /-- Where there is one flow, every lock is free when it is to be taken. -/
  solitary : ∀ {index operation lock next below}, machine.flows.size = 1 →
    machine.flow index = ⟨operation, .act (.acquire lock) next⟩ :: below →
      lock ∉ machine.world.held
  /-- A flow holds no lock when a callback starts in it, nor when an operation of it has ended, in
  whatever way. -/
  pauses : ∀ {index}, (machine.flow index).pauses →
    ∀ number ∈ (Journal.ofHistory history).running index,
      locksIn ((Journal.ofHistory history).own number) = []
  /-- When this is so of all flows at once, the world is at rest. -/
  rest : (∀ index, (machine.flow index).pauses) → machine.world.AtRest

section
variable {journal : Journal} {flows : Nat → Flow} {world : World}

theorem mem_locksIn {lock : Lock} {number : Nat} (haccount : keeping.Account journal flows) :
    lock ∈ locksIn (journal.own number) ↔
      (handsOf (keeping.standing journal) number).lock? = some lock := by
  rw [locksIn_own haccount, Option.mem_toList]

theorem mem_running {lock : Lock} {number : Nat} (haccount : keeping.Account journal flows)
    (hlock : lock ∈ locksIn (journal.own number)) : ∃ index, number ∈ journal.running index := by
  rw [mem_locksIn haccount, handsOf] at hlock
  cases hstate : keeping.standing journal number with
  | none =>
      rw [hstate] at hlock
      cases hlock
  | some state => exact haccount.mem_running hstate

theorem held_iff (haccount : keeping.Account journal flows)
    (hkept : Kept world (handsOf (keeping.standing journal))) (lock : Lock) :
    lock ∈ world.held ↔ ∃ index, ∃ number ∈ journal.running index,
      lock ∈ locksIn (journal.own number) := by
  rw [hkept.held.mem_iff]
  constructor
  · rintro ⟨number, hnumber⟩
    have hlock := (mem_locksIn haccount).mpr hnumber
    obtain ⟨index, hrunning⟩ := mem_running haccount hlock
    exact ⟨index, number, hrunning, hlock⟩
  · rintro ⟨index, number, _, hlock⟩
    exact ⟨number, (mem_locksIn haccount).mp hlock⟩

theorem holds_of_enroll {target : Ref .registry} {thread : Ref .thread} {length number : Nat}
    {operation : Operation} {story : List Happening} (haccount : keeping.Account journal flows)
    (hown : journal.own number = .started operation :: story)
    (henroll : .acted (.registry target (.enroll thread)) length ∈ story)
    (hrelease : .acted (.release (.roster target)) () ∉ story) :
    .roster target ∈ locksIn (journal.own number) := by
  obtain ⟨_, steps, _, hkeeps, hstory | ⟨result, hstory, hreturns⟩⟩ :=
    haccount.story (Journal.lt_started_of_own haccount.sound hown)
  · obtain ⟨_, rfl⟩ := List.cons.inj (hown.symm.trans hstory)
    have hlocks : locksIn story = (story.foldl keeping.observe .free).lock?.toList :=
      locks_foldl hkeeps
    rw [lock_of_enroll hkeeps henroll hrelease] at hlocks
    rw [hown]
    change Lock.roster target ∈ locksIn story
    rw [hlocks]
    exact List.mem_singleton_self _
  · obtain ⟨_, rfl⟩ := List.cons.inj (hown.symm.trans hstory)
    have hfree : steps.foldl keeping.observe .free = .free := hreturns
    have hlock := lock_of_enroll hkeeps ((List.mem_append.mp henroll).resolve_right (by simp))
      fun hmem => hrelease (List.mem_append_left _ hmem)
    rw [hfree] at hlock
    cases hlock

/-- Operations that enclose the innermost one of their flow hold no lock. -/
theorem enclosing_free {index number : Nat} {below : List Nat}
    (haccount : keeping.Account journal flows) (hnested : (flows index).tail.all (·.isAsking))
    (hrunning : journal.running index = number :: below) :
    ∀ other ∈ below, locksIn (journal.own other) = [] := by
  have hflow := haccount.running index
  rw [hrunning] at hflow
  generalize flows index = flow at hflow hnested
  cases hflow with
  | cons hhead htail => exact locksIn_of_asking haccount htail hnested

/-- A flow whose innermost operation holds no lock holds none at all. -/
theorem flow_free {index : Nat} (haccount : keeping.Account journal flows)
    (hnested : (flows index).tail.all (·.isAsking))
    (htop : ∀ {activation below number}, flows index = activation :: below →
      keeping.Accounts journal number activation → locksIn (journal.own number) = []) :
    ∀ number ∈ journal.running index, locksIn (journal.own number) = [] := by
  intro other hother
  cases hflow : flows index with
  | nil =>
      have hrunning := haccount.running index
      rw [hflow, List.forall₂_nil_right_iff] at hrunning
      rw [hrunning] at hother
      cases hother
  | cons activation below =>
      obtain ⟨number, numbers, hrunning, haccounts, _⟩ := haccount.top hflow
      rw [hrunning] at hother
      rcases List.mem_cons.mp hother with rfl | hother
      · exact htop hflow haccounts
      · exact enclosing_free haccount hnested hrunning other hother

/-- A flow that is about to take a lock holds none. -/
theorem acquiring_free {index : Nat} {operation : Operation} {lock : Lock}
    {next : Unit → Program operation.Reply} {below : Flow}
    (haccount : keeping.Account journal flows) (hnested : (flows index).tail.all (·.isAsking))
    (hflow : flows index = ⟨operation, .act (.acquire lock) next⟩ :: below) :
    ∀ number ∈ journal.running index, locksIn (journal.own number) = [] := by
  apply flow_free haccount hnested
  intro activation _ number hactivation haccounts
  cases hflow.symm.trans hactivation
  obtain ⟨state, hstate, hensures⟩ := haccounts.standing
  obtain ⟨hallows, _⟩ := hensures () trivial
  have hfree : state = .free := by simpa [keeping, Keeping.next?] using hallows
  rw [locksIn_own haccount, handsOf, hstate, hfree]
  rfl

theorem pausing_free {index : Nat} (haccount : keeping.Account journal flows)
    (hnested : (flows index).tail.all (·.isAsking)) (hpauses : (flows index).pauses) :
    ∀ number ∈ journal.running index, locksIn (journal.own number) = [] := by
  apply flow_free haccount hnested
  intro activation below number hflow haccounts
  apply locksIn_of_accounts haccounts haccount
  rw [hflow] at hpauses
  obtain ⟨operation, rest⟩ := activation
  cases rest <;> first | rfl | cases hpauses

/-- While no lock is held, what is read without a lock is right. -/
theorem atRest_of_held {history : History} (hruns : Runs {} history world flows)
    (hkept : Kept world (handsOf (keeping.standing (.ofHistory history))))
    (hnone : world.held = []) : world.AtRest where
  held := hnone
  mailboxes {place mailbox} hmailbox := by
    obtain ⟨_, hupkeep⟩ :=
      hruns.account (Mailbox.sections_obeyed place) (Mailbox.upkeep_upholds place)
    exact (hupkeep.free mailbox hmailbox (by simp [hnone])).1
  registries {place registry} hregistry := by
    have hfree : .roster place ∉ world.held := by simp [hnone]
    simpa [World.tally, hregistry] using hkept.published hfree

end

/-- The only flow of a machine. -/
theorem index_of_flow_ne_nil {machine : Machine} {index : Nat} (hsize : machine.flows.size = 1)
    (hflow : machine.flow index ≠ []) : index = 0 := by
  by_contra hne
  have houtside : machine.flows.size ≤ index := by omega
  exact hflow (by simp [Machine.flow, houtside])

/-- Whatever callbacks do, no operation ever waits for a lock of its own flow, and all locks are
free whenever nothing goes on. -/
theorem inOrder_of_run? {count : Nat} {moves : List (Nat × Move)} {machine : Machine}
    {history : History} (hrun : (Machine.idle {} count).run? moves = some (machine, history)) :
    InOrder machine history := by
  have hruns := Machine.runs_of_run? hrun
  have hnested := Machine.nested_run? (Machine.nested_idle {} count) hrun
  obtain ⟨haccount, hkept⟩ := hruns.account keeping_obeyed kept_upholds
  have hheld := held_iff haccount hkept
  have hwaits : ∀ {index operation lock next below},
      machine.flow index = ⟨operation, .act (.acquire lock) next⟩ :: below →
        lock ∈ machine.world.held → ∃ other ≠ index,
          ∃ number ∈ (Journal.ofHistory history).running other,
            lock ∈ locksIn ((Journal.ofHistory history).own number) := by
    intro index operation lock next below hflow hlock
    obtain ⟨other, number, hrunning, hmem⟩ := (hheld lock).mp hlock
    refine ⟨other, ?_, number, hrunning, hmem⟩
    rintro rfl
    rw [acquiring_free haccount (hnested other) hflow number hrunning] at hmem
    cases hmem
  refine ⟨?_, hheld, ?_, ?_, hwaits, ?_, ?_, ?_⟩
  · intro number
    rw [locksIn_own haccount]
    exact Option.length_toList_le
  · intro lock number other hnumber hother
    exact hkept.held.alone ((mem_locksIn haccount).mp hnumber) ((mem_locksIn haccount).mp hother)
  · intro index number below hrunning
    exact enclosing_free haccount (hnested index) hrunning
  · intro index operation lock next below hsize hflow hlock
    obtain ⟨other, hother, number, hrunning, _⟩ := hwaits hflow hlock
    have hnonempty : machine.flow other ≠ [] := by
      intro hnil
      have hlength := hruns.journal.1 other
      rw [hnil, List.length_nil, List.length_eq_zero_iff] at hlength
      rw [hlength] at hrunning
      cases hrunning
    have hbusy : machine.flow index ≠ [] := by simp [hflow]
    apply hother
    rw [index_of_flow_ne_nil hsize hnonempty, index_of_flow_ne_nil hsize hbusy]
  · intro index hpauses
    exact pausing_free haccount (hnested index) hpauses
  · intro hall
    apply atRest_of_held hruns hkept
    rw [List.eq_nil_iff_forall_not_mem]
    intro lock hlock
    obtain ⟨index, number, hrunning, hmem⟩ := (hheld lock).mp hlock
    rw [pausing_free haccount (hnested index) (hall index) number hrunning] at hmem
    cases hmem

open Schedule

/-- A manager is handed a thread and pushes a message to it.  The processor creates another thread
instead of masking interrupts, and fails; so does the manager then. -/
def failingCallbacks : List (Nat × Move) :=
  inFlow 0 (along (.makeRegistry ⟨0⟩ 1) 2 ++ makingContext ⟨0⟩ .startup ⟨0⟩ ⟨0⟩ ++ creating ⟨0⟩ ++
    [Move.start (.admitStaged ⟨0⟩)] ++ steps 5 ++
    [Move.start (.push ⟨0⟩ (.notification .timeoutEvent 1))] ++ creating ⟨0⟩ ++
    [Move.answer .mask (.error .aborted), .finish,
      .answer (.schedule ⟨0⟩ "" ⟨0⟩) (.error .aborted)])

theorem inOrder_failingCallbacks : ∃ machine history,
    (Machine.idle {} 1).run? failingCallbacks = some (machine, history) ∧
      InOrder machine history ∧ machine.world.AtRest := by
  have hsome : ((Machine.idle {} 1).run? failingCallbacks).isSome := by rfl
  obtain ⟨⟨machine, history⟩, hrun⟩ := Option.isSome_iff_exists.mp hsome
  have hpauses : (((Machine.idle {} 1).run? failingCallbacks).map fun outcome =>
      outcome.1.flows.toList.all Flow.pauses) = some true := by rfl
  rw [hrun, Option.map_some, Option.some.injEq, List.all_eq_true] at hpauses
  have hinOrder := inOrder_of_run? hrun
  refine ⟨machine, history, hrun, hinOrder, hinOrder.rest fun index => ?_⟩
  by_cases hinside : index < machine.flows.size
  · simpa [Machine.flow, hinside] using hpauses machine.flows[index] (by simp)
  · simp [Machine.flow, Nat.le_of_not_lt hinside, Flow.pauses]

end Locks

end CoreEngines
