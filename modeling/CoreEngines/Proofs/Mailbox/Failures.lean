import CoreEngines.Proofs.Locks.Reentry
import CoreEngines.Proofs.Mailbox.Bursts
import CoreEngines.Proofs.Mailbox.Independence
import CoreEngines.Proofs.Mailbox.Passages

/-!
Callbacks that fail.  An operation on a mailbox calls out before it takes the lock and after it has
given the lock back.  A failure there stops it with nothing done or with all done, and never leaves
the mailbox in between.
-/

namespace CoreEngines

open Program

theorem World.withMailbox_self {world : World} {target : Ref .mailbox} {mailbox : Mailbox}
    (hmailbox : world.mailboxAt? target = some mailbox) :
    world.withMailbox target mailbox = world := by
  rw [World.withMailbox, setIfInBounds_self hmailbox]

namespace Mailbox

section
variable {target : Ref .mailbox} {operation : Operation} {callback : Callback} {failure : Failure}
  {made : List Happening}

theorem given_of_asks (hasks : Asks target operation made callback) :
    .acted (.mailbox target .replenish) false ∉ made := by
  cases hasks with
  | masking hlooks => cases hlooks <;> simp
  | restoring hlooks previous hinSection => cases hlooks <;> cases hinSection <;> simp

/-- An operation that a callback has made fail has nothing more to do, -/
theorem spent_of_failure {happening : Happening} {rest : Program operation.Reply}
    (hdefers : operation.Defers target) :
    ¬ operation.program.Reaches ((made ++ [.answered callback (.error failure)]) ++ [happening])
      rest := by
  intro hreaches
  obtain ⟨hrest, hlonger⟩ := Straight.reaches (straight_of_defers hdefers) hreaches
  obtain ⟨late, result, hlate⟩ := hrest.told
  have hcourse := course_of_tells hdefers (hlonger late result hlate)
  have hmem : .answered callback (.error failure) ∈
      ((made ++ [.answered callback (.error failure)]) ++ [happening]) ++ late := by simp
  obtain ⟨earlier, hwhole, hcalm, _⟩ := asks_of_course hcourse hmem
  have hsplit : made ++ .answered callback (.error failure) :: happening :: late <+:
      earlier ++ [.answered callback (.error failure)] := by
    rw [← hwhole]
    simp
  obtain ⟨_, _, hnone⟩ := split_of_once (P := fun step => step.fails) hcalm
    (List.forall_mem_nil _) rfl hsplit
  cases List.prefix_nil.mp hnone

/-- and what it returns is the failure. -/
theorem error_of_asks {result : Except Failure operation.Reply} (hdefers : operation.Defers target)
    (hasks : Asks target operation made callback)
    (hreaches : operation.program.Reaches (made ++ [.answered callback (.error failure)])
      (.done result)) : result = .error failure := by
  have hcourse := course_of_tells hdefers (Straight.tells (straight_of_defers hdefers) hreaches)
  obtain ⟨earlier, hwhole, _, hends⟩ :=
    asks_of_course hcourse (List.mem_append_right _ (List.mem_singleton_self _))
  obtain ⟨rfl, _⟩ := List.append_inj' hwhole rfl
  obtain ⟨houtcome, _⟩ := hends.resolve_left (given_of_asks hasks)
  exact eq_of_outcome houtcome

theorem visits_of_looks {looks : List Happening} (hlooks : Looks target looks) :
    visits target looks = [] := by
  cases hlooks <;> simp [visits, Visit.of?, Access.visit?]

/-- Only a handler offers a message. -/
theorem eq_of_offered {message : Message} {accepted : Bool} {visits : List Visit}
    (hvisits : operation.Visits target visits) (hoffered : .offered message accepted ∈ visits) :
    operation = .pushFromInterrupt target message := by
  rcases hvisits with rfl | ⟨hplace, hvisits⟩
  · cases hoffered
  · cases operation with
    | pushFromInterrupt place other =>
        cases hplace
        obtain ⟨_, rfl⟩ := hvisits
        cases List.mem_singleton.mp hoffered
        rfl
    | push place other =>
        obtain rfl : visits = _ := hvisits
        simp at hoffered
    | capacity place =>
        obtain ⟨slots, rfl⟩ := hvisits
        simp at hoffered
    | drain place | drainLocked place =>
        obtain ⟨messages, _, rfl⟩ := hvisits
        simp at hoffered
    | _ => cases hplace

theorem opens_of_looks {looks : List Happening} (hlooks : Looks target looks) (previous : Bool) :
    Opens target ((.started operation :: (looks ++ [.answered .mask (.ok previous)])) ++
      [.acted (.acquire (.queue target)) ()]) := by
  refine ⟨operation, _, rfl, ?_⟩
  cases hlooks <;> simp [Happening.isStep]

theorem visits_of_section {looks steps : List Happening} {previous : Bool}
    (hlooks : Looks target looks) :
    visits target (looks ++ .answered .mask (.ok previous) ::
      .acted (.acquire (.queue target)) () :: (steps ++ [.acted (.release (.queue target)) ()])) =
        visits target steps := by
  have hnone : looks.filterMap (Visit.of? target) = [] := visits_of_looks hlooks
  simp only [visits, List.filterMap_append, hnone, List.nil_append]
  rw [List.filterMap_cons_none rfl, List.filterMap_cons_none rfl, List.filterMap_append,
    List.filterMap_cons_none rfl, List.filterMap_nil, List.append_nil]

/-- A failure takes back nothing and adds nothing. -/
theorem visits_of_asks {last : List Happening}
    (hlast : last <+: [.finished operation (.error failure)]) :
    visits target (made ++ .answered callback (.error failure) :: last) = visits target made := by
  have hnone : last.filterMap (Visit.of? target) = [] := by
    rw [List.filterMap_eq_nil_iff]
    intro happening hmem
    rw [List.mem_singleton.mp (hlast.mem hmem)]
    rfl
  rw [visits, List.filterMap_append, List.filterMap_cons_none rfl, hnone, List.append_nil, ← visits]

end

end Mailbox

open Mailbox

namespace Runs

variable {world : World} {history : History} {flows : Nat → Flow} {target : Ref .mailbox}
  {number : Nat} {operation : Operation} {story : List Happening} {callback : Callback}
  {failure : Failure}

/-- A callback that fails stops the operation at once. -/
theorem asks (hrun : Runs {} history world flows) (hdefers : operation.Defers target)
    (hown : (Journal.ofHistory history).own number = .started operation :: story)
    (hmem : .answered callback (.error failure) ∈ story) :
    ∃ made last, story = made ++ .answered callback (.error failure) :: last ∧
      Asks target operation made callback ∧ last <+: [.finished operation (.error failure)] := by
  obtain ⟨whole, result, hcourse, hstory⟩ := course_of_runs hrun hdefers hown
  have hwhole : .answered callback (.error failure) ∈ whole := by simpa using hstory.mem hmem
  obtain ⟨made, rfl, hcalm, hends⟩ := asks_of_course hcourse hwhole
  obtain ⟨early, last, rfl⟩ := List.append_of_mem hmem
  rw [List.append_assoc, List.singleton_append] at hstory
  obtain ⟨rfl, _, hlast⟩ := split_of_once (P := fun step => step.fails) hcalm
    (by simp [Happening.fails]) rfl hstory
  rcases hends with hshort | ⟨houtcome, hasks⟩
  · exact absurd (hrun.mem_history hown (List.mem_append_left _ hshort))
      (hrun.replenish_given target)
  · obtain rfl := eq_of_outcome houtcome
    exact ⟨early, last, rfl, hasks, hlast⟩

theorem asked (hrun : Runs {} history world flows) (hdefers : operation.Defers target)
    (hown : (Journal.ofHistory history).own number = .started operation :: story)
    (hfinished : .finished operation (.error failure) ∈ story) :
    ∃ callback, .answered callback (.error failure) ∈ story := by
  obtain ⟨steps, rfl, hreaches⟩ := hrun.reaches_of_finished hown hfinished
  have hcourse := course_of_tells hdefers (Straight.tells (straight_of_defers hdefers) hreaches)
  obtain ⟨callback, hmem⟩ := asked_of_course hcourse fun hshort =>
    hrun.replenish_given target (hrun.mem_history hown (List.mem_append_left _ hshort))
  exact ⟨callback, List.mem_append_left _ hmem⟩

/-- An operation in progress that a callback has made fail is about to return the failure. -/
theorem unwinds {index : Nat} (hrun : Runs {} history world flows)
    (hdefers : operation.Defers target)
    (hrunning : number ∈ (Journal.ofHistory history).running index)
    (hown : (Journal.ofHistory history).own number = .started operation :: story)
    (hmem : .answered callback (.error failure) ∈ story) :
    ⟨operation, .done (.error failure)⟩ ∈ flows index := by
  obtain ⟨made, last, rfl, hasks, hlast⟩ := hrun.asks hdefers hown hmem
  obtain ⟨_, _, steps, hown', hsteps, _⟩ :=
    exists_of_mem_forall₂ (hrun.coursing.running index) hrunning
  obtain ⟨_, rfl⟩ := List.cons.inj (hown.symm.trans hown')
  rcases List.prefix_cons_iff.mp hlast with rfl | ⟨rest, rfl, _⟩
  · obtain ⟨result, hflow, hreaches⟩ :=
      hrun.done_of_running hrunning hown fun happening rest => spent_of_failure hdefers
    rwa [error_of_asks hdefers hasks hreaches] at hflow
  · cases hsteps (.finished operation (.error failure)) (by simp)

/-- Whoever could not mask interrupts has not got to the mailbox. -/
theorem unmasked (hrun : Runs {} history world flows) (hdefers : operation.Defers target)
    (hown : (Journal.ofHistory history).own number = .started operation :: story)
    (hmem : .answered .mask (.error failure) ∈ story) :
    visits target story = [] ∧ number ∉ (Journal.ofHistory history).reachers target := by
  obtain ⟨made, last, rfl, hasks, hlast⟩ := hrun.asks hdefers hown hmem
  cases hasks with
  | masking hlooks =>
      have hnone : ∀ happening ∈ Happening.started operation ::
          (made ++ .answered .mask (.error failure) :: last), happening.reaches target = false := by
        simp only [List.forall_mem_cons, List.forall_mem_append]
        refine ⟨rfl, ?_, rfl, fun happening hmem => ?_⟩
        · cases hlooks <;> simp_all [Happening.reaches, Access.reaches]
        · rw [List.mem_singleton.mp (hlast.mem hmem)]
          rfl
      refine ⟨(visits_of_asks hlast).trans (visits_of_looks hlooks), fun hreached => ?_⟩
      obtain ⟨happening, hdone, hreaches⟩ := Journal.mem_reachers.mp hreached
      rw [hnone happening (hown ▸ hdone)] at hreaches
      cases hreaches

end Runs

namespace Mailbox

/-- What the mailbox is when all this has happened in a machine with so many flows. -/
def Stands (target : Ref .mailbox) (count : Nat) (history : History) (mailbox : Mailbox) : Prop :=
  ∃ moves machine, (Machine.idle {} count).run? moves = some (machine, history) ∧
    machine.world.mailboxAt? target = some mailbox

/-- The way of an operation through its section.  It has found the mailbox when all that comes
`before` had happened, and has left it when what comes in the `middle` had happened too. -/
structure Passage (target : Ref .mailbox) (number : Nat) (operation : Operation) (count : Nat)
    (before middle after : History) (found left mailbox : Mailbox) : Prop where
  /-- It had just taken the lock, -/
  opened : ∃ early, (Journal.ofHistory before).own number =
    early ++ [.acted (.acquire (.queue target)) ()]
  /-- and this is what it found. -/
  finds : Stands target count before found
  /-- Then it gave the lock back, -/
  closed : ∃ place later, after = (place, .acted (.release (.queue target)) ()) :: later ∧
    (Journal.ofHistory (before ++ middle)).Gains
      (.ofHistory ((before ++ middle) ++ [(place, .acted (.release (.queue target)) ())])) number
      (.acted (.release (.queue target)) ())
  /-- and this is what it left, -/
  leaves : Stands target count (before ++ middle) left
  /-- which is what it had found, served with its request and with nothing else. -/
  served : left = found.serving (Request.of? target operation)
  /-- What has been taken out since then, with what is there now, is what it left, with what has
  come in since then. -/
  later : taken (visits target (after.map Prod.snd)) ++ mailbox.queue.toList =
    left.queue.toList ++ accepted (visits target (after.map Prod.snd))

section
variable {target : Ref .mailbox} {count number : Nat} {moves : List (Nat × Move)}
  {machine : Machine} {history before after : History} {mailbox found : Mailbox}
  {operation : Operation} {story : List Happening} {failure : Failure}

theorem Moment.stands (hmoment : Moment target number story before found)
    (hrun : (Machine.idle {} count).run? moves = some (machine, before ++ after)) :
    Stands target count before found := by
  obtain ⟨middle, first, _, hfirst, _⟩ := Machine.run?_split hrun
  obtain ⟨past, flows, hpast, hfound⟩ := hmoment.found
  obtain rfl := (Machine.runs_of_run? hfirst).world_unique hpast
  exact ⟨first, middle, hfirst, hfound⟩

/-- What came out of a mailbox and what is there, from some moment on. -/
theorem inOrder_since (hrun : (Machine.idle {} count).run? moves = some (machine, before ++ after))
    (hmailbox : machine.world.mailboxAt? target = some mailbox)
    (hstands : Stands target count before found) :
    taken (visits target (after.map Prod.snd)) ++ mailbox.queue.toList =
      found.queue.toList ++ accepted (visits target (after.map Prod.snd)) := by
  have hinOrder : ∀ {moves : List (Nat × Move)} {machine : Machine} {history : History}
      {mailbox : Mailbox}, (Machine.idle {} count).run? moves = some (machine, history) →
        machine.world.mailboxAt? target = some mailbox →
          mailbox.InOrder (visits target (history.map Prod.snd)) := by
    intro moves machine history mailbox hrun hmailbox
    have hruns := Machine.runs_of_run? hrun
    obtain ⟨_, hupkeep⟩ := hruns.account (sections_obeyed target) (upkeep_upholds target)
    exact hupkeep.inOrder mailbox hmailbox
  obtain ⟨first, past, hfirst, hfound⟩ := hstands
  have hbefore := hinOrder hfirst hfound
  have hwhole := hinOrder hrun hmailbox
  rw [InOrder, List.map_append, visits, List.filterMap_append, ← visits, ← visits, taken_append,
    accepted_append, ← hbefore, List.append_assoc, List.append_assoc] at hwhole
  exact List.append_cancel_left hwhole

/-- Whoever could not restore interrupts has been through its section. -/
theorem passage_of_run? {previous : Bool}
    (hrun : (Machine.idle {} count).run? moves = some (machine, history))
    (hmailbox : machine.world.mailboxAt? target = some mailbox) (hdefers : operation.Defers target)
    (hown : (Journal.ofHistory history).own number = .started operation :: story)
    (hmem : .answered (.restore previous) (.error failure) ∈ story) :
    ∃ before middle after found left, history = (before ++ middle) ++ after ∧
      Passage target number operation count before middle after found left mailbox ∧
        visits target story = found.visited operation := by
  have hruns := Machine.runs_of_run? hrun
  obtain ⟨made, last, rfl, hasks, hlast⟩ := hruns.asks hdefers hown hmem
  rw [visits_of_asks hlast]
  cases hasks with
  | @restoring looks steps hlooks previous hinSection =>
      have hmade : (Journal.ofHistory history).own number =
          (((.started operation :: (looks ++ [.answered .mask (.ok previous)])) ++
            [.acted (.acquire (.queue target)) ()]) ++ steps) ++
              .acted (.release (.queue target)) () ::
                .answered (.restore previous) (.error failure) :: last := by
        simpa using hown
      obtain ⟨before, middle, place, after, found, left, rfl, hfound, hleft, hgains, hserved,
        hvisited⟩ := hruns.passage (opens_of_looks hlooks previous) hinSection hmade
      have hleaves := hleft.stands hrun
      have hfinds : Stands target count before found :=
        hfound.stands (by rwa [List.append_assoc] at hrun)
      refine ⟨before, middle, _, found, left, rfl, ⟨⟨_, hfound.own⟩, hfinds,
        ⟨place, after, rfl, hgains⟩, hleaves, hserved, inOrder_since hrun hmailbox hleaves⟩, ?_⟩
      rw [visits_of_section hlooks, hvisited]

end

section
variable {target : Ref .mailbox} {machine : Machine} {mailbox : Mailbox} {index : Nat} {flow : Flow}

/-- Every flow that nothing goes on in can make a request that is served at once. -/
theorem run?_request (hmailbox : machine.world.mailboxAt? target = some mailbox)
    (hfree : .queue target ∉ machine.world.held) (horderly : mailbox.Orderly)
    (hflow : machine.flows[index]? = some flow) (hasking : flow.all (·.isAsking))
    (request : Request) : ∃ moves steps, machine.run? moves =
      some (⟨machine.world.withMailbox target (request.serve mailbox), machine.flows⟩,
        (Happening.started (request.operation target) :: (steps ++
          [.finished (request.operation target) (.ok (request.reply target mailbox))])).map
            fun happening => (index, happening)) := by
  have hinside : target.index < machine.world.mailboxes.size :=
    (Array.getElem?_eq_some_iff.mp hmailbox).1
  have halone := alone?_request hinside hfree horderly request
  rw [World.withMailbox_self hmailbox] at halone
  obtain ⟨moves, steps, hmoves, _⟩ := Flow.run?_operation flow hasking halone
  exact ⟨_, steps, Machine.run?_flow_back hflow hmoves⟩

/-- It can also ask for the capacity, which changes nothing. -/
theorem run?_capacity (hmailbox : machine.world.mailboxAt? target = some mailbox)
    (hfree : .queue target ∉ machine.world.held)
    (hflow : machine.flows[index]? = some flow) (hasking : flow.all (·.isAsking)) :
    ∃ moves steps, machine.run? moves = some (machine,
      (Happening.started (.capacity target) :: (steps ++
        [.finished (.capacity target) (.ok mailbox.slots)])).map
          fun happening => (index, happening)) := by
  have hinside : target.index < machine.world.mailboxes.size :=
    (Array.getElem?_eq_some_iff.mp hmailbox).1
  have halone := alone?_capacity hinside hfree mailbox
  rw [World.withMailbox_self hmailbox] at halone
  have hprogram : (Operation.capacity target).program.alone? .bare machine.world =
      some (.ok mailbox.slots, machine.world) := halone
  obtain ⟨moves, steps, hmoves, _⟩ := Flow.run?_operation flow hasking hprogram
  exact ⟨_, steps, Machine.run?_flow_back hflow hmoves⟩

end

/-- A mailbox on which callbacks fail. -/
structure Withstands (target : Ref .mailbox) (mailbox : Mailbox) (count : Nat) (machine : Machine)
    (history : History) : Prop where
  /-- What ordinary code does to the mailbox fails only with a callback, -/
  fails : ∀ {number operation story failure}, operation.Defers target →
    (Journal.ofHistory history).own number = .started operation :: story →
      .finished operation (.error failure) ∈ story →
        ∃ callback, .answered callback (.error failure) ∈ story
  /-- and a callback that fails stops it before it takes the lock, or after it has given it back. -/
  stops : ∀ {number operation story callback failure}, operation.Defers target →
    (Journal.ofHistory history).own number = .started operation :: story →
      .answered callback (.error failure) ∈ story →
        ∃ made last, story = made ++ .answered callback (.error failure) :: last ∧
          Asks target operation made callback ∧ last <+: [.finished operation (.error failure)]
  /-- Then the operation has nothing more to do but to return the failure. -/
  unwinds : ∀ {index number operation story callback failure}, operation.Defers target →
    number ∈ (Journal.ofHistory history).running index →
      (Journal.ofHistory history).own number = .started operation :: story →
        .answered callback (.error failure) ∈ story →
          ∃ below, machine.flow index = ⟨operation, .done (.error failure)⟩ :: below
  /-- Neither then nor when it has returned does its flow hold any lock, -/
  unlocked : ∀ {index}, (machine.flow index).pauses →
    ∀ number ∈ (Journal.ofHistory history).running index,
      locksIn ((Journal.ofHistory history).own number) = []
  /-- and the lock is free if no other flow is inside of a section. -/
  free : (∀ index, (machine.flow index).pauses) → .queue target ∉ machine.world.held
  /-- Whoever could not mask interrupts has done nothing to the mailbox. -/
  unmasked : ∀ {number operation story failure}, operation.Defers target →
    (Journal.ofHistory history).own number = .started operation :: story →
      .answered .mask (.error failure) ∈ story →
        visits target story = [] ∧ number ∉ (Journal.ofHistory history).reachers target
  /-- Whoever could not restore them has done all that it was to do, to the mailbox that it had
  found when it had the lock: its message has come in behind all others, or all messages that were
  there have gone out and there are new slots, or nothing has changed. -/
  unrestored : ∀ {number operation story previous failure}, operation.Defers target →
    (Journal.ofHistory history).own number = .started operation :: story →
      .answered (.restore previous) (.error failure) ∈ story →
        ∃ before middle after found left, history = (before ++ middle) ++ after ∧
          Passage target number operation count before middle after found left mailbox ∧
            visits target story = found.visited operation
  /-- Whoever returns messages has taken them out itself, so those are lost that were taken out by
  one who has failed. -/
  returned : ∀ {number operation story reply}, operation.mailbox? = some target →
    (Journal.ofHistory history).own number = .started operation :: story →
      .finished operation (.ok reply) ∈ story → operation.Visited (visits target story) reply
  /-- Only handlers drop messages. -/
  drops : ∀ {number operation story message},
    (Journal.ofHistory history).own number = .started operation :: story →
      .offered message false ∈ visits target story →
        operation = .pushFromInterrupt target message
  /-- While the lock is free the counters are right, and all the rest is as if the requests that
  have reached the queue had been served alone, and no callback had ever failed. -/
  whole : .queue target ∉ machine.world.held → mailbox.queued = mailbox.queue.size ∧
    mailbox.dropped = .ofNat (refused (visits target (history.map Prod.snd))).length ∧
      alone? mailbox.reserve ((Journal.ofHistory history).arrived target) = some mailbox
  /-- And whoever makes the next request gets what it would get from that one. -/
  serves : ∀ {index flow}, .queue target ∉ machine.world.held →
    machine.flows[index]? = some flow → flow.all (·.isAsking) → ∀ request : Request,
      ∃ moves steps, machine.run? moves =
        some (⟨machine.world.withMailbox target (request.serve mailbox), machine.flows⟩,
          (Happening.started (request.operation target) :: (steps ++
            [.finished (request.operation target) (.ok (request.reply target mailbox))])).map
              fun happening => (index, happening))
  /-- So does whoever asks for the capacity. -/
  capacity : ∀ {index flow}, .queue target ∉ machine.world.held →
    machine.flows[index]? = some flow → flow.all (·.isAsking) →
      ∃ moves steps, machine.run? moves = some (machine,
        (Happening.started (.capacity target) :: (steps ++
          [.finished (.capacity target) (.ok mailbox.slots)])).map
            fun happening => (index, happening))

/-- Whatever callbacks fail, and whatever they run before they do, a mailbox withstands it. -/
theorem withstands_of_run? {target : Ref .mailbox} {mailbox : Mailbox} {count : Nat}
    {moves : List (Nat × Move)} {machine : Machine} {history : History}
    (hrun : (Machine.idle {} count).run? moves = some (machine, history))
    (hmailbox : machine.world.mailboxAt? target = some mailbox) :
    Withstands target mailbox count machine history := by
  have hruns := Machine.runs_of_run? hrun
  have hnested := Machine.nested_run? (Machine.nested_idle {} count) hrun
  obtain ⟨haccount, hupkeep⟩ := hruns.account (sections_obeyed target) (upkeep_upholds target)
  obtain ⟨hkeeping, hkept⟩ := hruns.account keeping_obeyed kept_upholds
  have hroom := hupkeep.allocatable mailbox hmailbox
  have horderly : .queue target ∉ machine.world.held → mailbox.Orderly := fun hfree =>
    ⟨(hupkeep.free mailbox hmailbox hfree).1, hroom⟩
  refine
    { fails := hruns.asked
      stops := hruns.asks
      unwinds := fun hdefers hrunning hown hmem =>
        hnested.top_of_done (hruns.unwinds hdefers hrunning hown hmem)
      unlocked := fun hpauses => Locks.pausing_free hkeeping (hnested _) hpauses
      free := ?_
      unmasked := hruns.unmasked
      unrestored := passage_of_run? hrun hmailbox
      returned := fun hplace hown hreturned =>
        (dealings_of_own haccount hown).returned hplace _ hreturned
      drops := ?_
      whole := ?_
      serves := fun hfree => run?_request hmailbox hfree (horderly hfree)
      capacity := run?_capacity hmailbox }
  · intro hpauses hheld
    obtain ⟨index, number, hrunning, hlock⟩ := (Locks.held_iff hkeeping hkept _).mp hheld
    rw [Locks.pausing_free hkeeping (hnested index) (hpauses index) number hrunning] at hlock
    cases hlock
  · intro number operation story message hown hdropped
    exact eq_of_offered (dealings_of_own haccount hown).visits hdropped
  · intro hfree
    obtain ⟨hpublished, hcounted, _⟩ := hupkeep.free mailbox hmailbox hfree
    refine ⟨hpublished, hcounted, ?_⟩
    rw [alone?_eq _ hroom, ← (hruns.matchesAlone target).free mailbox hmailbox hfree]

open Schedule

/-- A push is stopped before it has its turn, after another push and a handler; a second one when it
has given the lock back and a handler has run.  Then a drain is stopped with all messages in its
hands, and a third push has come in meanwhile.  The next drain returns the message of that one. -/
def failingMasksAndRestores : List (Nat × Move) :=
  inFlow 0 (along (.makeMailbox 1) 1 ++ [Move.start (.push ⟨0⟩ (.notification .timeoutEvent 1))] ++
    around (.push ⟨0⟩ (.notification .timeoutEvent 2)) 0 4 0 ++
    along (.pushFromInterrupt ⟨0⟩ (.notification .irqRaise 3)) 4 ++
    [Move.answer .mask (.error .aborted), .finish,
      .start (.push ⟨0⟩ (.notification .timeoutEvent 4)), .answer .mask (.ok true)] ++ steps 4 ++
    along (.pushFromInterrupt ⟨0⟩ (.notification .irqRaise 5)) 4 ++
    [Move.answer (.restore true) (.error .aborted), .finish, .start (.drain ⟨0⟩), .step,
      .answer .mask (.ok true)] ++ steps 6 ++
    around (.push ⟨0⟩ (.notification .timeoutEvent 6)) 0 4 0 ++
    [Move.answer (.restore true) (.error .aborted), .finish, .start (.capacity ⟨0⟩),
      .answer .mask (.error .aborted), .finish] ++
    around (.drain ⟨0⟩) 1 6 1)

theorem withstands_failingMasksAndRestores : ∃ machine history mailbox,
    (Machine.idle {} 1).run? failingMasksAndRestores = some (machine, history) ∧
      machine.world.mailboxAt? ⟨0⟩ = some mailbox ∧ mailbox.dropped = 1 ∧
        ((history.map Prod.snd).filter Happening.fails).length = 4 ∧
          taken (visits ⟨0⟩ (history.map Prod.snd)) = [.notification .timeoutEvent 2,
              .notification .timeoutEvent 4, .notification .irqRaise 5,
              .notification .timeoutEvent 6] ∧
            Withstands ⟨0⟩ mailbox 1 machine history := by
  have hsome : ((Machine.idle {} 1).run? failingMasksAndRestores).isSome := by rfl
  obtain ⟨⟨machine, history⟩, hrun⟩ := Option.isSome_iff_exists.mp hsome
  have hmailbox : (((Machine.idle {} 1).run? failingMasksAndRestores).bind fun outcome =>
      outcome.1.world.mailboxAt? ⟨0⟩).isSome := by rfl
  have hdropped : (((Machine.idle {} 1).run? failingMasksAndRestores).bind fun outcome =>
      outcome.1.world.mailboxAt? ⟨0⟩).map (·.dropped) = some 1 := by rfl
  have hfails : ((Machine.idle {} 1).run? failingMasksAndRestores).map (fun outcome =>
      ((outcome.2.map Prod.snd).filter Happening.fails).length) = some 4 := by rfl
  have htaken : ((Machine.idle {} 1).run? failingMasksAndRestores).map (fun outcome =>
      taken (visits ⟨0⟩ (outcome.2.map Prod.snd))) = some [.notification .timeoutEvent 2,
        .notification .timeoutEvent 4, .notification .irqRaise 5,
        .notification .timeoutEvent 6] := by rfl
  rw [hrun] at hmailbox hdropped hfails htaken
  obtain ⟨mailbox, hmailbox⟩ := Option.isSome_iff_exists.mp hmailbox
  rw [hmailbox] at hdropped
  exact ⟨machine, history, mailbox, hrun, hmailbox, Option.some.inj hdropped,
    Option.some.inj hfails, Option.some.inj htaken, withstands_of_run? hrun hmailbox⟩

end Mailbox

end CoreEngines
