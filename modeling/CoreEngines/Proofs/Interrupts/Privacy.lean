import CoreEngines.Proofs.Interrupts.LoneWorkers
import CoreEngines.Proofs.Moments

/-!
Privacy of hosted processors.  Workers share a world, as the flows of a machine do, but what a
worker sees of itself depends on what it does alone: it is the same whatever the others do, and in
whatever world.
-/

namespace CoreEngines

/-- The flow of a worker: the operation of its chore, if it is at one. -/
def Worker.flow (worker : Worker) : Flow :=
  worker.task.toList.map Prod.snd

/-- The machine whose flows are those of the workers. -/
def Workers.machine (state : Workers) : Machine :=
  ⟨state.world, state.workers.map (·.flow)⟩

section
variable {world later : World} {worker worker' : Worker}

theorem Worker.flow_idle (hidle : worker.task = none) : worker.flow = [] := by
  rw [flow, hidle]
  rfl

theorem Worker.flow_busy {chore : Chore} {activation : Activation}
    (htask : worker.task = some (chore, activation)) : worker.flow = [activation] := by
  rw [flow, htask]
  rfl

/-- A move of a worker is one of its flow, or the processor makes it at once. -/
theorem Worker.Moves.flow (hmoves : worker.Moves world later worker') :
    later = world ∧ worker'.flow = worker.flow ∨
      ∃ move happening, worker.flow.move? world move = some (later, worker'.flow, happening) := by
  cases hmoves with
  | bind core hidle => exact Or.inl ⟨rfl, (flow_idle hidle).symm⟩
  | save hidle => exact Or.inl ⟨rfl, (flow_idle hidle).symm⟩
  | restore previous hidle => exact Or.inl ⟨rfl, (flow_idle hidle).symm⟩
  | openScope hidle =>
      rw [flow_idle hidle]
      exact Or.inr ⟨.start _, _, rfl⟩
  | closeScope hidle =>
      rw [flow_idle hidle]
      exact Or.inr ⟨.start _, _, rfl⟩
  | run hidle =>
      rw [flow_idle hidle]
      exact Or.inr ⟨.start _, _, rfl⟩
  | answer htask hanswer =>
      rw [flow_busy htask]
      exact Or.inr ⟨.answer _ (.ok _), _, dif_pos rfl⟩
  | step htask hgoes hsilent hafter =>
      rw [flow_busy htask]
      cases hgoes with
      | act action next answer =>
          have hperform : world.perform? action = some (answer, later) := hafter
          refine Or.inr ⟨.step, .acted action answer, ?_⟩
          simp only [Flow.move?, Program.advance?, hperform, Option.map_some]
          rfl
      | emit => cases hafter; exact Or.inr ⟨.step, _, rfl⟩
      | call => cases hafter; exact Or.inr ⟨.step, _, rfl⟩
      | choose next choice => cases hafter; exact Or.inr ⟨.choose choice, _, rfl⟩
      | ask callback next result => exact absurd rfl (hsilent callback result)
  | finish htask =>
      rw [flow_busy htask]
      exact Or.inr ⟨.finish, _, rfl⟩

end

namespace Workers

variable {state state' : Workers} {index : Nat} {order : Order} {orders : List (Nat × Order)}

theorem machine_of_move? (hmove : state.move? index order = some state') :
    state'.machine = state.machine ∨
      ∃ move happening, state.machine.move? index move = some (state'.machine, happening) := by
  obtain ⟨worker, worker', hworker, hmoves, hworkers⟩ := moves_of_move? hmove
  have hflow : state.machine.flows[index]? = some worker.flow := by
    simp [machine, hworker]
  have hmachine : state'.machine =
      ⟨state'.world, state.machine.flows.setIfInBounds index worker'.flow⟩ := by
    simp [machine, hworkers]
  rw [hmachine]
  rcases hmoves.flow with ⟨hworld, hsame⟩ | ⟨move, happening, hflows⟩
  · rw [hworld, hsame, setIfInBounds_self hflow]
    exact Or.inl rfl
  · refine Or.inr ⟨move, happening, ?_⟩
    have hthere : worker.flow.move? state.machine.world move = some _ := hflows
    rw [Machine.move?, hflow, Option.bind_some, hthere, Option.map_some]

/-- Every run of workers is one of the machine, which does not see what a processor does at once. -/
theorem machine_of_run? (hrun : state.run? orders = some state') :
    ∃ moves history, state.machine.run? moves = some (state'.machine, history) := by
  induction orders generalizing state with
  | nil =>
      cases hrun
      exact ⟨[], [], rfl⟩
  | cons head orders ih =>
      obtain ⟨index, order⟩ := head
      obtain ⟨middle, hmove, hrest⟩ := Option.bind_eq_some_iff.mp hrun
      obtain ⟨moves, history, hmoves⟩ := ih hrest
      rcases machine_of_move? hmove with hsame | ⟨move, happening, hstep⟩
      · exact ⟨moves, history, hsame ▸ hmoves⟩
      · exact ⟨(index, move) :: moves, (index, happening) :: history, by
          simp [Machine.run?, hstep, hmoves]⟩

theorem machine_fresh (world : World) (count : Nat) :
    (fresh world count).machine = .idle world count := by
  simp [machine, fresh, Machine.idle, Worker.flow]

end Workers

theorem Worker.Faithful.observation {worker : Worker} {before after : List Observation}
    {observation : Observation} (hfaithful : worker.Faithful)
    (hlog : worker.log = before ++ observation :: after) :
    (observation.own, observation.word) =
      (WorkerState.after {} (before.map (·.chore))).does observation.chore := by
  have hseen := hfaithful.seen
  rw [Worker.chores, hlog, List.map_append, WorkerState.observations_append] at hseen
  have hlength : before.length = (WorkerState.observations {} (before.map (·.chore))).length := by
    simpa using (congrArg List.length (WorkerState.map_observations {} (before.map (·.chore)))).symm
  obtain ⟨hobservation, _⟩ := List.cons.inj (List.append_inj hseen hlength).2
  rw [hobservation]

/-- What a worker sees of itself is up to what it does itself. -/
structure Worker.SeesOwnWork (worker : Worker) : Prop where
  /-- It has seen what its chores show to a new worker that is alone with its processor, -/
  seen : worker.log = WorkerState.observations {} worker.chores
  /-- and is what they have made of it whenever it is not at one. -/
  settled : worker.task = none → worker.toWorkerState = WorkerState.after {} worker.chores
  /-- Whoever has done the same, in whatever run, has seen the same, -/
  same : ∀ {world : World} {count index : Nat} {orders : List (Nat × Order)} {state : Workers}
    {other : Worker}, (Workers.fresh world count).run? orders = some state →
      state.workers[index]? = some other → other.chores = worker.chores → other.log = worker.log
  /-- and there is a run in which a new worker does it that is the only one. -/
  alone : ∃ (world later : World) (orders : List (Nat × Order)) (other : Worker),
    (Workers.fresh world 1).run? orders = some ⟨later, #[other]⟩ ∧ other.task = none ∧
      other.chores = worker.chores ∧ other.log = worker.log
  /-- What it saves is the flag as it has left it itself. -/
  saves : ∀ {before after : List Observation} {observation : Observation},
    worker.log = before ++ observation :: after → observation.chore = .save →
      observation.word = .saved (WorkerState.after {} (before.map (·.chore))).hosted.enabled
  /-- An errand leaves it as it was, core, flag and scopes, whatever comes of it. -/
  errands : ∀ {before after : List Observation} {observation : Observation} {operation : Operation},
    worker.log = before ++ observation :: after → observation.chore = .run operation →
      observation.own = WorkerState.after {} (before.map (·.chore))
  /-- When it looks for its engine it is told of the one of the core that it plays, or that there
  is none. -/
  engines : ∀ {before after : List Observation} {observation : Observation} {table : Table},
    worker.log = before ++ observation :: after → observation.chore = .run (.currentEngine table) →
      observation.word = .engine (match table.get? observation.own.hosted.core with
        | some engine => .ok engine
        | none => .error ("error:sysinv - no engine for " ++ observation.own.hosted.core.display))

namespace Workers

/-- What so many workers that begin in a world have come to have to do with each other. -/
structure Private (world : World) (count : Nat) (state : Workers) : Prop where
  /-- They share the world as the flows of a machine do that does the same. -/
  shared : ∃ moves history,
    (Machine.idle world count).run? moves = some (state.machine, history)
  seesOwnWork : ∀ worker ∈ state.workers, worker.SeesOwnWork
  /-- Nothing that a worker does, be it a step of an errand, touches another one. -/
  apart : ∀ {index other : Nat} {order : Order} {next : Workers},
    state.move? index order = some next → other ≠ index →
      next.workers[other]? = state.workers[other]?

/-- The bound of all errands among some chores. -/
theorem exists_bound (chores : List Chore) :
    ∃ count, ∀ operation, .run operation ∈ chores → operation.bound ≤ count := by
  induction chores with
  | nil => exact ⟨0, by simp⟩
  | cons chore chores ih =>
      obtain ⟨count, hcount⟩ := ih
      cases chore with
      | run first =>
          refine ⟨max first.bound count, fun operation hmem => ?_⟩
          rcases List.mem_cons.mp hmem with hfirst | hmem
          · cases hfirst
            exact Nat.le_max_left _ _
          · exact Nat.le_trans (hcount operation hmem) (Nat.le_max_right _ _)
      | _ => exact ⟨count, fun operation hmem => hcount operation (by simpa using hmem)⟩

end Workers

theorem Table.display_tells (table : Table) (core : CoreId) :
    (table.tells core).mapError Failure.display = match table.get? core with
      | some engine => .ok engine
      | none => .error ("error:sysinv - no engine for " ++ core.display) := by
  unfold tells
  cases table.get? core with
  | some engine => rfl
  | none => exact congrArg Except.error String.append_assoc.symm

theorem WorkerState.does_run_fst (own : WorkerState) (operation : Operation) :
    (own.does (.run operation)).1 = own := by
  cases operation <;> rfl

theorem Worker.Faithful.seesOwnWork {worker : Worker} (hfaithful : worker.Faithful) :
    worker.SeesOwnWork := by
  refine ⟨hfaithful.seen, hfaithful.idle, ?_, ?_, ?_, ?_, ?_⟩
  · intro world count index orders state other hrun hother hchores
    rw [(Workers.faithful_of_run? hrun hother).seen, hchores, ← hfaithful.seen]
  · obtain ⟨count, hcount⟩ := Workers.exists_bound worker.chores
    obtain ⟨orders, _, hrun, later, other, rfl, _, _, hidle, hchores⟩ :=
      Workers.exists_lone hfaithful.fits hcount
    have hother : (⟨later, #[other]⟩ : Workers).workers[0]? = some other := rfl
    have hseen := (Workers.faithful_of_run? hrun hother).seen
    rw [hchores, ← hfaithful.seen] at hseen
    exact ⟨_, later, orders, other, hrun, hidle, hchores, hseen⟩
  · intro before after observation hlog hchore
    have hobservation := hfaithful.observation hlog
    rw [hchore] at hobservation
    exact congrArg Prod.snd hobservation
  · intro before after observation operation hlog hchore
    have hobservation := congrArg Prod.fst (hfaithful.observation hlog)
    rw [hchore, WorkerState.does_run_fst] at hobservation
    exact hobservation
  · intro before after observation table hlog hchore
    have hobservation := hfaithful.observation hlog
    rw [hchore] at hobservation
    obtain ⟨hstation, hword⟩ := Prod.mk.inj hobservation
    rw [hword, hstation, Table.display_tells]

/-- What a worker sees is its own affair, in every run of any number of them. -/
theorem Workers.private_of_run? {world : World} {count : Nat} {orders : List (Nat × Order)}
    {state : Workers} (hrun : (fresh world count).run? orders = some state) :
    state.Private world count where
  shared := by
    rw [← machine_fresh]
    exact machine_of_run? hrun
  seesOwnWork worker hmem := by
    obtain ⟨index, hworker⟩ := Array.getElem?_of_mem hmem
    exact (faithful_of_run? hrun hworker).seesOwnWork
  apart hmove hother := move?_other hmove hother

/-- One worker plays core three, pushes a message, and looks for its engine in a table of two.
Another one masks and unmasks interrupts meanwhile. -/
def Workers.pushAndMask : List (Nat × Order) :=
  [(0, Order.take (.bind ⟨3⟩)), (1, .take .openScope), (1, .step), (1, .finish),
   (0, .take (.run (.push ⟨0⟩ (.notification .timeoutEvent 1)))), (0, .step), (0, .step),
   (1, .take .save), (0, .step), (0, .step), (0, .step), (1, .take (.closeScope 0)), (1, .step),
   (0, .step), (0, .finish), (1, .finish), (0, .take (.run (.currentEngine ⟨#[⟨0⟩, ⟨1⟩]⟩))),
   (0, .step), (0, .finish)]

theorem Workers.private_pushAndMask : ∃ state,
    (fresh (.roomy 1) 2).run? pushAndMask = some state ∧
      state.workers.toList.map (fun worker => (worker.log.map (·.word), worker.hosted)) =
        [([.nothing, .nothing, .engine (.error "error:sysinv - no engine for core3")],
          ⟨⟨3⟩, true⟩), ([.nothing, .saved false, .nothing], ⟨⟨0⟩, true⟩)] ∧
      state.Private (.roomy 1) 2 := by
  have hsome : ((fresh (.roomy 1) 2).run? pushAndMask).isSome := by rfl
  have hwords : ((fresh (.roomy 1) 2).run? pushAndMask).map (fun state =>
      state.workers.toList.map fun worker => (worker.log.map (·.word), worker.hosted)) =
        some [([.nothing, .nothing, .engine (.error "error:sysinv - no engine for core3")],
          ⟨⟨3⟩, true⟩), ([.nothing, .saved false, .nothing], ⟨⟨0⟩, true⟩)] := by rfl
  obtain ⟨state, hrun⟩ := Option.isSome_iff_exists.mp hsome
  rw [hrun] at hwords
  exact ⟨state, hrun, Option.some.inj hwords, private_of_run? hrun⟩

end CoreEngines
