import CoreEngines.HostedCore
import CoreEngines.Proofs.Inquiries

/-!
Workers of a hosted build.  A worker plays one core: what its operations ask of the processor is
answered from the core and the flag that are its own.  The workers share one world and go on one
step at a time, in any order.
-/

namespace CoreEngines

/-- What a hosted processor answers, and what becomes of it; it has no manager and no host to ask,
and nobody comes back from a halt. -/
def HostedCore.answer? (hosted : HostedCore) :
    (callback : Callback) → Option (callback.Answer × HostedCore)
  | .currentCore => some (hosted.core, hosted)
  | .mask => some hosted.mask
  | .restore previous => some ((), hosted.restore previous)
  | .pause => some ((), hosted)
  | _ => none

/-- The operations that a worker is sent to do: the deferred ones on mailboxes, the creation of
threads, and the search for the engine of its core. -/
def Operation.isErrand : Operation → Bool
  | push _ _ | drain _ | drainLocked _ | capacity _ | create _ | currentEngine _ => true
  | _ => false

/-- What a worker does of its own accord. -/
inductive Chore
  /-- Play another core. -/
  | bind (core : CoreId)
  /-- Mask interrupts, and note whether they were enabled. -/
  | save
  | restore (previous : Bool)
  /-- Open a scope, and hold it. -/
  | openScope
  /-- Close one of the scopes that it holds; the youngest is the first. -/
  | closeScope (place : Nat)
  | run (operation : Operation)

/-- What a worker is told when it has done something. -/
inductive Word
  | nothing
  | saved (previous : Bool)
  /-- The engine of its core, or what is raised. -/
  | engine (found : Except String (Ref .engine))

/-- What a worker has of its own: its processor, and the scopes that it holds. -/
structure WorkerState where
  hosted : HostedCore := {}
  scopes : List MaskScope := []
deriving DecidableEq

/-- What a worker sees when it has done something: what it is told, and how it finds itself. -/
structure Observation where
  chore : Chore
  word : Word
  own : WorkerState

namespace WorkerState

/-- What an operation leaves with a worker: a scope to hold, or word of an engine. -/
def receive (own : WorkerState) :
    (operation : Operation) → Except Failure operation.Reply → WorkerState × Word
  | .openScope, .ok scope => ({ own with scopes := scope :: own.scopes }, .nothing)
  | .currentEngine _, result => (own, .engine (result.mapError Failure.display))
  | _, _ => (own, .nothing)

end WorkerState

/-- A worker, with the chore that it is at and what is left of it, and all that it has seen.  A new
one plays core zero with interrupts enabled. -/
structure Worker extends WorkerState where
  task : Option (Chore × Activation) := none
  log : List Observation := []

/-- What one worker can be told to do. -/
inductive Order
  | take (chore : Chore)
  | step
  /-- Settle a choice of the hardware. -/
  | choose (choice : Bool)
  | finish

namespace Worker

def chores (worker : Worker) : List Chore :=
  worker.log.map (·.chore)

def conclude (worker : Worker) (chore : Chore) (own : WorkerState) (word : Word) : Worker :=
  ⟨own, none, worker.log ++ [⟨chore, word, own⟩]⟩

/-- Take up a chore.  The processor does some of them at once, and a scope that is to be closed is
not held any more. -/
def take? (worker : Worker) : Chore → Option Worker
  | .bind core =>
      some (worker.conclude (.bind core)
        { worker.toWorkerState with hosted := worker.hosted.bind core } .nothing)
  | .save =>
      let (previous, hosted) := worker.hosted.mask
      some (worker.conclude .save { worker.toWorkerState with hosted } (.saved previous))
  | .restore previous =>
      some (worker.conclude (.restore previous)
        { worker.toWorkerState with hosted := worker.hosted.restore previous } .nothing)
  | .openScope => some { worker with task := some (.openScope, .start .openScope) }
  | .closeScope place =>
      worker.scopes[place]?.map fun scope =>
        { worker with
          scopes := worker.scopes.eraseIdx place
          task := some (.closeScope place, .start (.closeScope scope)) }
  | .run operation =>
      if operation.isErrand then
        some { worker with task := some (.run operation, .start operation) }
      else none

def move? (world : World) (worker : Worker) : Order → Option (World × Worker)
  | .take chore =>
      match worker.task with
      | none => (worker.take? chore).map fun worker => (world, worker)
      | some _ => none
  | .step =>
      match worker.task with
      | none => none
      | some (chore, ⟨operation, .ask callback next⟩) =>
          (worker.hosted.answer? callback).map fun (answer, hosted) =>
            (world,
              { worker with hosted, task := some (chore, ⟨operation, next (.ok answer)⟩) })
      | some (chore, ⟨operation, rest⟩) =>
          (rest.advance? world).map fun (world, rest, _) =>
            (world, { worker with task := some (chore, ⟨operation, rest⟩) })
  | .choose choice =>
      match worker.task with
      | some (chore, ⟨operation, .choose next⟩) =>
          some (world, { worker with task := some (chore, ⟨operation, next choice⟩) })
      | _ => none
  | .finish =>
      match worker.task with
      | some (chore, ⟨operation, .done result⟩) =>
          let (own, word) := worker.receive operation result
          some (world, worker.conclude chore own word)
      | _ => none

end Worker

structure Workers where
  world : World
  workers : Array Worker

namespace Workers

def fresh (world : World) (count : Nat) : Workers :=
  ⟨world, Array.replicate count {}⟩

def move? (state : Workers) (index : Nat) (order : Order) : Option Workers :=
  state.workers[index]?.bind fun worker =>
    (worker.move? state.world order).map fun (world, worker) =>
      ⟨world, state.workers.setIfInBounds index worker⟩

def run? (state : Workers) : List (Nat × Order) → Option Workers
  | [] => some state
  | (index, order) :: orders => (state.move? index order).bind fun state => state.run? orders

end Workers

/-- All that a move of a worker can do. -/
inductive Worker.Moves (world : World) : Worker → World → Worker → Prop
  | bind {worker : Worker} (core : CoreId) (hidle : worker.task = none) :
      Moves world worker world (worker.conclude (.bind core)
        { worker.toWorkerState with hosted := worker.hosted.bind core } .nothing)
  | save {worker : Worker} (hidle : worker.task = none) :
      Moves world worker world (worker.conclude .save
        { worker.toWorkerState with hosted := worker.hosted.mask.2 } (.saved worker.hosted.mask.1))
  | restore {worker : Worker} (previous : Bool) (hidle : worker.task = none) :
      Moves world worker world (worker.conclude (.restore previous)
        { worker.toWorkerState with hosted := worker.hosted.restore previous } .nothing)
  | openScope {worker : Worker} (hidle : worker.task = none) :
      Moves world worker world { worker with task := some (.openScope, .start .openScope) }
  | closeScope {worker : Worker} {place : Nat} {scope : MaskScope} (hidle : worker.task = none)
      (hscope : worker.scopes[place]? = some scope) :
      Moves world worker world { worker with
        scopes := worker.scopes.eraseIdx place
        task := some (.closeScope place, .start (.closeScope scope)) }
  | run {worker : Worker} {operation : Operation} (hidle : worker.task = none)
      (herrand : operation.isErrand) :
      Moves world worker world { worker with task := some (.run operation, .start operation) }
  | answer {worker : Worker} {chore : Chore} {operation : Operation} {callback : Callback}
      {next : Except Failure callback.Answer → Program operation.Reply} {answer : callback.Answer}
      {hosted : HostedCore} (htask : worker.task = some (chore, ⟨operation, .ask callback next⟩))
      (hanswer : worker.hosted.answer? callback = some (answer, hosted)) :
      Moves world worker world
        { worker with hosted, task := some (chore, ⟨operation, next (.ok answer)⟩) }
  | step {worker : Worker} {chore : Chore} {operation : Operation}
      {rest next : Program operation.Reply} {happening : Happening} {later : World}
      (htask : worker.task = some (chore, ⟨operation, rest⟩)) (hgoes : rest.Goes happening next)
      (hsilent : ∀ callback result, happening ≠ .answered callback result)
      (hafter : world.After happening later) :
      Moves world worker later { worker with task := some (chore, ⟨operation, next⟩) }
  | finish {worker : Worker} {chore : Chore} {operation : Operation}
      {result : Except Failure operation.Reply}
      (htask : worker.task = some (chore, ⟨operation, .done result⟩)) :
      Moves world worker world (worker.conclude chore (worker.receive operation result).1
        (worker.receive operation result).2)

namespace Worker

variable {world later : World} {worker worker' : Worker} {order : Order}

theorem moves_of_take? {chore : Chore} (hidle : worker.task = none)
    (htake : worker.take? chore = some worker') : worker.Moves world world worker' := by
  cases chore with
  | bind core => cases htake; exact .bind core hidle
  | save => cases htake; exact .save hidle
  | restore previous => cases htake; exact .restore previous hidle
  | openScope => cases htake; exact .openScope hidle
  | closeScope place =>
      obtain ⟨scope, hscope, rfl⟩ := Option.map_eq_some_iff.mp htake
      exact .closeScope hidle hscope
  | run operation =>
      obtain ⟨herrand, heq⟩ := Option.ite_none_right_eq_some.mp htake
      cases heq
      exact .run hidle herrand

theorem silent_of_advance? {α : Type} {rest rest' : Program α} {happening : Happening}
    (hadvance : rest.advance? world = some (later, rest', happening))
    (callback : Callback) (result : Except Failure callback.Answer) :
    happening ≠ .answered callback result := by
  rintro rfl
  obtain ⟨hgoes, _⟩ := Program.goes_of_advance? hadvance
  cases hgoes
  cases hadvance

theorem moves_of_move? (hmove : worker.move? world order = some (later, worker')) :
    worker.Moves world later worker' := by
  cases order with
  | take chore =>
      cases htask : worker.task with
      | none =>
          simp only [move?, htask] at hmove
          obtain ⟨_, htake, heq⟩ := Option.map_eq_some_iff.mp hmove
          cases heq
          exact moves_of_take? htask htake
      | some task => simp [move?, htask] at hmove
  | step =>
      simp only [move?] at hmove
      split at hmove
      · cases hmove
      · case h_2 chore operation callback next htask =>
          obtain ⟨⟨answer, hosted⟩, hanswer, heq⟩ := Option.map_eq_some_iff.mp hmove
          cases heq
          exact .answer htask hanswer
      · case h_3 chore operation rest _ htask =>
          obtain ⟨⟨later, rest', happening⟩, hadvance, heq⟩ := Option.map_eq_some_iff.mp hmove
          cases heq
          obtain ⟨hgoes, hafter⟩ := Program.goes_of_advance? hadvance
          exact .step htask hgoes (silent_of_advance? hadvance) hafter
  | choose choice =>
      simp only [move?] at hmove
      split at hmove
      · case h_1 chore operation next htask =>
          cases hmove
          exact .step htask (.choose next choice) (by simp) rfl
      · cases hmove
  | finish =>
      simp only [move?] at hmove
      split at hmove
      · case h_1 chore operation result htask =>
          cases hmove
          exact .finish htask
      · cases hmove

end Worker

theorem Workers.moves_of_move? {state state' : Workers} {index : Nat} {order : Order}
    (hmove : state.move? index order = some state') :
    ∃ worker worker', state.workers[index]? = some worker ∧
      worker.Moves state.world state'.world worker' ∧
        state'.workers = state.workers.setIfInBounds index worker' := by
  simp only [move?, Option.bind_eq_some_iff, Option.map_eq_some_iff] at hmove
  obtain ⟨worker, hworker, ⟨later, worker'⟩, hmove, rfl⟩ := hmove
  exact ⟨worker, worker', hworker, Worker.moves_of_move? hmove, rfl⟩

/-- The discipline of hosted processors: each call is answered by the processor of the worker. -/
def hosting : Discipline HostedCore where
  start _ := {}
  observe hosted
    | .answered callback _ => ((hosted.answer? callback).map Prod.snd).getD hosted
    | _ => hosted
  Allows _ _ := True
  Presumes hosted
    | .answered callback result =>
        ∃ answer hosted', hosted.answer? callback = some (answer, hosted') ∧ result = .ok answer
    | _ => True
  Enters procedure _ := procedure.matters = []
  Leaves _ hosted later _ := later = hosted
  Returns _ _ _ := True

theorem hosting_answered {hosted later : HostedCore} {callback : Callback}
    {answer : callback.Answer} (hanswer : hosted.answer? callback = some (answer, later))
    (result : Except Failure callback.Answer) :
    hosting.observe hosted (.answered callback result) = later := by
  simp [hosting, hanswer]

theorem hosting_silent (hosted : HostedCore) {happening : Happening}
    (hsilent : ∀ callback result, happening ≠ .answered callback result) :
    hosting.Presumes hosted happening ∧ hosting.observe hosted happening = hosted := by
  cases happening with
  | answered callback result => exact absurd rfl (hsilent callback result)
  | _ => exact ⟨trivial, rfl⟩

open Program

section
variable {α : Type} {hosted : HostedCore}

/-- What asks nothing leaves the processor alone, -/
theorem Program.Concerns.hosting {program : Program α} (hprogram : program.Concerns []) :
    program.Ensures hosting hosted fun later _ => later = hosted := by
  refine Within.ensures hprogram rfl ?_ ?_
  · rintro state happening rfl hconcerns
    refine ⟨trivial, ?_⟩
    cases happening with
    | answered callback result => cases hconcerns
    | _ => rfl
  · rintro procedure state rfl hconcerns
    exact ⟨List.subset_nil.mp hconcerns, fun later _ hlater => hlater⟩

theorem hosting_rounds : hosting.Rounds := by
  intro procedure hosted henters
  refine Program.Concerns.hosting ?_
  rw [← henters]
  exact procedure.code_concerns

/-- and a masked section leaves it as it was. -/
theorem masked_hosting {body : Program α} (hbody : body.Concerns []) :
    (masked body).Ensures hosting hosted fun later _ => later = hosted := by
  rw [ensures_masked]
  rintro _ ⟨previous, later, hanswer, rfl⟩
  cases hanswer
  refine ⟨trivial, hbody.hosting.mono ?_⟩
  rintro inside result rfl _ ⟨answer, later, hanswer, rfl⟩
  cases hanswer
  exact ⟨trivial, rfl⟩

end

namespace Mailbox

variable (place : Ref .mailbox) {hosted : HostedCore}

theorem push_hosting (message : Message) :
    (push place message).Ensures hosting hosted fun later _ => later = hosted := by
  refine masked_hosting (Within.locked (Within.bind (Within.perform (by simp)) fun length => ?_)
    (by simp) (by simp))
  exact Within.perform (by simp)

theorem capacity_hosting :
    (capacity place).Ensures hosting hosted fun later _ => later = hosted :=
  masked_hosting (Within.locked (Within.perform (by simp)) (by simp) (by simp))

theorem drainLocked_hosting :
    (drainLocked place).Ensures hosting hosted fun later _ => later = hosted := by
  have hsection : (locked (.queue place) (detachAll place)).Concerns [] :=
    Within.locked (detachAll_concerns place) (by simp) (by simp)
  refine (masked_hosting hsection).bind ?_ fun _ _ hsame => hsame
  rintro later messages rfl
  have hreport : (if messages.isEmpty then pure messages else do
      report (.mailboxDrained messages.size)
      return messages).Concerns [] := by
    split
    · exact Within.pure _
    · exact Within.bind (Within.report (by simp)) fun _ => Within.pure _
  exact hreport.hosting

theorem drain_hosting : (drain place).Ensures hosting hosted fun later _ => later = hosted := by
  refine (Program.Concerns.hosting (Within.perform (by simp))).bind ?_ fun _ _ hsame => hsame
  rintro later queued rfl
  split
  · exact rfl
  · exact drainLocked_hosting place

end Mailbox

/-- What a table tells of a core: its engine, or that there is none. -/
def Table.tells (table : Table) (core : CoreId) : Except Failure (Ref .engine) :=
  match table.get? core with
  | some engine => .ok engine
  | none => .error (.violation (.noEngine core))

theorem Table.current_hosting (table : Table) (hosted : HostedCore) :
    table.current.Ensures hosting hosted fun later result =>
      later = hosted ∧ result = table.tells hosted.core := by
  unfold current tells
  rw [ensures_bind, ensures_request]
  rintro _ ⟨core, later, hanswer, rfl⟩
  cases hanswer
  refine ⟨trivial, ?_⟩
  dsimp only
  cases table.get? hosted.core <;> exact ⟨rfl, rfl⟩

namespace WorkerState

/-- What a chore makes of a worker, and what the worker is told, if it is alone with its
processor. -/
def does (own : WorkerState) : Chore → WorkerState × Word
  | .bind core => ({ own with hosted := own.hosted.bind core }, .nothing)
  | .save => ({ own with hosted := own.hosted.mask.2 }, .saved own.hosted.enabled)
  | .restore previous =>
      ({ own with hosted := own.hosted.restore previous }, .nothing)
  | .openScope => (⟨own.hosted.mask.2, ⟨own.hosted.enabled⟩ :: own.scopes⟩, .nothing)
  | .closeScope place =>
      match own.scopes[place]? with
      | some scope =>
          (⟨own.hosted.restore scope.previous, own.scopes.eraseIdx place⟩, .nothing)
      | none => (own, .nothing)
  | .run (.currentEngine table) =>
      (own, .engine ((table.tells own.hosted.core).mapError Failure.display))
  | .run _ => (own, .nothing)

/-- Whether a worker can take up a chore: it sends itself on errands, and closes scopes that it
holds. -/
def Fits (own : WorkerState) : Chore → Prop
  | .closeScope place => place < own.scopes.length
  | .run operation => operation.isErrand
  | _ => True

/-- What some chores make of a worker, -/
def after (own : WorkerState) (chores : List Chore) : WorkerState :=
  chores.foldl (fun own chore => (own.does chore).1) own

/-- and what it sees of itself each time. -/
def observations : WorkerState → List Chore → List Observation
  | _, [] => []
  | own, chore :: chores =>
      ⟨chore, (own.does chore).2, (own.does chore).1⟩ ::
        (own.does chore).1.observations chores

def FitsAll : WorkerState → List Chore → Prop
  | _, [] => True
  | own, chore :: chores => own.Fits chore ∧ (own.does chore).1.FitsAll chores

theorem after_concat (own : WorkerState) (chores : List Chore) (chore : Chore) :
    own.after (chores ++ [chore]) = ((own.after chores).does chore).1 := by
  rw [after, List.foldl_append]
  rfl

theorem observations_append (own : WorkerState) (first second : List Chore) :
    own.observations (first ++ second) =
      own.observations first ++ (own.after first).observations second := by
  induction first generalizing own with
  | nil => rfl
  | cons chore first ih => exact congrArg (_ :: ·) (ih _)

theorem map_observations (own : WorkerState) (chores : List Chore) :
    (own.observations chores).map (·.chore) = chores := by
  induction chores generalizing own with
  | nil => rfl
  | cons chore chores ih => exact congrArg (chore :: ·) (ih _)

theorem fitsAll_concat (own : WorkerState) (chores : List Chore) (chore : Chore) :
    own.FitsAll (chores ++ [chore]) ↔
      own.FitsAll chores ∧ (own.after chores).Fits chore := by
  induction chores generalizing own with
  | nil => exact and_comm
  | cons first chores ih =>
      simp only [List.cons_append, FitsAll, ih, and_assoc]
      rfl

/-- An errand leaves a worker with what it had, and with what it is told. -/
theorem errand_hosting (own : WorkerState) {operation : Operation} (herrand : operation.isErrand) :
    operation.program.Ensures hosting own.hosted fun hosted result =>
      WorkerState.receive { own with hosted } operation result = own.does (.run operation) := by
  cases operation with
  | push mailbox message =>
      refine (Mailbox.push_hosting mailbox message).mono ?_
      rintro _ result rfl
      rfl
  | drain mailbox =>
      refine (Mailbox.drain_hosting mailbox).mono ?_
      rintro _ result rfl
      rfl
  | drainLocked mailbox =>
      refine (Mailbox.drainLocked_hosting mailbox).mono ?_
      rintro _ result rfl
      rfl
  | capacity mailbox =>
      refine (Mailbox.capacity_hosting mailbox).mono ?_
      rintro _ result rfl
      rfl
  | create registry =>
      refine (Registry.create_concerns registry).hosting.mono ?_
      rintro _ result rfl
      rfl
  | currentEngine table =>
      refine (table.current_hosting own.hosted).mono ?_
      rintro _ result ⟨rfl, rfl⟩
      rfl
  | _ => cases herrand

theorem openScope_hosting (own : WorkerState) :
    Operation.openScope.program.Ensures hosting own.hosted fun hosted result =>
      WorkerState.receive { own with hosted } .openScope result = own.does .openScope := by
  refine (ensures_bind _ _ _).mpr ?_
  rintro _ ⟨previous, later, hanswer, rfl⟩
  cases hanswer
  exact ⟨trivial, rfl⟩

theorem closeScope_hosting (own : WorkerState) {place : Nat} {scope : MaskScope}
    (hscope : own.scopes[place]? = some scope) :
    (Operation.closeScope scope).program.Ensures hosting own.hosted fun hosted result =>
      WorkerState.receive ⟨hosted, own.scopes.eraseIdx place⟩ (.closeScope scope) result =
        own.does (.closeScope place) := by
  rintro _ ⟨answer, later, hanswer, rfl⟩
  cases hanswer
  refine ⟨trivial, ?_⟩
  rw [does, hscope]
  rfl

end WorkerState

namespace Worker

/-- A worker is what its own chores have made of it, has seen what they show, and will have done
what the next one is to do. -/
structure Faithful (worker : Worker) : Prop where
  seen : worker.log = WorkerState.observations {} worker.chores
  fits : WorkerState.FitsAll {} worker.chores
  idle : worker.task = none → worker.toWorkerState = WorkerState.after {} worker.chores
  busy : ∀ {chore activation}, worker.task = some (chore, activation) →
    (WorkerState.after {} worker.chores).Fits chore ∧
      activation.rest.Ensures hosting worker.hosted fun hosted result =>
        WorkerState.receive { worker.toWorkerState with hosted } activation.operation result =
          (WorkerState.after {} worker.chores).does chore

variable {world later : World} {worker worker' : Worker}

theorem faithful_fresh : Worker.Faithful {} where
  seen := rfl
  fits := trivial
  idle _ := rfl
  busy htask := by cases htask

/-- A chore that is done as it should be is added to the others. -/
theorem Faithful.conclude {chore : Chore} {own : WorkerState} {word : Word}
    (hfaithful : worker.Faithful) (hfits : (WorkerState.after {} worker.chores).Fits chore)
    (hdone : (own, word) = (WorkerState.after {} worker.chores).does chore) :
    (worker.conclude chore own word).Faithful := by
  have hchores : (worker.conclude chore own word).chores = worker.chores ++ [chore] := by
    simp [Worker.chores, Worker.conclude]
  obtain ⟨rfl, rfl⟩ := Prod.mk.inj hdone
  refine ⟨?_, ?_, fun _ => ?_, ?_⟩
  · rw [hchores, WorkerState.observations_append, ← hfaithful.seen]
    rfl
  · rw [hchores, WorkerState.fitsAll_concat]
    exact ⟨hfaithful.fits, hfits⟩
  · rw [hchores, WorkerState.after_concat]
    rfl
  · rintro _ _ ⟨⟩

/-- A chore that is taken up will be done as it should be. -/
theorem Faithful.take {chore : Chore} {activation : Activation} {scopes : List MaskScope}
    (hfaithful : worker.Faithful) (hidle : worker.task = none)
    (hfits : worker.toWorkerState.Fits chore)
    (hensures : activation.rest.Ensures hosting worker.hosted fun hosted result =>
      WorkerState.receive ⟨hosted, scopes⟩ activation.operation result =
        worker.toWorkerState.does chore) :
    Worker.Faithful ⟨⟨worker.hosted, scopes⟩, some (chore, activation), worker.log⟩ := by
  have hstation := hfaithful.idle hidle
  refine ⟨hfaithful.seen, hfaithful.fits, by rintro ⟨⟩, ?_⟩
  rintro _ _ ⟨⟩
  have hdoes : worker.toWorkerState.does chore =
      (WorkerState.after {} worker.chores).does chore := by
    rw [hstation]
  exact ⟨hstation ▸ hfits, hensures.mono fun hosted result hdone => hdone.trans hdoes⟩

/-- Whatever a worker does, it is up to itself. -/
theorem Faithful.moves (hfaithful : worker.Faithful) (hmoves : worker.Moves world later worker') :
    worker'.Faithful := by
  cases hmoves with
  | bind core hidle => exact hfaithful.conclude trivial (by rw [← hfaithful.idle hidle]; rfl)
  | save hidle => exact hfaithful.conclude trivial (by rw [← hfaithful.idle hidle]; rfl)
  | restore previous hidle =>
      exact hfaithful.conclude trivial (by rw [← hfaithful.idle hidle]; rfl)
  | openScope hidle => exact hfaithful.take hidle trivial worker.toWorkerState.openScope_hosting
  | closeScope hidle hscope =>
      exact hfaithful.take hidle (List.getElem?_eq_some_iff.mp hscope).1
        (worker.toWorkerState.closeScope_hosting hscope)
  | run hidle herrand =>
      exact hfaithful.take hidle herrand (worker.toWorkerState.errand_hosting herrand)
  | answer htask hanswer =>
      obtain ⟨hfits, hbusy⟩ := hfaithful.busy htask
      refine ⟨hfaithful.seen, hfaithful.fits, by rintro ⟨⟩, ?_⟩
      rintro _ _ ⟨⟩
      have hnext := (hbusy _ ⟨_, _, hanswer, rfl⟩).2
      rw [hosting_answered hanswer] at hnext
      exact ⟨hfits, hnext⟩
  | step htask hgoes hsilent hafter =>
      obtain ⟨hfits, hbusy⟩ := hfaithful.busy htask
      obtain ⟨hpresumes, hobserve⟩ := hosting_silent worker.hosted hsilent
      refine ⟨hfaithful.seen, hfaithful.fits, by rintro ⟨⟩, ?_⟩
      rintro _ _ ⟨⟩
      have hnext := (hbusy.goes hosting_rounds hgoes hpresumes).2
      rw [hobserve] at hnext
      exact ⟨hfits, hnext⟩
  | finish htask =>
      obtain ⟨hfits, hbusy⟩ := hfaithful.busy htask
      exact hfaithful.conclude hfits hbusy

end Worker

namespace Workers

variable {state state' : Workers} {index other : Nat} {order : Order} {orders : List (Nat × Order)}

/-- No worker has to do with what another one does. -/
theorem move?_other (hmove : state.move? index order = some state') (hother : other ≠ index) :
    state'.workers[other]? = state.workers[other]? := by
  obtain ⟨_, _, _, _, hworkers⟩ := moves_of_move? hmove
  rw [hworkers, Array.getElem?_setIfInBounds_ne (Ne.symm hother)]

theorem faithful_move? (hfaithful : ∀ worker ∈ state.workers, worker.Faithful)
    (hmove : state.move? index order = some state') :
    ∀ worker ∈ state'.workers, worker.Faithful := by
  obtain ⟨old, new, hold, hmoves, hworkers⟩ := moves_of_move? hmove
  intro worker hmem
  rw [hworkers] at hmem
  rcases Array.mem_or_eq_of_mem_setIfInBounds hmem with hmem | rfl
  · exact hfaithful worker hmem
  · exact (hfaithful old (Array.mem_of_getElem? hold)).moves hmoves

/-- All workers of a run are up to themselves. -/
theorem faithful_run? (hfaithful : ∀ worker ∈ state.workers, worker.Faithful)
    (hrun : state.run? orders = some state') : ∀ worker ∈ state'.workers, worker.Faithful := by
  induction orders generalizing state with
  | nil =>
      cases hrun
      exact hfaithful
  | cons head orders ih =>
      obtain ⟨next, hmove, hrest⟩ := Option.bind_eq_some_iff.mp hrun
      exact ih (faithful_move? hfaithful hmove) hrest

theorem faithful_of_run? {world : World} {count : Nat} {worker : Worker}
    (hrun : (fresh world count).run? orders = some state)
    (hworker : state.workers[index]? = some worker) : worker.Faithful := by
  refine faithful_run? (fun worker hmem => ?_) hrun worker (Array.mem_of_getElem? hworker)
  rw [Array.eq_of_mem_replicate hmem]
  exact Worker.faithful_fresh

end Workers

end CoreEngines
