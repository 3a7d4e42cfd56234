import CoreEngines.Proofs.Behavior
import CoreEngines.Proofs.Invariants

/-!
Modest operations.  Timer interrupts are counted by the operations that are there to count them, and
local storage is used by the operations that are there to use it.  All others, and all procedures,
leave both alone.
-/

namespace CoreEngines

/-- The discipline of the operations that are told apart by what they leave alone: those that are
not there to touch it spare it. -/
def sparing (touches : Operation → Bool) (Spares : Happening → Prop) : Discipline Operation where
  start operation := operation
  observe operation _ := operation
  Allows operation happening := touches operation = false → Spares happening
  Presumes _ _ := True
  Enters _ _ := True
  Leaves _ operation later _ := later = operation
  Returns _ _ _ := True

section
variable {touches : Operation → Bool} {Spares : Happening → Prop} {operation : Operation}

theorem sparing_ensures {α : Type} {program : Program α} {Permits : Happening → Prop}
    (hprogram : program.Within Permits)
    (hpermits : ∀ happening, Permits happening → touches operation = false → Spares happening) :
    program.Ensures (sparing touches Spares) operation fun later _ => later = operation := by
  refine hprogram.ensures ?_ ?_ ?_
  · rfl
  · rintro _ happening rfl hpermit
    exact ⟨hpermits happening hpermit, rfl⟩
  · rintro procedure _ rfl _
    exact ⟨trivial, fun _ _ hleaves => hleaves⟩

theorem sparing_obeyed
    (hoperations : ∀ operation : Operation, touches operation = false →
      operation.program.Within Spares)
    (hprocedures : ∀ procedure : Procedure, procedure.code.Within Spares) :
    (sparing touches Spares).Obeyed where
  operations operation := by
    cases htouches : touches operation with
    | false =>
        exact (sparing_ensures (hoperations operation htouches) fun _ hspares _ => hspares).mono
          fun _ _ _ => trivial
    | true =>
        refine (sparing_ensures operation.program_behaves.shows ?_).mono fun _ _ _ => trivial
        intro happening _ hnot
        cases htouches.symm.trans hnot
  procedures procedure operation _ :=
    sparing_ensures (hprocedures procedure) fun _ hspares _ => hspares

theorem sparing_upholds {start : World} :
    (sparing touches Spares).Upholds start fun _ _ _ => True where
  idle := trivial
  start _ _ _ _ _ := trivial
  step _ _ _ _ _ _ := ⟨trivial, fun _ => trivial⟩
  finish _ _ _ _ _ _ _ := trivial

theorem spares_of_keeps {steps : List Happening} {happening : Happening}
    (hkeeps : (sparing touches Spares).Keeps operation steps)
    (htouches : touches operation = false) (hmem : happening ∈ steps) : Spares happening := by
  induction steps with
  | nil => cases hmem
  | cons first steps ih =>
      obtain ⟨hfirst, hkeeps⟩ := hkeeps
      rcases List.mem_cons.mp hmem with rfl | hmem
      · exact hfirst htouches
      · exact ih hkeeps hmem

/-- What all but a few operations spare, they spare in every run. -/
theorem Runs.spares {start world : World} {history : History} {flows : Nat → Flow} {number : Nat}
    {story : List Happening} {happening : Happening} (hrun : Runs start history world flows)
    (hoperations : ∀ operation : Operation, touches operation = false →
      operation.program.Within Spares)
    (hprocedures : ∀ procedure : Procedure, procedure.code.Within Spares)
    (hown : (Journal.ofHistory history).own number = .started operation :: story)
    (htouches : touches operation = false) (hmem : happening ∈ story) (hstep : happening.isStep) :
    Spares happening := by
  have haccount := (hrun.account (sparing_obeyed hoperations hprocedures) sparing_upholds).1
  obtain ⟨other, steps, _, hkeeps, hown' | ⟨result, hown', _⟩⟩ :=
    haccount.story (Journal.lt_started_of_own haccount.sound hown)
  · cases hown.symm.trans hown'
    exact spares_of_keeps hkeeps htouches hmem
  · cases hown.symm.trans hown'
    rcases List.mem_append.mp hmem with hmem | hmem
    · exact spares_of_keeps hkeeps htouches hmem
    · cases List.mem_singleton.mp hmem
      cases hstep

end

@[simp]
def Happening.Countless : Happening → Prop
  | .acted (.context _ .tick) _ => False
  | _ => True

@[simp]
def Happening.Storeless : Happening → Prop
  | .acted (.thread _ .readStorage) _ | .acted (.thread _ (.writeStorage _)) _
  | .acted (.engine _ .readBootstrap) _ | .acted (.engine _ (.writeBootstrap _)) _ => False
  | _ => True

@[simp]
def Happening.Modest (happening : Happening) : Prop :=
  happening.Countless ∧ happening.Storeless

def Operation.counts : Operation → Bool
  | tick _ | timerTick _ => true
  | _ => false

def Operation.stores : Operation → Bool
  | storage _ _ | localGet _ _ | localSet _ _ _ => true
  | _ => false

/-- What has to do with no context, thread or engine is modest. -/
theorem modest_of_shows {topics : List Topic}
    (htopics : ∀ topic ∈ topics, topic ≠ .context ∧ topic ≠ .thread ∧ topic ≠ .engine)
    (happening : Happening) (hshows : happening.Shows topics) : happening.Modest := by
  constructor
  · unfold Happening.Countless
    split
    · exact (htopics .context (hshows .context rfl)).1 rfl
    · trivial
  · unfold Happening.Storeless
    split
    · exact (htopics .thread (hshows .thread rfl)).2.1 rfl
    · exact (htopics .thread (hshows .thread rfl)).2.1 rfl
    · exact (htopics .engine (hshows .engine rfl)).2.2 rfl
    · exact (htopics .engine (hshows .engine rfl)).2.2 rfl
    · trivial

abbrev Program.Modest {α : Type} (program : Program α) : Prop :=
  program.Within Happening.Modest

open Program

theorem Program.Behaves.modest {α : Type} {program : Program α} {topics : List Topic}
    (hprogram : program.Behaves topics)
    (htopics : ∀ topic ∈ topics, topic ≠ .context ∧ topic ≠ .thread ∧ topic ≠ .engine) :
    program.Modest :=
  hprogram.shows.mono (modest_of_shows htopics)

theorem Thread.bind_modest (thread : Ref .thread) (sched : SchedRef) :
    (Thread.bind thread sched).Modest := by
  apply Within.bind (Within.perform (by simp))
  intro first
  split
  · exact Within.pure _
  · exact Within.bind (Within.perform (by simp)) fun _ => Within.raise _

namespace Context

theorem admitEach_modest (manager : ManagerRef) (threads : List (Ref .thread)) :
    (admitEach manager threads).Modest := by
  induction threads with
  | nil => exact Within.pure _
  | cons thread rest ih =>
      apply Within.bind (Within.request (by simp))
      intro sched
      apply Within.bind (Within.perform (by simp))
      intro id
      apply Within.bind (Within.report (by simp))
      intro _
      exact Within.bind (Thread.bind_modest thread sched) fun _ => ih

theorem admitStaged_modest (context : Ref .context) : (admitStaged context).Modest := by
  apply Within.bind (Within.perform (by simp))
  intro shape
  apply Within.bind ((Registry.takeStaged_behaves _).modest (by simp))
  intro threads
  split
  · exact Within.pure _
  · apply Within.bind (admitEach_modest _ _)
    intro _
    exact Within.bind (Within.report (by simp)) fun _ => Within.pure _

theorem loopStep_modest (context : Ref .context) : (loopStep context).Modest := by
  have hagain : (invoke (.runLoop context)).Modest := Within.invoke (by simp)
  apply Within.bind (Within.perform (by simp))
  intro shape
  apply Within.bind (Within.request (by simp))
  intro quantum
  split
  · exact Within.pure _
  · split
    · exact hagain
    · exact Within.bind (admitStaged_modest context) fun _ => hagain

theorem run_modest (context : Ref .context) : (run context).Modest := by
  apply Within.bind (admitStaged_modest context)
  intro _
  apply Within.bind (Within.perform (by simp))
  intro shape
  apply Within.bind (Within.request (by simp))
  intro ready
  split
  · apply Within.bind (Within.report (by simp))
    intro _
    exact Within.bind (Within.invoke (by simp)) fun _ => Within.report (by simp)
  · exact Within.raise _

theorem buildCache_modest (context : Ref .context) : (buildCache context).Modest := by
  apply Within.bind (Within.perform (by simp))
  intro claim
  split
  · exact Within.pure _
  · apply Within.bind (Within.perform (by simp))
    intro shape
    apply Within.bind (Within.report (by simp))
    intro _
    apply Within.andThen (Within.request (by simp))
    intro built
    split
    · exact Within.perform (by simp)
    · exact Within.bind (Within.perform (by simp)) fun _ => Within.fail _

theorem currentThread_modest (context : Ref .context) : (currentThread context).Modest :=
  Within.bind (Within.perform (by simp)) fun _ => Within.request (by simp)

end Context

namespace Engine

theorem operate_modest (engine : Ref .engine) (core : CoreId) (shape : EngineShape) :
    (operate engine core shape).Modest := by
  unfold operate
  split
  · exact Within.bind (Within.request (by simp)) fun never => nomatch never
  · exact Within.invoke (by simp)
  · exact Within.bind ((makeContext_behaves engine core shape).modest (by simp)) fun context =>
      Context.run_modest context

theorem enter_modest (engine : Ref .engine) : (enter engine).Modest := by
  apply Within.bind (Within.perform (by simp))
  intro shape
  apply Within.bind (Within.perform (by simp))
  intro entered
  split
  · exact Within.raise _
  · apply Within.bind (Within.perform (by simp))
    intro context
    split
    · exact Within.raise _
    · apply Within.bind (Within.request (by simp))
      intro core
      split
      · exact Within.bind (Within.report (by simp)) fun _ => operate_modest engine core shape
      · exact Within.raise _

theorem requireContext_modest (engine : Ref .engine) : (requireContext engine).Modest := by
  apply Within.bind (Within.perform (by simp))
  intro context
  split
  · exact Within.pure _
  · exact Within.bind (Within.perform (by simp)) fun _ => Within.raise _

/-- Whoever uses a storage counts nothing. -/
theorem use_countless {α : Type} (slot : StorageSlot) (use : LocalStorage → α × LocalStorage) :
    (slot.use use).Within Happening.Countless := by
  cases slot <;>
    exact Within.locked (Within.bind (Within.perform (by simp)) fun _ =>
      Within.bind (Within.perform (by simp)) fun _ => Within.pure _) (by simp) (by simp)

theorem storageSlot_modest (engine : Ref .engine) : (storageSlot engine).Modest := by
  apply Within.bind (Within.perform (by simp))
  intro context
  split
  · exact Within.pure _
  · apply Within.bind (Context.currentThread_modest _)
    intro current
    split
    · exact Within.bind ((Handle.get_behaves _).modest (by simp)) fun _ => Within.pure _
    · exact Within.bind (Within.perform (by simp)) fun _ => Within.raise _

theorem localGet_countless (engine : Ref .engine) (key : UInt64) :
    (localGet engine key).Within Happening.Countless :=
  Within.bind ((storageSlot_modest engine).mono fun _ hmodest => hmodest.1) fun slot =>
    use_countless slot _

theorem localSet_countless (engine : Ref .engine) (key value : UInt64) :
    (localSet engine key value).Within Happening.Countless :=
  Within.bind ((storageSlot_modest engine).mono fun _ hmodest => hmodest.1) fun slot =>
    Within.bind (use_countless slot _) fun _ => Within.pure _

theorem timerTick_storeless (engine : Ref .engine) :
    (timerTick engine).Within Happening.Storeless := by
  apply Within.bind (Within.perform (by simp))
  intro context
  split
  · exact Within.perform (by simp)
  · exact Within.pure _

end Engine

theorem Procedure.code_modest (procedure : Procedure) : procedure.code.Modest := by
  cases procedure with
  | claimSerial counter seen =>
      exact (SerialCounter.claimStep_behaves counter seen).modest (by simp)
  | runLoop context => exact Context.loopStep_modest context
  | idle => exact Engine.idleStep_behaves.modest (by simp)

/-- All operations are modest but those that are there to count or to store. -/
theorem Operation.program_modest {operation : Operation} (hcounts : operation.counts = false)
    (hstores : operation.stores = false) : operation.program.Modest := by
  cases operation with
  | storage thread command => cases hstores
  | tick context => cases hcounts
  | timerTick engine => cases hcounts
  | localGet engine key => cases hstores
  | localSet engine key value => cases hstores
  | bind thread sched => exact Thread.bind_modest thread sched
  | setStatus thread status => exact Within.perform (by simp)
  | admitStaged context => exact Context.admitStaged_modest context
  | run context => exact Context.run_modest context
  | buildCache context => exact Context.buildCache_modest context
  | currentThread context => exact Context.currentThread_modest context
  | enter engine => exact Engine.enter_modest engine
  | requireContext engine => exact Engine.requireContext_modest engine
  | _ => exact (program_behaves _).modest (by simp)

theorem Operation.program_countless {operation : Operation} (hcounts : operation.counts = false) :
    operation.program.Within Happening.Countless := by
  cases hstores : operation.stores with
  | false => exact (program_modest hcounts hstores).mono fun _ hmodest => hmodest.1
  | true =>
      cases operation with
      | storage thread command => exact Engine.use_countless (.thread thread) _
      | localGet engine key => exact Engine.localGet_countless engine key
      | localSet engine key value => exact Engine.localSet_countless engine key value
      | _ => cases hstores

theorem Operation.program_storeless {operation : Operation} (hstores : operation.stores = false) :
    operation.program.Within Happening.Storeless := by
  cases hcounts : operation.counts with
  | false => exact (program_modest hcounts hstores).mono fun _ hmodest => hmodest.2
  | true =>
      cases operation with
      | tick context => exact Within.perform (by simp)
      | timerTick engine => exact Engine.timerTick_storeless engine
      | _ => cases hcounts

namespace Runs

variable {start world : World} {history : History} {flows : Nat → Flow} {number : Nat}
  {operation : Operation} {story : List Happening} {happening : Happening}

/-- Whoever counts a timer interrupt is there to do so, -/
theorem counts (hrun : Runs start history world flows)
    (hown : (Journal.ofHistory history).own number = .started operation :: story)
    (hmem : happening ∈ story) (hstep : happening.isStep) (hcounts : ¬ happening.Countless) :
    operation.counts = true := by
  by_contra hnot
  refine hcounts (hrun.spares (fun _ => Operation.program_countless)
    (fun procedure => procedure.code_modest.mono fun _ hmodest => hmodest.1) hown ?_ hmem hstep)
  simpa using hnot

/-- and so is whoever uses a local storage. -/
theorem stores (hrun : Runs start history world flows)
    (hown : (Journal.ofHistory history).own number = .started operation :: story)
    (hmem : happening ∈ story) (hstep : happening.isStep) (hstores : ¬ happening.Storeless) :
    operation.stores = true := by
  by_contra hnot
  refine hstores (hrun.spares (fun _ => Operation.program_storeless)
    (fun procedure => procedure.code_modest.mono fun _ hmodest => hmodest.2) hown ?_ hmem hstep)
  simpa using hnot

end Runs

end CoreEngines
