import CoreEngines.Proofs.Conduct.FirstLooks

/-!
First entries.  The entry of an execution engine on its own core looks for threads once, and fails
for want of threads exactly if none had been created by then.
-/

namespace CoreEngines

open Program

def World.managerOf? (world : World) (target : Ref .engine) : Option ManagerRef :=
  ((world.contextOf? target).bind world.contextShape?).map (·.manager)

theorem Machine.ends_of_run? {count : Nat} {moves : List (Nat × Move)} {machine : Machine}
    {history : History} {number : Nat} {operation : Operation} {story : List Happening}
    {result : Except Failure operation.Reply}
    (hrun : (Machine.idle {} count).run? moves = some (machine, history))
    (hown : (Journal.ofHistory history).own number = .started operation :: story)
    (hreaches : operation.program.Reaches story (.done result)) :
    ∃ index below, machine.flow index = ⟨operation, .done result⟩ :: below := by
  obtain ⟨index, hmem⟩ := (Machine.runs_of_run? hrun).ended hown hreaches
  exact ⟨index, (Machine.nested_run? (Machine.nested_idle {} _) hrun).top_of_done hmem⟩

namespace Engine

section
variable {history : History} {world : World} {flows : Nat → Flow} {target : Ref .engine}
  {engine : Engine} {number : Nat} {story : List Happening}

/-- Whoever has had the context of an engine built, or has found it there, has seen the engine with
it. -/
theorem contextOf?_of_made {core : CoreId} {shape : EngineShape} {place : Ref .context}
    {built : List Happening} (hrun : Runs {} history world flows)
    (hmade : (makeContext target core shape).Reaches built (.done (.ok place)))
    (hbuilt : ∀ happening ∈ built, happening ∈ history.map Prod.snd) :
    world.contextOf? target = some place := by
  rw [contextOf?_iff hrun]
  rcases made_of_tells (makeContext_straight.tells hmade) with
    ⟨found, rfl, hplace⟩ | ⟨_, found, _, hplace, rfl⟩ | ⟨_, _, hfails⟩
  · cases hplace
    obtain ⟨⟨index, _⟩, hentry, rfl⟩ := List.mem_map.mp (hbuilt _ List.mem_cons_self)
    obtain ⟨before, after, rfl⟩ := List.append_of_mem hentry
    obtain ⟨past, later, _, hbefore, hafter⟩ := hrun.moment
    rw [List.map_append]
    exact List.mem_append_left _ (hbefore.filled (World.contextOf?_of_claim hafter))
  · cases hplace
    exact hbuilt _ (by simp)
  · cases hfails

/-- What an entry of an engine has done: it has come to run the context of the engine, with the
parts that the engine has, or it has stopped before. -/
theorem entry_cases (hrun : Runs {} history world flows)
    (hengine : world.engineAt? target = some engine)
    (hown : (Journal.ofHistory history).own number = .started (.enter target) :: story) :
    ∃ steps rest last, story = steps ++ last ∧
      (Operation.enter target).program.Reaches steps rest ∧
      (last = [] ∨ ∃ result, last = [.finished (.enter target) result] ∧ rest = .done result) ∧
        ((∃ made place manager late, steps = made ++ late ∧
          (∀ happening ∈ made, happening.Preliminary) ∧ world.contextOf? target = some place ∧
            world.contextShape? place = some (contextShape engine.shape manager) ∧
              (Context.run place).Reaches late rest) ∨ Stops target steps rest) := by
  obtain ⟨steps, rest, last, rfl, hreaches, hlast⟩ := hrun.reaches_last hown
  refine ⟨steps, rest, last, rfl, hreaches, hlast, ?_⟩
  rcases enter_cases hreaches with ⟨shape, built, place, late, rfl, _, hbuilt, hlate⟩ | hstops
  · have hmem : ∀ {happening}, happening ∈ opened target shape ++ (built ++ late) →
        happening ∈ history.map Prod.snd :=
      fun hmem => hrun.mem_history hown (List.mem_append_left _ hmem)
    have hcontext : world.contextOf? target = some place :=
      contextOf?_of_made hrun hbuilt fun happening hmade => hmem (by simp [hmade])
    obtain ⟨found, hfound, hvalue⟩ := Option.bind_eq_some_iff.mp hcontext
    cases hengine.symm.trans hfound
    obtain ⟨_, _, context, manager, hat, hshape⟩ := present_of_runs hrun hengine hvalue
    refine Or.inl ⟨opened target shape ++ built, place, manager, late,
      (List.append_assoc ..).symm, List.forall_mem_append.mpr ⟨opened_preliminary, ?_⟩, hcontext,
      ?_, hlate⟩
    · exact (makeContext_preliminary.of_reaches preliminary_code hbuilt).2
    · simp [World.contextShape?, hat, hshape]
  · exact Or.inr hstops

end

/-- The first entry of an engine, on the engine's own core and with a manager of its own that is
truthful about its threads.  None of its callbacks fails. -/
structure FirstEntry (target : Ref .engine) (shape : EngineShape) (number : Nat)
    (story : List Happening) (machine : Machine) (history : History) : Prop where
  own : (Journal.ofHistory history).own number = .started (.enter target) :: story
  first : .acted (.engine target .enter) false ∈ story
  located : .answered .currentCore (.ok shape.core) ∈ story
  calm : ∀ happening ∈ story, happening.fails = false
  apart : machine.world.Apart
  truthful : ∀ manager ∈ machine.world.managerOf? target, manager.Truthful history

/-- A first entry during which nobody else takes threads from the registry, before it has heard from
the manager. -/
structure UndrainedEntry (target : Ref .engine) (shape : EngineShape) (number : Nat)
    (story : List Happening) (machine : Machine) (history : History) : Prop
    extends FirstEntry target shape number story machine history where
  kept : Registry.KeptFor shape.registry number history

section
variable {count : Nat} {moves : List (Nat × Move)} {machine : Machine} {history : History}
  {target : Ref .engine} {engine : Engine} {number : Nat} {story : List Happening}

/-- The failure of an engine whose manager has nothing to run. -/
def starved (engine : Engine) : Failure :=
  .violation (.nothingToRun engine.shape.core)

/-- An entry that has heard from the manager. -/
theorem told_of_ready {ready : Bool}
    (hrun : (Machine.idle {} count).run? moves = some (machine, history))
    (hengine : machine.world.engineAt? target = some engine)
    (hundrained : UndrainedEntry target engine.shape number story machine history)
    (hready : ready ∈ readyIn story) :
    ∃ look : Registry.Look engine.shape.registry number history, look.FirstLook count ∧
      readyIn story = [ready] ∧ (ready = false ↔ look.found = []) := by
  obtain ⟨⟨hown, _, _, _, hapart, htruthful⟩, hkept⟩ := hundrained
  obtain ⟨steps, rest, last, rfl, _, hlast, ⟨made, place, manager, late, rfl, hmade, hcontext,
    hshape, hlate⟩ | hstops⟩ := entry_cases (Machine.runs_of_run? hrun) hengine hown
  · rw [List.append_assoc] at hown hready ⊢
    have hquiet := List.forall_mem_append.mpr ⟨hmade, preliminary_of_last hlast⟩
    rw [Context.readyIn_run hquiet] at hready ⊢
    have hmanager : machine.world.managerOf? target = some manager := by
      simp [World.managerOf?, hcontext, hshape]
    obtain ⟨_, _, _, look, _, _, hone, hfirstLook, _, hfound, _⟩ :=
      Context.told_of_run? hrun rfl hown hquiet hshape hlate hready hapart
        (htruthful manager hmanager) hkept
    exact ⟨look, hfirstLook, hone, hfound⟩
  · have hnone := Context.readyIn_of_preliminary
      (List.forall_mem_append.mpr ⟨hstops.preliminary, preliminary_of_last hlast⟩)
    rw [hnone] at hready
    cases hready

/-- An entry that has returned. -/
theorem told_of_finished {result : Except Failure Unit}
    (hrun : (Machine.idle {} count).run? moves = some (machine, history))
    (hengine : machine.world.engineAt? target = some engine)
    (hmode : engine.shape.mode = .execution)
    (hundrained : UndrainedEntry target engine.shape number story machine history)
    (hfinished : .finished (.enter target) result ∈ story) :
    ∃ look : Registry.Look engine.shape.registry number history, look.FirstLook count ∧
      (result = .error (starved engine) ↔ look.found = []) ∧
        (look.found = [] → false ∈ readyIn story) := by
  obtain ⟨⟨hown, _, hlocated, hcalm, hapart, htruthful⟩, hkept⟩ := hundrained
  have hall := Machine.runs_of_run? hrun
  obtain ⟨steps, rest, last, rfl, hreaches, hlast, hcases⟩ := entry_cases hall hengine hown
  have hquiet := preliminary_of_last hlast
  obtain rfl := hreaches.rest_of_finished hlast hfinished
  rcases hcases with ⟨made, place, manager, late, rfl, hmade, hcontext, hshape, hlate⟩ | hstops
  · rw [List.append_assoc] at hown hcalm ⊢
    have hquiet := List.forall_mem_append.mpr ⟨hmade, hquiet⟩
    have hmanager : machine.world.managerOf? target = some manager := by
      simp [World.managerOf?, hcontext, hshape]
    rw [Context.readyIn_run hquiet]
    exact Context.finished_of_run? hrun rfl hown hquiet hshape hlate
      (fun happening hmem => hcalm happening (by simp [hmem])) hapart
      (htruthful manager hmanager) hkept
  · obtain ⟨shape, late, rfl, hended⟩ := hstops.ended result rfl
    obtain rfl := shape_of_runs hall hengine hown (List.mem_append_left _ List.mem_cons_self)
    rcases hended with ⟨happening, hmem, hfails⟩ | hother | hastray
    · rw [hcalm happening (by simp [hmem])] at hfails
      cases hfails
    · exact absurd hmode hother
    · refine absurd ?_ hastray
      rcases List.mem_append.mp hlocated with hmem | hmem
      · exact List.mem_of_ne_of_mem (fun hsame => by cases hsame) hmem
      · obtain rfl | ⟨_, rfl, _⟩ := hlast
        · cases hmem
        · cases List.mem_singleton.mp hmem

end

end Engine

end CoreEngines
