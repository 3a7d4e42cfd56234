import CoreEngines.Proofs.Conduct.Openings
import CoreEngines.Proofs.Conduct.Staging

/-!
Sessions.  An operation that runs a context until its manager exits calls the manager in one order:
an admission, the question whether there are threads, and quanta, with an admission between any two
of them if every quantum is to have one.  Each admission hands over what was staged when it looked.
An operation whose manager has no threads calls it for nothing else, and unwinds.
-/

namespace CoreEngines

open Program

theorem told_of_preliminary {story : List Happening}
    (hstory : ∀ happening ∈ story, happening.Preliminary) :
    callsIn story = [] ∧ quantaIn story = [] ∧ ∀ target, looksIn target story = [] := by
  refine ⟨?_, ?_, fun target => ?_⟩
  · exact List.filterMap_eq_nil_iff.mpr fun happening hmem => (hstory happening hmem).told.1
  · refine List.filterMap_eq_nil_iff.mpr fun happening hmem => ?_
    by_contra hsome
    have hcalls := call?_of_said (Or.inr (Option.isSome_iff_ne_none.mpr hsome))
    exact hcalls (hstory happening hmem).told.1
  · exact List.filterMap_eq_nil_iff.mpr fun happening hmem => (hstory happening hmem).told.2 target

section
variable {history : History} {world : World} {flows : Nat → Flow} {number : Nat}
  {operation : Operation} {story : List Happening}

/-- What an operation has heard of threads or quanta it has heard while it ran a context. -/
theorem Operation.opens {rest : Program operation.Reply} (hruns : operation.runsContext)
    (hreaches : operation.program.Reaches story rest)
    (hsaid : ∃ happening ∈ story, happening.ready?.isSome ∨ happening.quantum?.isSome) :
    ∃ made context late left, story = made ++ late ∧ (∀ happening ∈ made, happening.Preliminary) ∧
      (Context.run context).Reaches late left ∧
        (∀ failure, left = .done (.error failure) → rest = .done (.error failure)) ∧
          ∀ value, rest = .done (.ok value) → left = .done (.ok ()) := by
  cases operation with
  | run context =>
      exact ⟨[], context, story, rest, rfl, by simp, hreaches, fun _ hleft => hleft,
        fun _ hrest => hrest⟩
  | enter engine =>
      rcases Engine.enter_cases hreaches with
        ⟨shape, built, context, late, rfl, _, hbuilt, hlate⟩ | ⟨hquiet, _⟩
      · refine ⟨Engine.opened engine shape ++ built, context, late, rest,
          (List.append_assoc ..).symm, List.forall_mem_append.mpr
            ⟨Engine.opened_preliminary, ?_⟩, hlate, fun _ hleft => hleft, fun _ hrest => hrest⟩
        exact (Engine.makeContext_preliminary.of_reaches preliminary_code hbuilt).2
      · obtain ⟨happening, hmem, hsaid⟩ := hsaid
        exact absurd (hquiet happening hmem).told.1 (call?_of_said hsaid)
  | _ => cases hruns

/-- What has been told by an operation that runs a context. -/
theorem Runs.ran_context {happening : Happening} (hrun : Runs {} history world flows)
    (hruns : operation.runsContext)
    (hown : (Journal.ofHistory history).own number = .started operation :: story)
    (hmem : happening ∈ story) (hsaid : happening.ready?.isSome ∨ happening.quantum?.isSome) :
    ∃ made context shape late left last, story = made ++ (late ++ last) ∧ happening ∈ late ∧
      (∀ happening ∈ made ++ last, happening.Preliminary) ∧
        world.contextShape? context = some shape ∧
          (∀ seen, .acted (.context context .shape) seen ∈ late → seen = shape) ∧
            (Context.run context).Reaches late left ∧
              (∀ value, .finished operation (.ok value) ∈ story → left = .done (.ok ())) ∧
                ∀ failure, left = .done (.error failure) →
                  operation.program.Reaches (made ++ late) (.done (.error failure)) ∧
                    (last = [] ∨ last = [.finished operation (.error failure)]) := by
  obtain ⟨steps, rest, last, rfl, hreaches, hlast⟩ := hrun.reaches_last hown
  have hquiet := preliminary_of_last hlast
  have hsteps := (List.mem_append.mp hmem).resolve_right fun hmem =>
    call?_of_said hsaid (hquiet happening hmem).told.1
  obtain ⟨made, context, late, left, rfl, hmade, hcontext, hfails, hreturns⟩ :=
    Operation.opens hruns hreaches ⟨happening, hsteps, hsaid⟩
  have hlate := (List.mem_append.mp hsteps).resolve_left fun hmem =>
    call?_of_said hsaid (hmade happening hmem).told.1
  obtain ⟨first, later, rfl⟩ := List.exists_cons_of_ne_nil (List.ne_nil_of_mem hlate)
  obtain ⟨shape, rfl⟩ := Context.run_reads hcontext
  have hread : ∀ seen,
      .acted (.context context .shape) seen ∈ .acted (.context context .shape) shape :: later →
        world.contextShape? context = some seen := by
    intro seen hmem
    exact hrun.contextShape_of_read (hrun.mem_history hown
      (List.mem_append_left _ (List.mem_append_right _ hmem)))
  refine ⟨made, context, shape, _, left, last, List.append_assoc .., hlate, ?_,
    hread shape List.mem_cons_self, ?_, hcontext, fun value hfinished =>
      hreturns value (hreaches.rest_of_finished hlast hfinished), ?_⟩
  · intro happening hmem
    exact (List.mem_append.mp hmem).elim (hmade happening) (hquiet happening)
  · intro seen hmem
    exact Option.some.inj ((hread seen hmem).symm.trans (hread shape List.mem_cons_self))
  · intro failure hleft
    obtain rfl := hfails failure hleft
    refine ⟨hreaches, hlast.imp_right ?_⟩
    rintro ⟨result, rfl, hdone⟩
    cases hdone
    rfl

/-- An operation whose manager has exited has told a session. -/
theorem Runs.session_of_exit (hrun : Runs {} history world flows) (hruns : operation.runsContext)
    (hown : (Journal.ofHistory history).own number = .started operation :: story)
    (hexit : .exit ∈ quantaIn story) :
    ∃ context shape first rounds made told late, world.contextShape? context = some shape ∧
      story = made ++ (told ++ late) ∧ Context.Session context shape first rounds told ∧
        (∀ happening ∈ made, happening.Preliminary) ∧
          ∀ happening ∈ late, happening.Preliminary := by
  obtain ⟨happening, hmem, hquantum⟩ := List.mem_filterMap.mp hexit
  obtain ⟨made, context, shape, told, left, last, rfl, hmem, hquiet, hshape, hreads, hreaches, _,
    _⟩ := hrun.ran_context hruns hown hmem (Or.inr (by simp [hquantum]))
  obtain ⟨first, rounds, session, late, hsession, rfl, hlate⟩ :=
    Context.session_of_reaches hreads hreaches ⟨happening, hmem, hquantum⟩
  refine ⟨context, shape, first, rounds, made, session, late ++ last, hshape, by simp, hsession,
    fun happening hmem => hquiet happening (List.mem_append_left _ hmem), ?_⟩
  intro happening hmem
  rcases List.mem_append.mp hmem with hmem | hmem
  · have hreport : (report (.loopFinished shape.core)).Within Happening.Preliminary :=
      Within.report ⟨rfl, fun _ => rfl⟩
    exact (hreport.of_reaches preliminary_code hlate).2 happening hmem
  · exact hquiet happening (List.mem_append_right _ hmem)

end

namespace Context

/-- How an operation has run a context whose manager has exited: what it has admitted at first, and
after each quantum but the last. -/
structure Conducted (context : Ref .context) (shape : ContextShape) (first : List (Ref .thread))
    (rounds : List (List (Ref .thread))) (number : Nat) (story : List Happening)
    (history : History) : Prop where
  /-- The calls of the manager, all of them and in this order, -/
  calls : callsIn story = sessionCalls shape first rounds
  /-- and how its quanta ended. -/
  quanta : quantaIn story = List.replicate rounds.length .proceed ++ [.exit]
  /-- The looks for staged threads, and what they found. -/
  looks : looksIn shape.registry story = match shape.admission with
    | .startup => [first]
    | .everyQuantum => first :: rounds
  unlooked : shape.admission = .startup → ∀ threads ∈ rounds, threads = []
  /-- Calls and looks come one after the other as in a session, and no others before or after. -/
  session : ∃ made told late, story = made ++ (told ++ late) ∧
    Session context shape first rounds told ∧ ∀ happening ∈ made ++ late, happening.Preliminary
  watched : Registry.Watched shape.registry number history

/-- How an operation has run a context whose manager has no threads: what it has admitted. -/
structure Turned (shape : ContextShape) (first : List (Ref .thread)) (number : Nat)
    (operation : Operation) (story : List Happening) (machine : Machine) (history : History) :
    Prop where
  calls : callsIn story = first.map (.schedule shape.manager "") ++ [.hasThreads shape.manager]
  quanta : quantaIn story = []
  looks : looksIn shape.registry story = [first]
  watched : Registry.Watched shape.registry number history
  /-- It has failed, or is about to fail. -/
  raises : ∃ violation : Violation,
    violation.message = "no threads to run on " ++ shape.core.display ∧
      (.finished operation (.error (.violation violation)) ∈ story ∨
        ∃ index below, machine.flow index =
          ⟨operation, .done (.error (.violation violation))⟩ :: below)

/-- How an operation runs a context whose manager has threads and has not exited: what it has
admitted at first, and in each lap since. -/
structure Continuing (context : Ref .context) (shape : ContextShape) (first : List (Ref .thread))
    (rounds : List (List (Ref .thread))) (operation : Operation) (story : List Happening) :
    Prop where
  /-- The manager has gone on after every quantum that has ended, -/
  quanta : ∀ quantum ∈ quantaIn story, quantum = .proceed
  /-- and after each of them came another one, or what is left of the admission between the two. -/
  pending : ∃ made intake count late last, story = made ++ (opening context shape intake true ++
      late ++ last) ∧ Intake context shape first intake (.ok count) ∧
        Pending context shape rounds late ∧ ∀ happening ∈ made ++ last, happening.Preliminary
  /-- It has not returned, unless by a failure. -/
  unreturned : ∀ value, .finished operation (.ok value) ∉ story

section
variable {count : Nat} {moves : List (Nat × Move)} {machine : Machine} {history : History}
  {number : Nat} {operation : Operation} {story : List Happening}

theorem not_create (hruns : operation.runsContext) (registry : Ref .registry) :
    operation ≠ .create registry := by
  rintro rfl
  cases hruns

theorem conducted_of_exit (hrun : (Machine.idle {} count).run? moves = some (machine, history))
    (hruns : operation.runsContext)
    (hown : (Journal.ofHistory history).own number = .started operation :: story)
    (hexit : .exit ∈ quantaIn story) :
    ∃ context shape first rounds, machine.world.contextShape? context = some shape ∧
      Conducted context shape first rounds number story history := by
  obtain ⟨context, shape, first, rounds, made, told, late, hshape, rfl, hsession, hmade, hlate⟩ :=
    (Machine.runs_of_run? hrun).session_of_exit hruns hown hexit
  obtain ⟨hcalls, hquanta, hstartup, hevery⟩ := hsession.told
  obtain ⟨hcalls', hquanta', hlooks'⟩ := told_of_preliminary hmade
  obtain ⟨hlateCalls, hlateQuanta, hlateLooks⟩ := told_of_preliminary hlate
  refine ⟨context, shape, first, rounds, hshape, ?_, ?_, ?_, ?_, ?_, ?_⟩
  · simp [hcalls, hcalls', hlateCalls]
  · simp [hquanta, hquanta', hlateQuanta]
  · simp only [looksIn_append, hlooks', hlateLooks, List.nil_append, List.append_nil]
    cases hadmission : shape.admission with
    | startup => exact (hstartup hadmission).2
    | everyQuantum => exact hevery hadmission
  · exact fun hadmission => (hstartup hadmission).1
  · exact ⟨made, told, late, rfl, hsession, List.forall_mem_append.mpr ⟨hmade, hlate⟩⟩
  · exact Registry.watched_of_run? hrun hown (not_create hruns) shape.registry

theorem turned_of_ready (hrun : (Machine.idle {} count).run? moves = some (machine, history))
    (hruns : operation.runsContext)
    (hown : (Journal.ofHistory history).own number = .started operation :: story)
    (hnone : false ∈ readyIn story) :
    ∃ context shape first, machine.world.contextShape? context = some shape ∧
      Turned shape first number operation story machine history := by
  have hall := Machine.runs_of_run? hrun
  obtain ⟨happening, hmem, hready⟩ := List.mem_filterMap.mp hnone
  obtain ⟨made, context, shape, told, left, last, rfl, hmem, hquiet, hshape, hreads, hreaches, _,
    hfails⟩ := hall.ran_context hruns hown hmem (Or.inl (by simp [hready]))
  obtain ⟨first, intake, count, hintake, rfl, rfl⟩ :=
    turned_of_reaches hreads hreaches (List.mem_filterMap.mpr ⟨_, hmem, hready⟩)
  obtain ⟨hcalls, hquanta, hlooks⟩ := opening_told false hintake
  obtain ⟨hquiet', hquietLate⟩ := List.forall_mem_append.mp hquiet
  obtain ⟨hcalls', hquanta', hlooks'⟩ := told_of_preliminary hquiet'
  obtain ⟨hlateCalls, hlateQuanta, hlateLooks⟩ := told_of_preliminary hquietLate
  refine ⟨context, shape, first, hshape, ?_, ?_, ?_, ?_, .nothingToRun shape.core, rfl, ?_⟩
  · simp [hcalls, hcalls', hlateCalls]
  · simp [hquanta, hquanta', hlateQuanta]
  · simp [hlooks, hlooks', hlateLooks]
  · exact Registry.watched_of_run? hrun hown (not_create hruns) shape.registry
  · obtain ⟨hdone, rfl | rfl⟩ := hfails _ rfl
    · rw [List.append_nil] at hown
      obtain ⟨index, hmem⟩ := hall.ended hown hdone
      have hnested := Machine.nested_run? (Machine.nested_idle {} _) hrun
      exact Or.inr ⟨index, hnested.top_of_done hmem⟩
    · exact Or.inl (by simp)

theorem continuing_of_ready (hrun : (Machine.idle {} count).run? moves = some (machine, history))
    (hruns : operation.runsContext)
    (hown : (Journal.ofHistory history).own number = .started operation :: story)
    (hready : true ∈ readyIn story) (hexit : .exit ∉ quantaIn story) :
    ∃ context shape first rounds, machine.world.contextShape? context = some shape ∧
      Continuing context shape first rounds operation story := by
  obtain ⟨happening, hmem, hheard⟩ := List.mem_filterMap.mp hready
  obtain ⟨made, context, shape, told, left, last, rfl, hmem, hquiet, hshape, hreads, hreaches,
    hreturns, _⟩ := (Machine.runs_of_run? hrun).ran_context hruns hown hmem
      (Or.inl (by simp [hheard]))
  obtain ⟨first, intake, late, count, hintake, rfl, _, hlate⟩ :=
    opening_of_ready hreads hreaches (List.mem_filterMap.mpr ⟨_, hmem, hheard⟩)
  obtain ⟨hmade, hlast⟩ := List.forall_mem_append.mp hquiet
  have hquanta : quantaIn (made ++ (opening context shape intake true ++ late ++ last)) =
      quantaIn late := by
    simp [(told_of_preliminary hmade).2.1, (told_of_preliminary hlast).2.1,
      (opening_told true hintake).2.1]
  rw [hquanta] at hexit
  rcases pending_of_reaches (fun seen hread => hreads seen (List.mem_append_right _ hread)) hlate
    with ⟨rounds, laps, after, hlaps, rfl, _⟩ | ⟨⟨rounds, hpending⟩, hrest⟩
  · refine absurd (List.mem_filterMap.mpr ?_) hexit
    exact ⟨.answered (.runQuantum shape.manager) (.ok .exit), by simp [turn], rfl⟩
  · refine ⟨context, shape, first, rounds, hshape, hquanta ▸ hpending.quanta,
      ⟨made, intake, count, late, last, rfl, hintake, hpending, hquiet⟩, ?_⟩
    exact fun value hfinished => hrest () (hreturns value hfinished)

/-- A context is run for its manager in one order, whatever the manager answers and whatever its
callbacks do meanwhile; and it is run until the manager exits, if nothing fails. -/
theorem conducts_of_run? (hrun : (Machine.idle {} count).run? moves = some (machine, history))
    (hruns : operation.runsContext)
    (hown : (Journal.ofHistory history).own number = .started operation :: story) :
    (.exit ∈ quantaIn story →
      ∃ context shape first rounds, machine.world.contextShape? context = some shape ∧
        Conducted context shape first rounds number story history) ∧
    (false ∈ readyIn story →
      ∃ context shape first, machine.world.contextShape? context = some shape ∧
        Turned shape first number operation story machine history) ∧
    (true ∈ readyIn story → .exit ∉ quantaIn story →
      ∃ context shape first rounds, machine.world.contextShape? context = some shape ∧
        Continuing context shape first rounds operation story) ∧
    ∀ value, true ∈ readyIn story → .finished operation (.ok value) ∈ story →
      .exit ∈ quantaIn story := by
  refine ⟨conducted_of_exit hrun hruns hown, turned_of_ready hrun hruns hown,
    continuing_of_ready hrun hruns hown, fun value hready hfinished => ?_⟩
  by_contra hexit
  obtain ⟨_, _, _, _, _, hcontinuing⟩ := continuing_of_ready hrun hruns hown hready hexit
  exact hcontinuing.unreturned value hfinished

end

open Schedule

/-- A manager has no threads at first.  When there is one, the context is run again: a second thread
is created while the first is handed over, a third in the first quantum, a fourth while the third is
handed over, and a fifth in the second quantum, which is the last. -/
def refusedThenRun : List (Nat × Move) :=
  inFlow 0 (along (.makeRegistry ⟨0⟩ 1) 2 ++ makingContext ⟨0⟩ .everyQuantum ⟨0⟩ ⟨0⟩ ++
    [Move.start (.run ⟨0⟩)] ++ steps 3 ++ [Move.answer (.hasThreads ⟨0⟩) (.ok false), .finish] ++
    creating ⟨0⟩ ++ [Move.start (.run ⟨0⟩)] ++ steps 5 ++ creating ⟨0⟩ ++
    [Move.answer (.schedule ⟨0⟩ "" ⟨0⟩) (.ok ⟨5⟩)] ++ steps 5 ++
    [Move.answer (.hasThreads ⟨0⟩) (.ok true)] ++ steps 3 ++ creating ⟨0⟩ ++
    [Move.answer (.runQuantum ⟨0⟩) (.ok .proceed)] ++ steps 5 ++
    [Move.answer (.schedule ⟨0⟩ "" ⟨1⟩) (.ok ⟨6⟩)] ++ steps 3 ++ creating ⟨0⟩ ++
    [Move.answer (.schedule ⟨0⟩ "" ⟨2⟩) (.ok ⟨7⟩)] ++ steps 6 ++ creating ⟨0⟩ ++
    [Move.answer (.runQuantum ⟨0⟩) (.ok .exit)] ++ steps 1 ++ [Move.finish])

def startsRun : Happening → Bool
  | .started operation => operation.runsContext
  | _ => false

theorem started_of_startsRun {happenings : List Happening}
    (hstarts : happenings.head?.any startsRun) :
    ∃ operation story, happenings = .started operation :: story ∧ operation.runsContext := by
  cases happenings with
  | nil => cases hstarts
  | cons happening story =>
      cases happening with
      | started operation => exact ⟨operation, story, rfl, hstarts⟩
      | _ => cases hstarts

theorem conducts_refusedThenRun : ∃ machine history turned served refusal story,
    (Machine.idle {} 1).run? refusedThenRun = some (machine, history) ∧
      (Journal.ofHistory history).own 2 = .started turned :: refusal ∧ false ∈ readyIn refusal ∧
        (∃ context shape first, machine.world.contextShape? context = some shape ∧
          Turned shape first 2 turned refusal machine history) ∧
      (Journal.ofHistory history).own 4 = .started served :: story ∧ .exit ∈ quantaIn story ∧
        Registry.DrainedBy ⟨0⟩ 4 history ∧ looksIn ⟨0⟩ story = [[⟨0⟩], [⟨1⟩, ⟨2⟩]] ∧
          ∃ context shape first rounds, machine.world.contextShape? context = some shape ∧
            Conducted context shape first rounds 4 story history := by
  have hsome : ((Machine.idle {} 1).run? refusedThenRun).isSome := by decide +kernel
  obtain ⟨⟨machine, history⟩, hrun⟩ := Option.isSome_iff_exists.mp hsome
  have hstarts : (((Machine.idle {} 1).run? refusedThenRun).map fun outcome =>
      (((Journal.ofHistory outcome.2).own 2).head?.any startsRun,
        ((Journal.ofHistory outcome.2).own 4).head?.any startsRun)) = some (true, true) := by
    decide +kernel
  have hends : (((Machine.idle {} 1).run? refusedThenRun).map fun outcome =>
      (readyIn ((Journal.ofHistory outcome.2).own 2),
        quantaIn ((Journal.ofHistory outcome.2).own 4))) =
          some ([false], [.proceed, .exit]) := by decide +kernel
  have hlooks : (((Machine.idle {} 1).run? refusedThenRun).map fun outcome =>
      (decide (Registry.DrainedBy ⟨0⟩ 4 outcome.2),
        looksIn ⟨0⟩ ((Journal.ofHistory outcome.2).own 4))) =
          some (true, [[⟨0⟩], [⟨1⟩, ⟨2⟩]]) := by decide +kernel
  rw [hrun] at hstarts hends hlooks
  obtain ⟨hturned, hserved⟩ := Prod.mk.inj (Option.some.inj hstarts)
  obtain ⟨hready, hquanta⟩ := Prod.mk.inj (Option.some.inj hends)
  obtain ⟨hdrained, hfound⟩ := Prod.mk.inj (Option.some.inj hlooks)
  obtain ⟨turned, refusal, hrefusal, hruns⟩ := started_of_startsRun hturned
  obtain ⟨served, story, hstory, hruns'⟩ := started_of_startsRun hserved
  rw [hrefusal] at hready
  rw [hstory] at hquanta hfound
  have hnone : false ∈ readyIn refusal := by
    rw [show readyIn refusal = [false] from hready]
    exact List.mem_cons_self
  have hexit : .exit ∈ quantaIn story := by
    rw [show quantaIn story = [.proceed, .exit] from hquanta]
    exact List.mem_cons_of_mem _ List.mem_cons_self
  exact ⟨machine, history, turned, served, refusal, story, hrun, hrefusal, hnone,
    (conducts_of_run? hrun hruns hrefusal).2.1 hnone, hstory, hexit, of_decide_eq_true hdrained,
    hfound, (conducts_of_run? hrun hruns' hstory).1 hexit⟩

end Context

end CoreEngines
