import CoreEngines.Proofs.Admission.Resumption
import CoreEngines.Proofs.Identity.Counters

/-!
Failed handovers.  When a manager fails on a thread of a batch, the threads before it have been
admitted, and this one and those behind it are lost to all managers: they stay on the roster without
a name, and nobody gets them again.  Threads that are created later are admitted as ever.
-/

namespace CoreEngines

/-- Whoever runs in a flow keeps to both of two disciplines. -/
theorem accounts_of_mem {σ τ : Type} {first : Discipline σ} {second : Discipline τ}
    {journal : Journal} {flows : Nat → Flow} {index : Nat} {activation : Activation}
    (hfirst : first.Account journal flows) (hsecond : second.Account journal flows)
    (hmem : activation ∈ flows index) :
    ∃ number, first.Accounts journal number activation ∧
      second.Accounts journal number activation := by
  have hboth : ∀ {numbers : List Nat} {flow : Flow},
      List.Forall₂ (first.Accounts journal) numbers flow →
        List.Forall₂ (second.Accounts journal) numbers flow → activation ∈ flow →
          ∃ number, first.Accounts journal number activation ∧
            second.Accounts journal number activation := by
    intro numbers flow haccounts haccounts' hmem
    induction haccounts with
    | nil => cases hmem
    | @cons number other numbers flow hhead htail ih =>
        cases haccounts' with
        | cons hhead' htail' =>
            rcases List.mem_cons.mp hmem with rfl | hmem
            · exact ⟨number, hhead, hhead'⟩
            · exact ih htail' hmem
  exact hboth (hfirst.running index) (hsecond.running index) hmem

namespace Context.Handover

variable {handover : Handover} {history before happened : History} {world : World}
  {flows : Nat → Flow} {index number other : Nat} {after : List Happening} {failure : Failure}
  {thread : Ref .thread}

/-- The batch of a handover was drained in one step. -/
theorem made_eq (handover : Handover) :
    ∃ (count : Nat) (batch : Array (Ref .thread)), count ≠ 0 ∧
      batch.toList = handover.admitted ++ handover.lost ∧
        handover.made = (handover.early ++
          [Happening.acted (.context handover.context .shape) handover.shape,
            .acted (.registry handover.shape.registry .peek) count,
            .acted (.acquire (.roster handover.shape.registry)) ()]) ++
          .acted (.registry handover.shape.registry .detach) batch ::
            .acted (.release (.roster handover.shape.registry)) () :: handover.handing := by
  obtain ⟨count, batch, hcount, hbatch, hlooking⟩ := handover.looks.drained_of_ne (by simp)
  refine ⟨count, batch, hcount, hbatch.symm, ?_⟩
  rw [made, hlooking]
  simp

theorem handed_made (handover : Handover) :
    handedIn handover.made = handedIn handover.early ++ handover.admitted := by
  obtain ⟨count, batch, _, _, hmade⟩ := handover.made_eq
  rw [hmade, ← handover.handsOver.hands.1]
  simp [handedIn, Happening.hands]

theorem drained_made (handover : Handover) :
    drainedIn handover.made =
      drainedIn handover.early ++ (handover.admitted ++ handover.lost) := by
  obtain ⟨count, batch, _, hbatch, hmade⟩ := handover.made_eq
  have hnone := handover.handsOver.hands.2
  rw [drainedIn] at hnone
  rw [hmade, ← hbatch]
  simp [drainedIn, Happening.drains, hnone]

/-- The threads that are not admitted yet have been drained, and not handed over. -/
theorem lost_apart (hrun : Runs {} history world flows)
    (hown : (Journal.ofHistory history).own number =
      .started handover.operation :: (handover.made ++ after)) :
    handover.lost.Nodup ∧ ∀ thread ∈ handover.lost, thread ∉ handedIn handover.made := by
  have hnodup := hrun.own_drained_nodup number
  have hsplit : drainedIn (.started handover.operation :: (handover.made ++ after)) =
      drainedIn handover.made ++ drainedIn after := by
    simp [drainedIn, Happening.drains]
  rw [hown, hsplit, drained_made] at hnodup
  have hbatch := hnodup.of_append_left
  refine ⟨hbatch.of_append_right.of_append_right, fun thread hthread hhanded => ?_⟩
  rw [handed_made] at hhanded
  rcases List.mem_append.mp hhanded with hearly | hadmitted
  · have hearlier : (Journal.ofHistory history).own number =
        (.started handover.operation :: handover.early) ++
          .acted (.context handover.context .shape) handover.shape ::
            (handover.looking ++ handover.handing ++ after) := by
      rw [hown, made]
      simp
    obtain ⟨_, _, _, rfl, hmoment, _⟩ := hrun.moment_of_own hearlier
    obtain ⟨_, _, hbefore⟩ := hrun.beginning
    have hdrained := hbefore.handed_prefix number
    rw [hmoment] at hdrained
    exact List.disjoint_of_nodup_append hbatch (hdrained.subset hearly)
      (List.mem_append_right _ hthread)
  · exact List.disjoint_of_nodup_append hbatch.of_append_right hadmitted hthread

/-- All threads of the batch are on the roster of its registry. -/
theorem listed (hrun : Runs {} history world flows)
    (hown : (Journal.ofHistory history).own number =
      .started handover.operation :: (handover.made ++ after))
    (hthread : thread ∈ handover.lost) :
    thread ∈ world.ledger.roster handover.shape.registry := by
  obtain ⟨count, batch, _, hbatch, hmade⟩ := handover.made_eq
  have hdetach : .acted (.registry handover.shape.registry .detach) batch ∈
      handover.made ++ after := by
    rw [hmade]
    simp
  refine hrun.mem_roster_of_detach (hrun.mem_history hown hdetach) ?_
  rw [hbatch]
  exact List.mem_append_right _ hthread

theorem mem_drained (hown : (Journal.ofHistory history).own number =
      .started handover.operation :: (handover.made ++ after)) (hthread : thread ∈ handover.lost) :
    thread ∈ drainedIn ((Journal.ofHistory history).own number) := by
  have hmade : thread ∈ drainedIn handover.made := by
    rw [drained_made]
    exact List.mem_append_right _ (List.mem_append_right _ hthread)
  rw [hown]
  obtain ⟨happening, hmem, hdrains⟩ := List.mem_flatMap.mp hmade
  exact List.mem_flatMap.mpr ⟨happening, by simp [hmem], hdrains⟩

/-- The failure is the only time that one of the lost threads is handed over. -/
theorem eq_failing {happening : Happening} (hrun : Runs {} history world flows)
    (hown : (Journal.ofHistory history).own number =
      .started handover.operation :: (handover.made ++ handover.failing failure :: after))
    (hthread : thread ∈ handover.lost) (hother : happening ∈ (Journal.ofHistory history).own other)
    (hhands : thread ∈ happening.hands) :
    thread = handover.thread ∧ happening = handover.failing failure := by
  have hhanded : thread ∈ handedIn ((Journal.ofHistory history).own other) :=
    List.mem_flatMap.mpr ⟨happening, hother, hhands⟩
  obtain rfl := hrun.drainer_eq ((hrun.handed_prefix other).subset hhanded)
    (mem_drained hown hthread)
  have hunhanded := (lost_apart hrun hown).2 thread hthread
  rw [hown] at hother
  rcases List.mem_cons.mp hother with rfl | hother
  · cases hhands
  rcases List.mem_append.mp hother with hmade | hother
  · exact absurd (List.mem_flatMap.mpr ⟨happening, hmade, hhands⟩) hunhanded
  rcases List.mem_cons.mp hother with rfl | hafter
  · exact ⟨List.mem_singleton.mp hhands, rfl⟩
  · rcases hrun.spoiled_last hown rfl with rfl | rfl
    · cases hafter
    · cases List.mem_singleton.mp hafter
      cases hhands

/-- Nobody gets a lost thread once the manager has failed. -/
theorem unhanded
    (hrun : Runs {} (before ++ (index, handover.failing failure) :: happened) world flows)
    (hunforced : Unforced (before ++ (index, handover.failing failure) :: happened))
    (hown : (Journal.ofHistory
      (before ++ (index, handover.failing failure) :: happened)).own number =
        .started handover.operation :: (handover.made ++ handover.failing failure :: after))
    (hthread : thread ∈ handover.lost) : thread ∉ handedIn (happened.map Prod.snd) := by
  intro hlater
  obtain ⟨happening, hmem, hhands⟩ := List.mem_flatMap.mp hlater
  have hhappened : happening ∈
      (before ++ (index, handover.failing failure) :: happened).map Prod.snd := by
    rw [List.map_append, List.map_cons]
    exact List.mem_append_right _ (List.mem_cons_of_mem _ hmem)
  obtain ⟨other, hother⟩ := hrun.doer_of_mem hhappened
  obtain ⟨rfl, -⟩ := eq_failing hrun hown hthread hother hhands
  have hadmissions := (hrun.account admitting_obeyed admissions_upholds).2 hunforced
  have hnodup : (handedIn _).Nodup := hadmissions.sorted.nodup .handed
  rw [List.map_append, List.map_cons, handedIn, List.flatMap_append, List.flatMap_cons] at hnodup
  exact List.disjoint_of_nodup_append hnodup.of_append_right (List.mem_singleton_self _) hlater

/-- A lost thread has no name. -/
theorem unnamed (hrun : Runs {} history world flows) (hunforced : Unforced history)
    (hown : (Journal.ofHistory history).own number =
      .started handover.operation :: (handover.made ++ handover.failing failure :: after))
    (hthread : thread ∈ handover.lost) : world.nameOf? thread = some none := by
  have hlisted := listed hrun hown hthread
  rw [World.nameOf?_eq_none (hrun.made_of_listed hlisted)]
  by_contra hsome
  obtain ⟨sched, hsched⟩ := Option.ne_none_iff_exists'.mp hsome
  obtain ⟨_, hnames, _⟩ := (hrun.account admitting_obeyed admissions_upholds).2 hunforced
  obtain ⟨place, manager, hgiven⟩ := hnames.bound hsched
  obtain ⟨other, hother⟩ := hrun.doer_of_mem (List.mem_map_of_mem hgiven)
  have hfails := (eq_failing hrun hown hthread hother (List.mem_singleton_self _)).2
  cases hfails

/-- No operation waits for the answer to a lost thread. -/
theorem unasked {machine : Machine} (hrun : Runs {} history machine.world machine.flow)
    (hown : (Journal.ofHistory history).own number =
      .started handover.operation :: (handover.made ++ handover.failing failure :: after))
    (hthread : thread ∈ handover.lost) : thread ∉ machine.handing := by
  intro hhanding
  obtain ⟨flow, hflow, hhands⟩ := List.mem_flatMap.mp hhanding
  obtain ⟨activation, hmem, hhands⟩ := List.mem_flatMap.mp hhands
  obtain ⟨place, hplace⟩ := List.mem_iff_getElem?.mp hflow
  have hmem' : activation ∈ machine.flow place := by
    rw [Machine.flow, Array.getD_eq_getD_getElem?, ← Array.getElem?_toList, hplace]
    exact hmem
  have hadmits := (hrun.account admitting_obeyed admissions_upholds).1
  have hunwinds := (hrun.account unwinding_obeyed unwinding_upholds).1
  obtain ⟨other, ⟨steps, hsteps, _, hkeeps, hensures⟩, ⟨steps', hsteps', hrunning, _, hends⟩⟩ :=
    accounts_of_mem hadmits hunwinds hmem'
  have hwaits : thread ∈ (admitting.after activation.operation steps).waiting :=
    List.mem_of_mem_take ((Program.handing_sublist hensures).subset hhands)
  have hdrained : thread ∈ drainedIn ((Journal.ofHistory history).own other) := by
    rw [hsteps]
    exact Batch.mem_drained_of_waits hkeeps hwaits
  obtain rfl := hrun.drainer_eq hdrained (mem_drained hown hthread)
  obtain ⟨_, rfl⟩ := List.cons.inj (hsteps'.symm.trans hown)
  have hlast : after = [] := by
    refine (hrun.spoiled_last hown rfl).resolve_right fun hfinished => ?_
    have hstep := hrunning (.finished handover.operation (.error failure)) (by simp [hfinished])
    cases hstep
  have hspoiled : unwinding.after activation.operation
      (handover.made ++ handover.failing failure :: after) = some failure := by
    rw [hlast, Discipline.after_concat]
    rfl
  rw [hspoiled] at hends
  obtain ⟨result, hdone, _⟩ := hends.done_of_stuck fun _ => ⟨trivial, fun hnone => by cases hnone⟩
  rw [hdone] at hhands
  cases hhands

end Context.Handover

/-- What a failing manager leaves behind. -/
structure Context.Handover.Leaves (handover : Handover) (number : Nat) (registry : Registry)
    (machine : Machine) (history : History) : Prop where
  found : machine.world.registryAt? handover.shape.registry = some registry
  /-- The threads before the failure have the names that the manager gave them, -/
  named : ∀ thread ∈ handover.admitted, ∃ sched,
    .answered (.schedule handover.shape.manager "" thread) (.ok sched) ∈ handover.handing ∧
      machine.world.nameOf? thread = some (some sched)
  /-- and the others none. -/
  unnamed : ∀ thread ∈ handover.lost, machine.world.nameOf? thread = some none
  /-- The roster lists the threads that were created, -/
  recorded : registry.roster.toList =
    enrolledIn handover.shape.registry (history.map Prod.snd)
  /-- their number is published, unless a creator has still to do so, -/
  counted : .roster handover.shape.registry ∉ machine.world.held →
    registry.count = registry.roster.size
  /-- and the counter stands where the creators have brought it. -/
  serials : ∃ first count,
    machine.world.counterAt? registry.counter = some ⟨Serial.after^[count] first⟩ ∧
      serialsIn registry.counter (history.map Prod.snd) = Serial.row first count
  /-- The batch was drained in one step.  What was put on record since then was taken by others, or
  is staged. -/
  staged : ∃ before place batch since,
    history = before ++ (place, .acted (.registry handover.shape.registry .detach) batch) :: since ∧
      (Journal.ofHistory before).Gains (Journal.ofHistory (before ++
        [(place, .acted (.registry handover.shape.registry .detach) batch)])) number
          (.acted (.registry handover.shape.registry .detach) batch) ∧
        batch.toList = handover.admitted ++ handover.lost ∧
          takenIn handover.shape.registry (since.map Prod.snd) ++ registry.pending.toList =
            enrolledIn handover.shape.registry (since.map Prod.snd)

/-- What is true of the lost threads from the failure on. -/
structure Context.Handover.Loses (handover : Handover) (machine : Machine)
    (happened : History) : Prop where
  listed : ∀ thread ∈ handover.lost, ∃ registry,
    machine.world.registryAt? handover.shape.registry = some registry ∧ thread ∈ registry.roster
  unstaged : ∀ thread ∈ handover.lost, ∀ place registry,
    machine.world.registryAt? place = some registry → thread ∉ registry.pending
  unhanded : ∀ thread ∈ handover.lost, thread ∉ handedIn (happened.map Prod.snd) ++ machine.handing
  unnamed : ∀ thread ∈ handover.lost, machine.world.nameOf? thread = some none

/-- How admissions from a registry go on after a failure. -/
structure Registry.Resumes (target : Ref .registry) (before : History) (machine : Machine)
    (happened : History) : Prop where
  /-- An admission that returns a count has admitted all that was staged. -/
  admits : ∀ {number context shape story count}, (Journal.ofHistory before).started ≤ number →
    machine.world.contextShape? context = some shape → shape.registry = target →
      (Journal.ofHistory (before ++ happened)).own number =
        .started (.admitStaged context) :: story →
          .finished (.admitStaged context) (.ok count) ∈ story →
            ∃ threads, count = threads.length ∧
              Admitted target number story machine.world (before ++ happened) threads
  /-- One that fails does so because its manager has failed. -/
  fails : ∀ {number context story failure},
    (Journal.ofHistory (before ++ happened)).own number =
      .started (.admitStaged context) :: story →
        .finished (.admitStaged context) (.error failure) ∈ story →
          ∃ happening ∈ story, happening.spoils? = some failure
  /-- A flow that may start an admission can bring it to its end, whatever names the manager
  gives, while the lock of the roster is free. -/
  completes : ∀ {place flow context shape registry} (names : Ref .thread → SchedRef),
    machine.flows[place]? = some flow → flow.all (·.isAsking) →
      machine.world.contextShape? context = some shape → shape.registry = target →
        machine.world.registryAt? target = some registry → .roster target ∉ machine.world.held →
          ∃ moves later steps, machine.run? moves = some (⟨later, machine.flows⟩,
              (Happening.started (.admitStaged context) ::
                (steps ++ [.finished (.admitStaged context) (.ok registry.pending.size)])).map
                  fun happening => (place, happening)) ∧
            later.registryAt? target = some { registry with pending := #[] } ∧
              ∀ thread ∈ registry.pending, later.nameOf? thread = some (some (names thread))

/-- What the failure of a manager on a thread comes to. -/
structure Context.Handover.Fails (handover : Handover) (number index : Nat) (failure : Failure)
    (machine failed : Machine) (history : History) : Prop where
  /-- An admission step was handing the thread over, -/
  own : (Journal.ofHistory history).own number = .started handover.operation :: handover.made
  /-- and unwinds. -/
  unwinds : ∃ below, failed.flow index = ⟨handover.operation, .done (.error failure)⟩ :: below
  kept : failed.world = machine.world
  leaves : ∃ registry, handover.Leaves number registry failed
    (history ++ [(index, handover.failing failure)])
  loses : ∀ {moves later happened}, failed.run? moves = some (later, happened) →
    Unforced happened → handover.Loses later happened
  resumes : ∀ {moves later happened}, failed.run? moves = some (later, happened) →
    Unforced happened → Registry.Resumes handover.shape.registry
      (history ++ [(index, handover.failing failure)]) later happened

/-- What was put on record since a registry was drained was taken by others, or is staged. -/
theorem Runs.taken_since {before since : History} {world : World} {flows : Nat → Flow}
    {target : Ref .registry} {place : Nat} {batch : Array (Ref .thread)}
    (hrun : Runs {} (before ++ (place, .acted (.registry target .detach) batch) :: since) world
      flows) :
    takenIn target (since.map Prod.snd) ++ world.ledger.staged target =
      enrolledIn target (since.map Prod.snd) := by
  obtain ⟨past, _, later, _, _, hlater, hafter, _⟩ := hrun.turn
  have hempty : later.ledger.staged target = [] := by
    rw [(World.ledger_after hafter).2]
    exact Function.update_self ..
  have hdrained := hlater.taken target
  have htaken := hrun.taken target
  rw [hempty, List.append_nil, hlater.roster] at hdrained
  rw [hrun.roster, List.append_cons, List.map_append] at htaken
  generalize (before ++ [(place, Happening.acted (.registry target .detach) batch)]).map Prod.snd =
    made at hdrained htaken
  rw [takenIn, List.flatMap_append, enrolledIn, List.filterMap_append, List.append_assoc] at htaken
  rw [takenIn, enrolledIn] at hdrained
  rw [hdrained] at htaken
  exact List.append_cancel_left htaken

namespace Context.Handover

variable {handover : Handover} {history happened : History} {index number : Nat}
  {failure : Failure} {machine failed later : Machine} {after : List Happening}
  {moves : List (Nat × Move)}

theorem loses (hrun : Runs {} (history ++ (index, handover.failing failure) :: happened)
      machine.world machine.flow)
    (hunforced : Unforced (history ++ (index, handover.failing failure) :: happened))
    (hown : (Journal.ofHistory
        (history ++ (index, handover.failing failure) :: happened)).own number =
      .started handover.operation :: (handover.made ++ handover.failing failure :: after)) :
    handover.Loses machine happened := by
  refine ⟨?_, ?_, ?_, ?_⟩
  · exact fun thread hthread => World.mem_roster.mp (listed hrun hown hthread)
  · intro thread hthread place registry hregistry hpending
    have hdrained := mem_drained hown hthread
    obtain ⟨happening, hmem, hdrains⟩ := List.mem_flatMap.mp hdrained
    have hmem' := Journal.mem_of_own hmem
    rw [hrun.journal.2] at hmem'
    refine hrun.unstaged_of_drained (List.mem_flatMap.mpr ⟨happening, hmem', hdrains⟩) place ?_
    simpa [World.ledger, hregistry] using hpending
  · intro thread hthread hmem
    rcases List.mem_append.mp hmem with hhanded | hhanding
    · exact unhanded hrun hunforced hown hthread hhanded
    · exact unasked hrun hown hthread hhanding
  · exact fun thread hthread => unnamed hrun hunforced hown hthread

theorem leaves {registry : Registry}
    (hrun : Runs {} (history ++ [(index, handover.failing failure)]) machine.world machine.flow)
    (hunforced : Unforced (history ++ [(index, handover.failing failure)]))
    (hown : (Journal.ofHistory (history ++ [(index, handover.failing failure)])).own number =
      .started handover.operation :: (handover.made ++ handover.failing failure :: after))
    (hregistry : machine.world.registryAt? handover.shape.registry = some registry) :
    handover.Leaves number registry machine (history ++ [(index, handover.failing failure)]) := by
  have hroster := World.ledger_roster hregistry
  have hmade : ∀ happening ∈ handover.made,
      happening ∈ (history ++ [(index, handover.failing failure)]).map Prod.snd :=
    fun happening hmem => hrun.mem_history hown (List.mem_append_left _ hmem)
  refine ⟨hregistry, ?_, fun _ => unnamed hrun hunforced hown, ?_, ?_, ?_, ?_⟩
  · intro thread hthread
    obtain ⟨sched, hanswer, hbind⟩ := handover.handsOver.bound hthread
    refine ⟨sched, hanswer, World.nameOf?_eq_some.mpr (hrun.sched_of_bind (hmade _ ?_))⟩
    simp [made, hbind]
  · rw [← hroster, hrun.roster]
  · intro hfree
    obtain ⟨_, hkept⟩ := hrun.account keeping_obeyed kept_upholds
    simpa [World.tally, hregistry] using hkept.published hfree
  · have hshape : machine.world.registryShape? handover.shape.registry = some registry.shape := by
      rw [World.registryShape?, hregistry]
      rfl
    exact hrun.counter_of_registry hshape
  · obtain ⟨count, batch, _, hbatch, hmade⟩ := handover.made_eq
    rw [hmade, List.append_assoc, ← List.cons_append] at hown
    obtain ⟨before, place, since, hhistory, _, hgains, _⟩ := hrun.drained_all hown
    refine ⟨before, place, batch, since, hhistory, hgains, hbatch, ?_⟩
    rw [hhistory] at hrun
    have hsince := hrun.taken_since
    rwa [show machine.world.ledger.staged handover.shape.registry = registry.pending.toList by
      simp [World.ledger, hregistry]] at hsince

theorem resumes
    (hrun : Runs {} (history ++ (index, handover.failing failure) :: happened)
      machine.world machine.flow)
    (hunforced : Unforced (history ++ (index, handover.failing failure) :: happened))
    (hown : (Journal.ofHistory history).own number =
      .started handover.operation :: handover.made) :
    Registry.Resumes handover.shape.registry (history ++ [(index, handover.failing failure)])
      machine happened := by
  obtain ⟨_, _, hbefore⟩ := hrun.beginning
  obtain ⟨seen, batch, hseen, _, hmade⟩ := handover.made_eq
  have hpeek : .acted (.registry handover.shape.registry .peek) seen ∈ handover.made := by
    rw [hmade]
    simp
  obtain ⟨length, hpublish⟩ :=
    hbefore.published_of_peek (hbefore.mem_history hown hpeek) hseen
  have hpublished : .acted (.registry handover.shape.registry (.publish length)) () ∈
      (history ++ [(index, handover.failing failure)]).map Prod.snd := by
    rw [List.map_append]
    exact List.mem_append_left _ hpublish
  rw [List.append_cons] at hrun hunforced
  refine ⟨?_, ?_, ?_⟩
  · intro number context shape story count hnumber hshape hregistry hstory hfinished
    rw [← hregistry] at hpublished ⊢
    exact hrun.admitted_of_finished hpublished hnumber hshape hstory hfinished
  · intro number context story failure hstory hfinished
    exact hrun.spoiled_of_finished hunforced hstory hfinished
  · intro place flow context shape registry names hflow hasking hshape htarget hregistry hfree
    rw [← htarget] at hregistry hfree ⊢
    exact Machine.admission_completes names hrun hunforced hflow hasking hshape hregistry hfree

end Context.Handover

/-- A callback that answers changes nothing in the world. -/
theorem Machine.answered_of_move? {machine machine' : Machine} {index : Nat}
    {callback : Callback} {result : Except Failure callback.Answer} {happening : Happening}
    (hmove : machine.move? index (.answer callback result) = some (machine', happening)) :
    happening = .answered callback result ∧ machine'.world = machine.world := by
  obtain ⟨flow, _, hflow⟩ := Option.bind_eq_some_iff.mp hmove
  obtain ⟨⟨world, flow', happening'⟩, hmoved, heq⟩ := Option.map_eq_some_iff.mp hflow
  cases heq
  unfold Flow.move? at hmoved
  dsimp only at hmoved
  split at hmoved
  · split at hmoved
    · cases hmoved
      exact ⟨rfl, rfl⟩
    · cases hmoved
  · cases hmoved

/-- A manager that fails on a thread in the middle of a batch loses this thread and those behind it,
and nothing else. -/
theorem Context.fails_of_run? {count : Nat} {moves : List (Nat × Move)} {machine failed : Machine}
    {history : History} {index : Nat} {manager : ManagerRef} {name : String}
    {thread : Ref .thread} {failure : Failure} {happening : Happening}
    (hrun : (Machine.idle {} count).run? moves = some (machine, history))
    (hunforced : Unforced history)
    (hfails : machine.move? index (.answer (.schedule manager name thread) (.error failure)) =
      some (failed, happening)) :
    ∃ (handover : Handover) (number : Nat), happening = handover.failing failure ∧
      handover.Fails number index failure machine failed history := by
  have hruns := Machine.runs_move? (Machine.runs_of_run? hrun) hfails
  obtain ⟨hanswered, hkept⟩ := Machine.answered_of_move? hfails
  have hspoils : happening.spoils? = some failure := by
    rw [hanswered]
    rfl
  have hcontinued : ∀ {happened : History}, Unforced happened →
      Unforced (history ++ (index, happening) :: happened) := by
    intro happened hlater entry hentry
    rcases List.mem_append.mp hentry with hentry | hentry
    · exact hunforced entry hentry
    rcases List.mem_cons.mp hentry with rfl | hentry
    · rw [hanswered]
      rfl
    · exact hlater entry hentry
  obtain ⟨handover, number, numbers, below, hrunning, hown, rfl, hflow⟩ := hruns.handover hspoils
  have hown' : (Journal.ofHistory (history ++ [(index, handover.failing failure)])).own number =
      .started handover.operation :: (handover.made ++ [handover.failing failure]) := by
    rw [Journal.ofHistory_concat, Journal.own_add_step rfl hrunning, Function.update_self, hown]
    rfl
  have hlater : ∀ {moves later happened}, failed.run? moves = some (later, happened) →
      Runs {} (history ++ (index, handover.failing failure) :: happened) later.world later.flow ∧
        ∃ after, (Journal.ofHistory
          (history ++ (index, handover.failing failure) :: happened)).own number =
            .started handover.operation ::
              (handover.made ++ handover.failing failure :: after) := by
    intro moves later happened hmoves
    have hcontinues := Machine.runs_run? hruns hmoves
    rw [List.append_cons]
    refine ⟨hcontinues, ?_⟩
    obtain ⟨after, hafter⟩ := Journal.own_continues
      (history ++ [(index, handover.failing failure)]) happened number
    refine ⟨after, ?_⟩
    rw [← hafter, hown']
    simp
  refine ⟨handover, number, rfl, hown, ⟨below, hflow⟩, hkept, ?_, ?_, ?_⟩
  · have hlisted := Handover.listed hruns hown' List.mem_cons_self
    obtain ⟨registry, hregistry, _⟩ := World.mem_roster.mp hlisted
    exact ⟨registry, Handover.leaves hruns (hcontinued (by simp [Unforced])) hown' hregistry⟩
  · intro moves later happened hmoves hafter
    obtain ⟨hcontinues, after, hstory⟩ := hlater hmoves
    exact Handover.loses hcontinues (hcontinued hafter) hstory
  · intro moves later happened hmoves hafter
    exact Handover.resumes (hlater hmoves).1 (hcontinued hafter) hown

namespace Context

open Schedule

/-- A context hands over the second of three threads.  Meanwhile two more are created, and the first
of these is admitted. -/
def halfAdmitted : List (Nat × Move) :=
  inFlow 0 (along (.makeRegistry ⟨0⟩ 1) 2 ++ makingContext ⟨0⟩ .everyQuantum ⟨0⟩ ⟨0⟩ ++
    creating ⟨0⟩ ++ creating ⟨0⟩ ++ creating ⟨0⟩ ++ [Move.start (.admitStaged ⟨0⟩)] ++ steps 5 ++
    [Move.answer (.schedule ⟨0⟩ "" ⟨0⟩) (.ok ⟨5⟩)] ++ steps 3 ++
    creating ⟨0⟩ ++ [Move.start (.admitStaged ⟨0⟩)] ++ steps 5 ++
    [Move.answer (.schedule ⟨0⟩ "" ⟨3⟩) (.ok ⟨6⟩)] ++ steps 4 ++ [Move.finish] ++ creating ⟨0⟩)

/-- After the manager has failed, the context admits what is staged. -/
def laterAdmission : List (Nat × Move) :=
  inFlow 0 ([Move.finish, .start (.admitStaged ⟨0⟩)] ++ steps 5 ++
    [Move.answer (.schedule ⟨0⟩ "" ⟨4⟩) (.ok ⟨7⟩)] ++ steps 4 ++ [Move.finish])

theorem fails_halfAdmitted : ∃ machine history failed happening later happened handover number,
    (Machine.idle {} 1).run? halfAdmitted = some (machine, history) ∧ Unforced history ∧
      machine.move? 0 (.answer (.schedule ⟨0⟩ "" ⟨1⟩) (.error (.foreign "gone"))) =
        some (failed, happening) ∧
        failed.run? laterAdmission = some (later, happened) ∧ Unforced happened ∧
          later.world.threads.toList.map (·.sched) =
              [some ⟨5⟩, none, none, some ⟨6⟩, some ⟨7⟩] ∧
            happening = Handover.failing handover (.foreign "gone") ∧
              handover.Fails number 0 (.foreign "gone") machine failed history := by
  have hsome : ((Machine.idle {} 1).run? halfAdmitted).isSome := by decide +kernel
  obtain ⟨⟨machine, history⟩, hrun⟩ := Option.isSome_iff_exists.mp hsome
  have hfails : (((Machine.idle {} 1).run? halfAdmitted).bind fun outcome => outcome.1.move? 0
      (.answer (.schedule ⟨0⟩ "" ⟨1⟩) (.error (.foreign "gone")))).isSome := by decide +kernel
  have hgoes : (((Machine.idle {} 1).run? halfAdmitted).bind fun outcome => (outcome.1.move? 0
      (.answer (.schedule ⟨0⟩ "" ⟨1⟩) (.error (.foreign "gone")))).bind fun failed =>
        failed.1.run? laterAdmission).isSome := by decide +kernel
  have hfits : ((Machine.idle {} 1).run? halfAdmitted).map (fun outcome =>
      decide (Unforced outcome.2)) = some true := by decide +kernel
  have hends : (((Machine.idle {} 1).run? halfAdmitted).bind fun outcome => (outcome.1.move? 0
      (.answer (.schedule ⟨0⟩ "" ⟨1⟩) (.error (.foreign "gone")))).bind fun failed =>
        (failed.1.run? laterAdmission).map fun ending =>
          (decide (Unforced ending.2), ending.1.world.threads.toList.map (·.sched))) =
            some (true, [some ⟨5⟩, none, none, some ⟨6⟩, some ⟨7⟩]) := by decide +kernel
  rw [hrun] at hfails hgoes hfits hends
  obtain ⟨⟨failed, happening⟩, hmove⟩ := Option.isSome_iff_exists.mp hfails
  replace hmove : machine.move? 0 (.answer (.schedule ⟨0⟩ "" ⟨1⟩) (.error (.foreign "gone"))) =
    some (failed, happening) := hmove
  rw [Option.bind_some, hmove, Option.bind_some] at hgoes hends
  obtain ⟨⟨later, happened⟩, hlater⟩ := Option.isSome_iff_exists.mp hgoes
  rw [hlater] at hends
  obtain ⟨hafter, hnames⟩ := Prod.mk.inj (Option.some.inj hends)
  have hunforced : Unforced history := of_decide_eq_true (Option.some.inj hfits)
  obtain ⟨handover, number, hfailing, hcomes⟩ := fails_of_run? hrun hunforced hmove
  exact ⟨machine, history, failed, happening, later, happened, handover, number, hrun, hunforced,
    hmove, hlater, of_decide_eq_true hafter, hnames, hfailing, hcomes⟩

end Context

end CoreEngines
