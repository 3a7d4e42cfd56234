import CoreEngines.Proofs.Admission.Once
import CoreEngines.Proofs.Admission.Order
import CoreEngines.Proofs.Admission.Unwinding
import CoreEngines.Proofs.Creation.Lossless
import Mathlib.Data.List.Pairwise

/-!
Handovers.  An admission step that hands a thread to its manager has admitted those before it, and
has those behind it in its hands.  What an operation hands over it has drained itself, and nothing
is drained twice; so nobody else has any of them, and nobody ever gets them.
-/

namespace CoreEngines

namespace Context

/-- An admission step that is handing a thread to its manager. -/
structure Handover where
  operation : Operation
  /-- What the operation had done before this step. -/
  early : List Happening
  context : Ref .context
  shape : ContextShape
  /-- The threads of the batch that were admitted before, -/
  admitted : List (Ref .thread)
  thread : Ref .thread
  /-- and those that come behind. -/
  rest : List (Ref .thread)
  looking : List Happening
  handing : List Happening
  looks : Registry.Looks shape.registry looking (admitted ++ thread :: rest)
  handsOver : HandsOver shape.manager admitted handing

namespace Handover

def made (handover : Handover) : List Happening :=
  handover.early ++ .acted (.context handover.context .shape) handover.shape ::
    (handover.looking ++ handover.handing)

def failing (handover : Handover) (failure : Failure) : Happening :=
  .answered (.schedule handover.shape.manager "" handover.thread) (.error failure)

def lost (handover : Handover) : List (Ref .thread) :=
  handover.thread :: handover.rest

end Handover

end Context

section
variable {start world : World} {history : History} {flows : Nat → Flow} {index number : Nat}
  {happening : Happening} {failure : Failure}

/-- An intake that ends with the failure of a manager was handing a thread over. -/
theorem Context.Intake.spoiled {context : Ref .context} {shape : ContextShape}
    {threads : List (Ref .thread)} {story late : List Happening}
    (hintake : Intake context shape threads story (.error failure))
    (hstory : story = late ++ [happening]) (hspoils : happening.spoils? = some failure) :
    ∃ admitted thread rest looking handing,
      Registry.Looks shape.registry looking (admitted ++ thread :: rest) ∧
        HandsOver shape.manager admitted handing ∧
          late = .acted (.context context .shape) shape :: (looking ++ handing) ∧
            happening = .answered (.schedule shape.manager "" thread) (.error failure) := by
  generalize hresult : (Except.error failure : Except Failure Nat) = result at hintake
  cases hintake with
  | idle hlooks => cases hresult
  | whole hlooks hhandsOver => cases hresult
  | @broken _ looking _ failure' hlooks hhanding =>
      generalize hfails : (Except.error failure' : Except Failure Unit) = outcome at hhanding
      cases hhanding with
      | all hhandsOver => cases hfails
      | refused sched id seen hhandsOver =>
          have hlast := congrArg List.getLast? hstory
          simp only [List.getLast?_cons, List.getLast?_append, Option.some_or, Option.getD_some,
            Option.some.injEq, List.getLast?_nil] at hlast
          subst hlast
          cases hspoils
      | @spoiled admitted rest thread handing _ hhandsOver =>
          cases hresult
          cases hfails
          rw [← List.append_assoc, ← List.cons_append] at hstory
          obtain ⟨rfl, hsame⟩ := List.append_inj' hstory rfl
          exact ⟨admitted, thread, rest, looking, handing, hlooks, hhandsOver, rfl,
            (List.singleton_inj.mp hsame).symm⟩

/-- Whenever a manager fails on a thread, an admission step is handing it over, and unwinds. -/
theorem Runs.handover (hrun : Runs start (history ++ [(index, happening)]) world flows)
    (hspoils : happening.spoils? = some failure) :
    ∃ (handover : Context.Handover) (number : Nat) (numbers : List Nat) (below : Flow),
      (Journal.ofHistory history).running index = number :: numbers ∧
        (Journal.ofHistory history).own number = .started handover.operation :: handover.made ∧
          happening = handover.failing failure ∧
            flows index = ⟨handover.operation, .done (.error failure)⟩ :: below := by
  have hstep : happening.isStep := by
    cases happening with
    | started operation => cases hspoils
    | finished operation result => cases hspoils
    | _ => rfl
  obtain ⟨number, numbers, operation, made, rest, below, hrunning, hrunning', hown, hown', hflow⟩ :=
    hrun.last_step hstep
  obtain rfl := hrun.unwound hflow hrunning' hown' hspoils
  obtain ⟨early, context, late, rfl, htells⟩ := hrun.intake_of_spoiled hown' hspoils
  obtain ⟨shape, threads, hintake⟩ := Context.intake_of_tells htells
  obtain ⟨admitted, thread, rest, looking, handing, hlooks, hhandsOver, rfl, rfl⟩ :=
    hintake.spoiled rfl hspoils
  exact ⟨⟨operation, early, context, shape, admitted, thread, rest, looking, handing, hlooks,
    hhandsOver⟩, number, numbers, below, hrunning, hown, rfl, hflow⟩

end

section
variable {target : Ref .registry} {manager : ManagerRef} {threads : List (Ref .thread)}
  {looking handing : List Happening}

/-- A look that finds threads has drained them. -/
theorem Registry.Looks.drained_of_ne (hlooks : Looks target looking threads)
    (hthreads : threads ≠ []) :
    ∃ (count : Nat) (batch : Array (Ref .thread)), count ≠ 0 ∧ threads = batch.toList ∧
      looking = [.acted (.registry target .peek) count, .acted (.acquire (.roster target)) (),
        .acted (.registry target .detach) batch, .acted (.release (.roster target)) ()] := by
  cases hlooks with
  | unused => exact absurd rfl hthreads
  | drained hcount batch => exact ⟨_, batch, hcount, rfl, rfl⟩

theorem Context.HandsOver.hands (hhandsOver : HandsOver manager threads handing) :
    handedIn handing = threads ∧ drainedIn handing = [] := by
  induction hhandsOver with
  | nil => exact ⟨rfl, rfl⟩
  | cons thread sched id hhandsOver ih =>
      obtain ⟨hhanded, hdrained⟩ := ih
      rw [← hhanded]
      exact ⟨rfl, hdrained⟩

/-- Each of the threads was bound to what the manager answered. -/
theorem Context.HandsOver.bound {thread : Ref .thread}
    (hhandsOver : HandsOver manager threads handing) (hthread : thread ∈ threads) :
    ∃ sched, .answered (.schedule manager "" thread) (.ok sched) ∈ handing ∧
      .acted (.thread thread (.bind sched)) true ∈ handing := by
  induction hhandsOver with
  | nil => cases hthread
  | cons other sched id hhandsOver ih =>
      rcases List.mem_cons.mp hthread with rfl | hthread
      · exact ⟨sched, by simp [handOver], by simp [handOver]⟩
      · obtain ⟨sched', hanswer, hbind⟩ := ih hthread
        exact ⟨sched', List.mem_append_right _ hanswer, List.mem_append_right _ hbind⟩

end

namespace Batch

/-- What an operation has drained it has handed over, or it waits. -/
def Balanced (batch : Batch) : Prop :=
  batch.drained = batch.handed ++ batch.waiting

theorem Balanced.step {batch : Batch} {happening : Happening} (hbalanced : batch.Balanced)
    (hallows : batch.Allows happening) : (batch.observe happening).Balanced := by
  induction happening using Happening.cases_plain with
  | plain happening hplain =>
      rw [Balanced, observe, pass_of_plain hplain]
      exact hbalanced
  | detach registry threads =>
      obtain ⟨hwaiting, _⟩ : batch.Clear := hallows
      simp only [Balanced, hwaiting, List.append_nil] at hbalanced
      simp [Balanced, observe, pass, hbalanced, hwaiting]
  | schedule manager name thread result =>
      obtain ⟨_, _, rest, hwaiting⟩ := hallows
      simp only [Balanced, hwaiting] at hbalanced
      simp [Balanced, observe, pass, hbalanced, hwaiting]
  | _ => exact hbalanced

theorem Balanced.run {batch : Batch} {steps : List Happening} (hbalanced : batch.Balanced)
    (hkeeps : admitting.Keeps batch steps) :
    (steps.foldl admitting.observe batch).Balanced := by
  induction steps generalizing batch with
  | nil => exact hbalanced
  | cons happening steps ih => exact ih (hbalanced.step hkeeps.1) hkeeps.2

theorem Balanced.started {operation : Operation} {steps : List Happening}
    (hkeeps : admitting.Keeps (admitting.start operation) steps) :
    drainedIn (.started operation :: steps) =
      handedIn (.started operation :: steps) ++ (admitting.after operation steps).waiting := by
  have hstart : (Batch.start operation).Balanced := rfl
  have hend := hstart.run hkeeps
  obtain ⟨hdrains, hhands, _⟩ := admitting_foldl (.start operation) steps
  rw [Balanced, hdrains, hhands] at hend
  exact hend

theorem mem_drained_of_waits {operation : Operation} {steps : List Happening}
    {thread : Ref .thread} (hkeeps : admitting.Keeps (admitting.start operation) steps)
    (hwaits : thread ∈ (admitting.after operation steps).waiting) :
    thread ∈ drainedIn (.started operation :: steps) := by
  have hend := Balanced.started hkeeps
  rw [hend]
  exact List.mem_append_right _ hwaits

end Batch

theorem eq_of_mem_flatMap {α β : Type} {entries : List α} {tell : α → List β} {first second : α}
    {told : β} (hnodup : (entries.flatMap tell).Nodup) (hfirst : first ∈ entries)
    (hsecond : second ∈ entries) (htold : told ∈ tell first) (htold' : told ∈ tell second) :
    first = second := by
  by_contra hne
  have : Std.Symm (Function.onFun List.Disjoint tell) :=
    ⟨fun _ _ hdisjoint _ hsecond hfirst => hdisjoint hfirst hsecond⟩
  exact (List.nodup_flatMap.mp hnodup).2.forall hfirst hsecond hne htold htold'

namespace Runs

variable {history : History} {world : World} {flows : Nat → Flow} {number other : Nat}
  {thread : Ref .thread} {sched : SchedRef}

/-- A thread that was bound to a name has it. -/
theorem sched_of_bind (hrun : Runs {} history world flows)
    (hbind : .acted (.thread thread (.bind sched)) true ∈ history.map Prod.snd) :
    world.ledger.sched thread = some sched := by
  revert hbind
  refine hrun.keeps (fun history world => .acted (.thread thread (.bind sched)) true ∈
    history.map Prod.snd → world.ledger.sched thread = some sched) (by simp) ?_
  intro history world happening later index hholds hafter hbind
  obtain ⟨hanswers, hledger⟩ := World.ledger_after hafter
  rw [hledger]
  rw [List.map_append, List.mem_append, List.map_singleton, List.mem_singleton] at hbind
  rcases hbind with hbind | rfl
  · exact Ledger.record_sched hanswers (hholds hbind)
  · exact Function.update_self ..

/-- An operation hands over what it has drained, in this order; the rest waits. -/
theorem handed_prefix (hrun : Runs {} history world flows) (number : Nat) :
    handedIn ((Journal.ofHistory history).own number) <+:
      drainedIn ((Journal.ofHistory history).own number) := by
  have haccount := (hrun.account admitting_obeyed admissions_upholds).1
  have hbalanced : ∀ operation steps, admitting.Keeps (admitting.start operation) steps →
      handedIn (.started operation :: steps) <+: drainedIn (.started operation :: steps) := by
    intro operation steps hkeeps
    rw [Batch.Balanced.started hkeeps]
    exact List.prefix_append _ _
  by_cases hnumber : number < (Journal.ofHistory history).started
  · obtain ⟨operation, steps, _, hkeeps, hown | ⟨result, hown, _⟩⟩ := haccount.story hnumber
    · rw [hown]
      exact hbalanced operation steps hkeeps
    · rw [hown, ← List.cons_append, drainedIn_concat, handedIn_concat]
      simp only [Happening.drains, Happening.hands, List.append_nil]
      exact hbalanced operation steps hkeeps
  · rw [Journal.own_eq_nil haccount.sound (Nat.le_of_not_lt hnumber)]
    exact List.nil_prefix

/-- What was drained is not staged any more. -/
theorem unstaged_of_drained (hrun : Runs {} history world flows)
    (hthread : thread ∈ drainedIn (history.map Prod.snd)) (registry : Ref .registry) :
    thread ∉ world.ledger.staged registry := by
  intro hstaged
  obtain ⟨happening, hmem, hdrains⟩ := List.mem_flatMap.mp hthread
  unfold Happening.drains at hdrains
  split at hdrains
  case h_1 source threads =>
    have hlisted := hrun.mem_roster_of_detach hmem hdrains
    have hstill : thread ∈ world.ledger.roster registry := by
      rw [← hrun.taken registry]
      exact List.mem_append_right _ hstaged
    obtain rfl := hrun.roster_apart hlisted hstill
    have hnodup := hrun.roster_nodup source
    rw [← hrun.taken source] at hnodup
    have htaken : thread ∈ takenIn source (history.map Prod.snd) :=
      List.mem_flatMap.mpr ⟨_, hmem, by simpa [Happening.taken] using hdrains⟩
    exact List.disjoint_of_nodup_append hnodup htaken hstaged
  case h_2 => cases hdrains

/-- No thread is drained twice. -/
theorem drained_nodup (hrun : Runs {} history world flows) :
    (drainedIn (history.map Prod.snd)).Nodup := by
  refine hrun.grows (fun history _ => (drainedIn (history.map Prod.snd)).Nodup) List.nodup_nil ?_
  intro history world flows later flows' happening index number hrun hnext hafter hgains hnodup
  rw [List.map_append, List.map_singleton, drainedIn_concat]
  change (_ ++ happening.drains).Nodup
  unfold Happening.drains
  split
  case h_1 registry threads =>
    have hanswers : threads.toList = world.ledger.staged registry := (World.ledger_after hafter).1
    have hlisted := hrun.roster_nodup registry
    rw [← hrun.taken registry] at hlisted
    rw [hanswers]
    exact hnodup.append hlisted.of_append_right fun thread hdrained hstaged =>
      hrun.unstaged_of_drained hdrained registry hstaged
  case h_2 => rwa [List.append_nil]

theorem flatMap_entries {β : Type} (hrun : Runs {} history world flows)
    (tell : Happening → List β) :
    (Journal.ofHistory history).entries.flatMap (fun entry => tell entry.2) =
      (history.map Prod.snd).flatMap tell := by
  rw [← hrun.journal.2, List.flatMap_map]

/-- A thread on a roster has been made. -/
theorem made_of_listed {registry : Ref .registry} (hrun : Runs {} history world flows)
    (hthread : thread ∈ world.ledger.roster registry) : thread.index < world.ledger.made := by
  have hplace : thread ∈ ThreadPlace.contents world.ledger (admitting.standing (.ofHistory history))
      (.listed registry) := hthread
  exact hrun.sorted.known hplace

/-- Whatever happened, an operation did it. -/
theorem doer_of_mem {happening : Happening} (hrun : Runs {} history world flows)
    (hmem : happening ∈ history.map Prod.snd) :
    ∃ number, happening ∈ (Journal.ofHistory history).own number := by
  rw [← hrun.journal.2] at hmem
  obtain ⟨⟨number, told⟩, hentry, rfl⟩ := List.mem_map.mp hmem
  exact ⟨number, List.mem_filterMap.mpr ⟨_, hentry, if_pos rfl⟩⟩

/-- No two operations drain the same thread, -/
theorem drainer_eq (hrun : Runs {} history world flows)
    (hnumber : thread ∈ drainedIn ((Journal.ofHistory history).own number))
    (hother : thread ∈ drainedIn ((Journal.ofHistory history).own other)) : number = other := by
  have hentry : ∀ {number}, thread ∈ drainedIn ((Journal.ofHistory history).own number) →
      ∃ happening, (number, happening) ∈ (Journal.ofHistory history).entries ∧
        thread ∈ happening.drains := by
    intro number hthread
    obtain ⟨happening, hown, hdrains⟩ := List.mem_flatMap.mp hthread
    obtain ⟨⟨doer, told⟩, hentry, hsome⟩ := List.mem_filterMap.mp hown
    obtain ⟨rfl, htold⟩ := Option.ite_none_right_eq_some.mp hsome
    cases htold
    exact ⟨told, hentry, hdrains⟩
  obtain ⟨first, hfirst, hdrains⟩ := hentry hnumber
  obtain ⟨second, hsecond, hdrains'⟩ := hentry hother
  have hnodup := hrun.drained_nodup
  rw [drainedIn, ← hrun.flatMap_entries] at hnodup
  exact congrArg Prod.fst (eq_of_mem_flatMap hnodup hfirst hsecond hdrains hdrains')

/-- and none drains it twice. -/
theorem own_drained_nodup (hrun : Runs {} history world flows) (number : Nat) :
    (drainedIn ((Journal.ofHistory history).own number)).Nodup := by
  refine hrun.drained_nodup.sublist ?_
  rw [drainedIn, drainedIn, ← hrun.journal.2]
  exact (Journal.own_sublist _ number).flatMap Happening.drains

end Runs

end CoreEngines
