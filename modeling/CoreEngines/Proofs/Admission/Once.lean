import CoreEngines.Proofs.Admission.Stories
import CoreEngines.Proofs.Schedules
import Mathlib.Data.List.Flatten

/-!
Admission happens once.  However callbacks come back into the engines, every thread is handed to a
manager once and gets the name that this manager gave it, and between admissions the threads
without a name are those that are staged.
-/

namespace CoreEngines

def Program.handing {α : Type} : Program α → List (Ref .thread)
  | .ask (.schedule _ _ thread) _ => [thread]
  | _ => []

def Machine.handing (machine : Machine) : List (Ref .thread) :=
  machine.flows.toList.flatMap fun flow => flow.flatMap fun activation => activation.rest.handing

/-- No operation is in the middle of an admission. -/
def Settled (history : History) : Prop :=
  ∀ index, ∀ number ∈ (Journal.ofHistory history).running index,
    engagedIn ((Journal.ofHistory history).own number) = false

theorem World.sched_eq_some {world : World} {thread : Ref .thread} {sched : SchedRef} :
    world.ledger.sched thread = some sched ↔
      ∃ object, world.threadAt? thread = some object ∧ object.sched = some sched := by
  cases hobject : world.threadAt? thread <;> simp [ledger, hobject]

section
variable {machine : Machine} {journal : Journal} {numbers : List Nat}

theorem Program.handing_sublist {α : Type} {program : Program α} {batch : Batch}
    {post : Batch → Except Failure α → Prop} (hensures : program.Ensures admitting batch post) :
    program.handing.Sublist (batch.waiting.take 1) := by
  unfold handing
  split
  case h_1 manager name thread next =>
    obtain ⟨⟨_, _, rest, hwaiting⟩, _⟩ := hensures (.error .aborted) trivial
    rw [hwaiting]
    exact List.Sublist.refl _
  case h_2 => exact List.nil_sublist _

def Journal.waiting (journal : Journal) (number : Nat) : List (Ref .thread) :=
  (admitting.standing journal number).elim [] Batch.waiting

theorem handing_of_flow {flow : Flow}
    (haccounts : List.Forall₂ (admitting.Accounts journal) numbers flow) :
    (flow.flatMap fun activation => activation.rest.handing).Sublist
      (numbers.flatMap fun number => (journal.waiting number).take 1) := by
  induction haccounts with
  | nil => exact List.Sublist.refl _
  | cons hhead htail ih =>
      obtain ⟨batch, hbatch, hensures⟩ := hhead.standing
      rw [List.flatMap_cons, List.flatMap_cons]
      apply List.Sublist.append _ ih
      rw [Journal.waiting, hbatch]
      exact Program.handing_sublist hensures

def Journal.inProgress (journal : Journal) (count : Nat) : List Nat :=
  (List.range count).flatMap journal.running

theorem Journal.Sound.inProgress_nodup (hsound : journal.Sound) (count : Nat) :
    (journal.inProgress count).Nodup := by
  rw [inProgress, List.nodup_flatMap]
  refine ⟨fun index _ => hsound.nodup index, ?_⟩
  apply List.Pairwise.imp _ List.nodup_range
  intro index other hne number hmem hother
  exact hne (hsound.apart hmem hother)

theorem handing_of_account (haccount : admitting.Account journal machine.flow) :
    machine.handing.Sublist ((journal.inProgress machine.flows.size).flatMap fun number =>
      (journal.waiting number).take 1) := by
  have hflows : machine.flows.toList = (List.range machine.flows.size).map machine.flow := by
    apply List.ext_getElem
    · simp
    · intro index hindex _
      simp only [Array.length_toList] at hindex
      simp [Machine.flow, hindex]
  rw [Machine.handing, hflows, List.flatMap_map, Journal.inProgress, List.flatMap_assoc]
  exact List.Sublist.flatMap_right _ fun index _ => handing_of_flow (haccount.running index)

theorem Sorted.nodup_flatMap {π : Type} {made : Nat} {contents : π → List (Ref .thread)}
    {places : List π} (hsorted : Sorted made contents) (hplaces : places.Nodup) :
    (places.flatMap contents).Nodup := by
  rw [List.nodup_flatMap]
  refine ⟨fun place _ => hsorted.nodup place, ?_⟩
  apply List.Pairwise.imp _ hplaces
  intro place other hne thread hmem hother
  exact hne (hsorted.apart hmem hother)

/-- No thread is handed over twice, and none while another operation has it. -/
theorem handed_nodup {history : History} {world : World}
    (haccount : admitting.Account journal machine.flow)
    (hadmissions : Admissions history world (admitting.standing journal)) :
    (handedIn (history.map Prod.snd) ++ machine.handing).Nodup := by
  have hnumbers := haccount.sound.inProgress_nodup machine.flows.size
  have hplaces : (Place.handed ::
      (journal.inProgress machine.flows.size).map Place.waiting).Nodup := by
    rw [List.nodup_cons]
    refine ⟨by simp, hnumbers.map ?_⟩
    intro number other hsame
    exact Place.waiting.inj hsame
  apply List.Nodup.sublist _ (hadmissions.sorted.nodup_flatMap hplaces)
  rw [List.flatMap_cons, List.flatMap_map]
  apply List.Sublist.append_left
  apply (handing_of_account haccount).trans
  exact List.Sublist.flatMap_right _ fun number _ => List.take_sublist 1 _

end

theorem sched_of_run? {machine machine' : Machine} {moves : List (Nat × Move)}
    {happened : History} {thread : Ref .thread} {sched : SchedRef}
    (hrun : machine.run? moves = some (machine', happened))
    (hsched : machine.world.ledger.sched thread = some sched) :
    machine'.world.ledger.sched thread = some sched := by
  refine Machine.keeps_run? (fun world => world.ledger.sched thread = some sched) ?_ hrun hsched
  intro world happening later hsched hafter
  obtain ⟨hanswers, hledger⟩ := World.ledger_after hafter
  rw [hledger]
  exact Ledger.record_sched hanswers hsched

section
variable {history : History} {flows : Nat → Flow} {number : Nat}

theorem mem_history_of_own {happening : Happening}
    (htold : (Journal.ofHistory history).entries.map Prod.snd = history.map Prod.snd)
    (hmem : happening ∈ (Journal.ofHistory history).own number) :
    ∃ entry ∈ history, entry.2 = happening := by
  have hentry := Journal.mem_of_own hmem
  rw [htold] at hentry
  exact List.mem_map.mp hentry

/-- Between admissions nothing is in the hands of an operation. -/
theorem clear_of_settled {batch : Batch}
    (haccount : admitting.Account (.ofHistory history) flows)
    (htold : (Journal.ofHistory history).entries.map Prod.snd = history.map Prod.snd)
    (hunforced : Unforced history) (hsettled : Settled history)
    (hbatch : admitting.standing (.ofHistory history) number = some batch) : batch.Clear := by
  obtain ⟨operation, steps, hown, hsteps, hkeeps, rfl⟩ := haccount.story_of_standing hbatch
  obtain ⟨index, hrunning⟩ := haccount.mem_running hbatch
  have hstart : (Batch.start operation).Steady operation := by
    apply start_steady
    rintro thread sched rfl
    have hmem : .started (.bind thread sched) ∈ (Journal.ofHistory history).own number := by
      rw [hown]
      exact List.mem_cons_self
    obtain ⟨entry, hentry, hsame⟩ := mem_history_of_own htold hmem
    have hbinds := hunforced entry hentry
    rw [hsame] at hbinds
    cases hbinds
  have hidle := hsettled index number hrunning
  rw [hown] at hidle
  exact clear_foldl (fun _ => hstart.clear) hkeeps hidle

/-- An admission that says that a thread was admitted twice was told so by a callback. -/
theorem blamed_of_own {operation : Operation} {story : List Happening} {failure : Failure}
    (haccount : admitting.Account (.ofHistory history) flows)
    (hproper : ∀ happening ∈ story, happening.Proper) (hadmits : operation.admits)
    (hown : (Journal.ofHistory history).own number = .started operation :: story)
    (hfailed : .finished operation (.error failure) ∈ story) (htwice : failure.saysTwice) :
    ∃ happening ∈ story, happening.saysTwice := by
  obtain ⟨steps, rfl, hsteps, _, _, hblames, _⟩ := haccount.returned hown hfailed
  rcases hblames hadmits htwice with hblamed | hrefused
  · rw [Discipline.after, (admitting_foldl _ steps).2.2] at hblamed
    obtain ⟨happening, hmem, htwice⟩ := List.any_eq_true.mp hblamed
    exact ⟨happening, List.mem_append_left _ hmem, htwice⟩
  · rw [Discipline.after, refused_foldl fun happening hmem =>
      hproper happening (List.mem_append_left _ hmem)] at hrefused
    cases hrefused

/-- What an admission answers is told by its own story. -/
theorem counted_of_own {context : Ref .context} {story : List Happening} {count : Nat}
    (haccount : admitting.Account (.ofHistory history) flows)
    (hown : (Journal.ofHistory history).own number = .started (.admitStaged context) :: story)
    (hfinished : .finished (.admitStaged context) (.ok count) ∈ story) :
    count = (drainedIn story).length ∧ handedIn story = drainedIn story := by
  obtain ⟨steps, rfl, hsteps, _, _, _, hcount, hhanded⟩ := haccount.returned hown hfinished
  obtain ⟨hdrained, hhanded', _⟩ := admitting_foldl (admitting.start (.admitStaged context)) steps
  rw [Discipline.after, hdrained] at hcount hhanded
  rw [hhanded'] at hhanded
  rw [drainedIn_concat, handedIn_concat]
  have hdrains : (Happening.finished (.admitStaged context) (.ok count)).drains = [] := rfl
  have hhands : (Happening.finished (.admitStaged context) (.ok count)).hands = [] := rfl
  rw [hdrains, hhands, List.append_nil, List.append_nil]
  exact ⟨hcount, hhanded⟩

/-- Where all is calm, a thread without a name is staged. -/
theorem mem_staged_iff {world : World} (registry : Ref .registry) (thread : Ref .thread)
    (hadmissions : Admissions history world (admitting.standing (.ofHistory history)))
    (hclear : ∀ number batch, admitting.standing (.ofHistory history) number = some batch →
      batch.Clear)
    (hcalm : Calm history) :
    thread ∈ world.ledger.staged registry ↔ thread ∈ world.ledger.roster registry ∧
      ∃ object, world.threadAt? thread = some object ∧ object.sched = none := by
  obtain ⟨hsorted, hnames, hcovered⟩ := hadmissions
  constructor
  · intro hstaged
    have hroster := hcovered.listed hstaged
    refine ⟨hroster, ?_⟩
    have hinside : thread.index < world.threads.size := hcovered.known hroster
    refine ⟨world.threads[thread.index], Array.getElem?_eq_getElem hinside, ?_⟩
    by_contra hsome
    obtain ⟨sched, hsched⟩ := Option.ne_none_iff_exists'.mp hsome
    have hbound : world.ledger.sched thread = some sched :=
      World.sched_eq_some.mpr ⟨_, Array.getElem?_eq_getElem hinside, hsched⟩
    have hhanded : thread ∈ Place.contents world.ledger
        (admitting.standing (.ofHistory history)) (handedIn (history.map Prod.snd)) .handed :=
      (hnames.bound hbound).mem_handed
    have hplace : thread ∈ Place.contents world.ledger
        (admitting.standing (.ofHistory history)) (handedIn (history.map Prod.snd))
          (.staged registry) := hstaged
    cases hsorted.apart hhanded hplace
  · rintro ⟨hroster, object, hobject, hnone⟩
    rcases hcovered.found hcalm hroster with hstaged | ⟨number, batch, hbatch, hholds⟩ | hsome
    · exact hstaged
    · obtain ⟨hwaiting, hnaming⟩ := hclear number batch hbatch
      rcases hholds with hwaits | ⟨sched, hnames⟩
      · rw [hwaiting] at hwaits
        cases hwaits
      · rw [hnaming] at hnames
        cases hnames
    · obtain ⟨sched, hsched⟩ := Option.isSome_iff_exists.mp hsome
      obtain ⟨other, hother, hname⟩ := World.sched_eq_some.mp hsched
      cases hobject.symm.trans hother
      rw [hnone] at hname
      cases hname

end

namespace Context

/-- What a run has made of the threads and their names. -/
structure Admits (machine : Machine) (history : History) : Prop where
  /-- No thread is handed over twice, and none while another operation is handing it over. -/
  once : (handedIn (history.map Prod.snd) ++ machine.handing).Nodup
  /-- Threads are handed over without a name, and every name is recorded when it should be. -/
  proper : ∀ entry ∈ history, entry.2.Proper
  /-- The name of a thread is the one that it was given when it was handed over, -/
  bound : ∀ {thread object sched}, machine.world.threadAt? thread = some object →
    object.sched = some sched → Given history thread sched
  /-- and it never changes. -/
  kept : ∀ {thread object sched moves machine' happened},
    machine.world.threadAt? thread = some object → object.sched = some sched →
      machine.run? moves = some (machine', happened) →
        ∃ later, machine'.world.threadAt? thread = some later ∧ later.sched = some sched
  /-- Who says that a thread was admitted twice only passes on what a callback said. -/
  blameless : ∀ {number operation story failure},
    (Journal.ofHistory history).own number = .started operation :: story → operation.admits →
      .finished operation (.error failure) ∈ story → failure.saysTwice →
        ∃ happening ∈ story, happening.saysTwice
  /-- An admission answers how many threads it has drained and handed over itself. -/
  counted : ∀ {number context story count},
    (Journal.ofHistory history).own number = .started (.admitStaged context) :: story →
      .finished (.admitStaged context) (.ok count) ∈ story →
        count = (drainedIn story).length ∧ handedIn story = drainedIn story
  /-- While no admission is in progress, the threads without a name are those that are staged. -/
  staged : Calm history → Settled history → ∀ {place registry},
    machine.world.registryAt? place = some registry → ∀ thread,
      thread ∈ registry.pending ↔ thread ∈ registry.roster ∧
        ∃ object, machine.world.threadAt? thread = some object ∧ object.sched = none

/-- Admission happens once, in every run of any number of flows in which callbacks come back into
the engines as they like. -/
theorem admits_of_run? {count : Nat} {moves : List (Nat × Move)} {machine : Machine}
    {history : History} (hrun : (Machine.idle {} count).run? moves = some (machine, history))
    (hunforced : Unforced history) : Admits machine history := by
  have hruns := Machine.runs_of_run? hrun
  obtain ⟨haccount, hholds⟩ := hruns.account admitting_obeyed admissions_upholds
  obtain ⟨hsorted, hnames, hcovered⟩ := hholds hunforced
  have htold := hruns.journal.2
  refine ⟨handed_nodup haccount (hholds hunforced), hnames.proper, ?_, ?_, ?_, ?_, ?_⟩
  · intro thread object sched hobject hsched
    exact hnames.bound (World.sched_eq_some.mpr ⟨object, hobject, hsched⟩)
  · intro thread object sched moves machine' happened hobject hsched hmoves
    have hbound := World.sched_eq_some.mpr ⟨object, hobject, hsched⟩
    exact World.sched_eq_some.mp (sched_of_run? hmoves hbound)
  · intro number operation story failure hown hadmits
    apply blamed_of_own haccount _ hadmits hown
    intro happening hmem
    have hmem' : happening ∈ (Journal.ofHistory history).own number := by
      rw [hown]
      exact List.mem_cons_of_mem _ hmem
    obtain ⟨entry, hentry, rfl⟩ := mem_history_of_own htold hmem'
    exact hnames.proper entry hentry
  · intro number context story count hown hfinished
    exact counted_of_own haccount hown hfinished
  · intro hcalm hsettled place registry hregistry thread
    have hstaged := mem_staged_iff place thread (hholds hunforced)
      (fun number batch => clear_of_settled haccount htold hunforced hsettled) hcalm
    simpa [World.ledger, hregistry] using hstaged

open Schedule

/-- Two contexts share a registry.  While the first hands over a thread, its manager creates another
one and has the second context admit it. -/
def nestedAdmissions : List (Nat × Move) :=
  inFlow 0 (along (.makeRegistry ⟨0⟩ 1) 2 ++ makingContext ⟨0⟩ .everyQuantum ⟨0⟩ ⟨0⟩ ++
    makingContext ⟨0⟩ .everyQuantum ⟨0⟩ ⟨1⟩ ++
    creating ⟨0⟩ ++ [Move.start (.admitStaged ⟨0⟩)] ++ steps 5 ++
    creating ⟨0⟩ ++ [Move.start (.admitStaged ⟨1⟩)] ++ steps 5 ++
    [Move.answer (.schedule ⟨1⟩ "" ⟨1⟩) (.ok ⟨7⟩)] ++ steps 4 ++
    [Move.finish, .answer (.schedule ⟨0⟩ "" ⟨0⟩) (.ok ⟨5⟩)] ++ steps 4 ++ [Move.finish])

theorem admits_nestedAdmissions : ∃ machine history,
    (Machine.idle {} 1).run? nestedAdmissions = some (machine, history) ∧ Unforced history ∧
      handedIn (history.map Prod.snd) = [⟨1⟩, ⟨0⟩] ∧ Admits machine history := by
  have hsome : ((Machine.idle {} 1).run? nestedAdmissions).isSome := by rfl
  obtain ⟨⟨machine, history⟩, hrun⟩ := Option.isSome_iff_exists.mp hsome
  have hhanded : (((Machine.idle {} 1).run? nestedAdmissions).map fun outcome =>
      handedIn (outcome.2.map Prod.snd)) = some [⟨1⟩, ⟨0⟩] := by rfl
  have hforced : (((Machine.idle {} 1).run? nestedAdmissions).map fun outcome =>
      outcome.2.any fun entry => entry.2.binds) = some false := by rfl
  rw [hrun] at hhanded hforced
  have hunforced : Unforced history := by
    intro entry hentry
    simpa using List.any_eq_false.mp (Option.some.inj hforced) entry hentry
  exact ⟨machine, history, hrun, hunforced, Option.some.inj hhanded,
    admits_of_run? hrun hunforced⟩

end Context

end CoreEngines
