import CoreEngines.Proofs.Admission.Names
import CoreEngines.Proofs.Invariants

/-!
No thread is forgotten.  As long as no callback fails and only admissions drain registries, every
thread on a roster is staged, in the hands of an operation, or has its name.
-/

namespace CoreEngines

def Happening.takes : Happening → Bool
  | .started operation => operation.takes
  | _ => false

def Happening.binds : Happening → Bool
  | .started (.bind _ _) => true
  | _ => false

/-- No callback has failed, and no threads were taken but by admissions. -/
def Calm (history : History) : Prop :=
  ∀ entry ∈ history, entry.2.fails = false ∧ entry.2.takes = false

instance {history : History} : Decidable (Calm history) :=
  inferInstanceAs (Decidable (∀ entry ∈ history, _))

/-- The thread waits to be handed over, or to have its name recorded. -/
def Batch.Holds (batch : Batch) (thread : Ref .thread) : Prop :=
  thread ∈ batch.waiting ∨ ∃ sched, batch.naming = some (thread, sched)

/-- Where a thread of a registry can be looked for. -/
def Ledger.Finds (ledger : Ledger) (batches : Nat → Option Batch) (registry : Ref .registry)
    (thread : Ref .thread) : Prop :=
  thread ∈ ledger.staged registry ∨
    (∃ number batch, batches number = some batch ∧ batch.Holds thread) ∨
      (ledger.sched thread).isSome

/-- What is on the lists, and what is known of those who take threads from them. -/
structure Covered (history : History) (ledger : Ledger) (batches : Nat → Option Batch) : Prop where
  listed : ∀ {registry thread}, thread ∈ ledger.staged registry → thread ∈ ledger.roster registry
  known : ∀ {registry thread}, thread ∈ ledger.roster registry → thread.index < ledger.made
  started : ∀ {number batch}, batches number = some batch →
    ∃ index, (index, .started batch.operation) ∈ history
  failed : ∀ {number batch}, batches number = some batch → batch.failed →
    ∃ entry ∈ history, entry.2.fails
  found : Calm history → ∀ {registry thread}, thread ∈ ledger.roster registry →
    ledger.Finds batches registry thread

theorem Calm.of_concat {history : History} {entry : Nat × Happening}
    (hcalm : Calm (history ++ [entry])) : Calm history ∧ entry.2.fails = false := by
  refine ⟨fun other hother => hcalm other (List.mem_append_left _ hother), ?_⟩
  exact (hcalm entry (by simp)).1

namespace Batch

variable {batch : Batch} {happening : Happening}

theorem observe_operation : (batch.observe happening).operation = batch.operation := by
  unfold observe pass
  split <;> rfl

theorem observe_failed : (batch.observe happening).failed = (batch.failed || happening.fails) :=
  rfl

end Batch

namespace Covered

variable {history : History} {ledger : Ledger} {batches : Nat → Option Batch} {index number : Nat}
  {batch : Batch} {happening : Happening}

/-- What is known of the batches stays known when one of them changes and the history goes on. -/
theorem proceed {later : Ledger} {state : Option Batch} (hcovered : Covered history ledger batches)
    (hlisted : ∀ registry, ∀ thread ∈ later.staged registry, thread ∈ later.roster registry)
    (hknown : ∀ registry, ∀ thread ∈ later.roster registry, thread.index < later.made)
    (hstarted : ∀ batch', state = some batch' →
      ∃ index', (index', .started batch'.operation) ∈ history ++ [(index, happening)])
    (hfailed : ∀ batch', state = some batch' → batch'.failed →
      ∃ entry ∈ history ++ [(index, happening)], entry.2.fails)
    (hfound : Calm (history ++ [(index, happening)]) → ∀ registry,
      ∀ thread ∈ later.roster registry,
        later.Finds (Function.update batches number state) registry thread) :
    Covered (history ++ [(index, happening)]) later (Function.update batches number state) where
  listed := hlisted _ _
  known := hknown _ _
  started hbatch := by
    rcases update_eq_some hbatch with ⟨rfl, hnew⟩ | ⟨_, hold⟩
    · exact hstarted _ hnew
    · obtain ⟨index', hmem⟩ := hcovered.started hold
      exact ⟨index', List.mem_append_left _ hmem⟩
  failed hbatch hfailed' := by
    rcases update_eq_some hbatch with ⟨rfl, hnew⟩ | ⟨_, hold⟩
    · exact hfailed _ hnew hfailed'
    · obtain ⟨entry, hmem, hfails⟩ := hcovered.failed hold hfailed'
      exact ⟨entry, List.mem_append_left _ hmem, hfails⟩
  found hcalm := hfound hcalm _ _

/-- A thread is still found when a batch gives it up only to have its name recorded. -/
theorem finds_update {later : Ledger} {state : Option Batch} {registry : Ref .registry}
    {thread : Ref .thread} (hfinds : ledger.Finds batches registry thread)
    (hstaged : thread ∈ ledger.staged registry →
      later.Finds (Function.update batches number state) registry thread)
    (hholds : ∀ batch, batches number = some batch → batch.Holds thread →
      (∃ batch', state = some batch' ∧ batch'.Holds thread) ∨ (later.sched thread).isSome)
    (hsched : (ledger.sched thread).isSome → (later.sched thread).isSome) :
    later.Finds (Function.update batches number state) registry thread := by
  rcases hfinds with hmem | ⟨other, batch, hbatch, hholding⟩ | hsome
  · exact hstaged hmem
  · by_cases hother : other = number
    · subst hother
      rcases hholds batch hbatch hholding with ⟨batch', rfl, hholding⟩ | hsome
      · exact Or.inr (Or.inl ⟨other, batch', Function.update_self .., hholding⟩)
      · exact Or.inr (Or.inr hsome)
    · refine Or.inr (Or.inl ⟨other, batch, ?_, hholding⟩)
      rw [Function.update_of_ne hother, hbatch]
  · exact Or.inr (Or.inr (hsched hsome))

theorem start (hcovered : Covered history ledger batches) (hnone : batches number = none)
    (operation : Operation) :
    Covered (history ++ [(index, .started operation)]) ledger
      (Function.update batches number (some (.start operation))) := by
  apply hcovered.proceed (fun _ _ => hcovered.listed) (fun _ _ => hcovered.known)
  · rintro _ ⟨⟩
    exact ⟨index, by simp [Batch.start]⟩
  · rintro _ ⟨⟩ hfailed
    cases hfailed
  · intro hcalm registry thread hmem
    refine finds_update (hcovered.found hcalm.of_concat.1 hmem) Or.inl ?_ id
    intro batch hbatch
    rw [hnone] at hbatch
    cases hbatch

/-- Who returns has nothing in its hands, as long as all is calm. -/
theorem clear {operation : Operation} {result : Except Failure operation.Reply}
    (hcovered : Covered history ledger batches) (hbatch : batches number = some batch)
    (haccepted : batch.refused = false) (hreturns : admitting.Returns operation batch result)
    (hcalm : Calm history) : batch.Clear := by
  obtain ⟨rfl, hends, _⟩ := hreturns
  obtain ⟨index', hstarted⟩ := hcovered.started hbatch
  have hends := hends (hcalm _ hstarted).2
  cases result with
  | ok reply => exact hends
  | error failure =>
      rcases hends with hclear | hfailed | hrefused
      · exact hclear
      · obtain ⟨entry, hentry, hfails⟩ := hcovered.failed hbatch hfailed
        rw [(hcalm entry hentry).1] at hfails
        cases hfails
      · rw [haccepted] at hrefused
        cases hrefused

theorem finish {operation : Operation} {result : Except Failure operation.Reply}
    (hcovered : Covered history ledger batches) (hbatch : batches number = some batch)
    (haccepted : batch.refused = false) (hreturns : admitting.Returns operation batch result) :
    Covered (history ++ [(index, .finished operation result)]) ledger
      (Function.update batches number none) := by
  refine hcovered.proceed (fun _ _ => hcovered.listed) (fun _ _ => hcovered.known) (by simp)
    (by simp) ?_
  intro hlater registry thread hmem
  have hcalm : Calm history := hlater.of_concat.1
  obtain ⟨hwaiting, hnaming⟩ := hcovered.clear hbatch haccepted hreturns hcalm
  refine finds_update (hcovered.found hcalm hmem) Or.inl ?_ id
  intro other hother hholds
  obtain rfl : batch = other := Option.some.inj (hbatch.symm.trans hother)
  rcases hholds with hwaits | ⟨sched, hnames⟩
  · rw [hwaiting] at hwaits
    cases hwaits
  · rw [hnaming] at hnames
    cases hnames

/-- A thread that is staged has been enrolled, and was made before. -/
theorem lists_step (hcovered : Covered history ledger batches) (hallows : batch.Allows happening)
    (hfresh : ∀ thread ∈ batch.fresh, thread.index < ledger.made) :
    (∀ registry, ∀ thread ∈ (ledger.record happening).staged registry,
      thread ∈ (ledger.record happening).roster registry) ∧
        ∀ registry, ∀ thread ∈ (ledger.record happening).roster registry,
          thread.index < (ledger.record happening).made := by
  have hsame : (∀ registry, ∀ thread ∈ ledger.staged registry, thread ∈ ledger.roster registry) ∧
      ∀ registry, ∀ thread ∈ ledger.roster registry, thread.index < ledger.made :=
    ⟨fun _ _ => hcovered.listed, fun _ _ => hcovered.known⟩
  induction happening using Happening.cases_plain with
  | plain happening hplain => rwa [Ledger.record_of_plain hplain]
  | runLoop context => exact hsame
  | schedule manager name thread result => exact hsame
  | bind thread sched first => cases first <;> exact hsame
  | newThread id mailbox thread =>
      exact ⟨hsame.1, fun registry other hother =>
        Nat.lt_succ_of_lt (hsame.2 registry other hother)⟩
  | detach target threads =>
      refine ⟨fun registry other hother => ?_, hsame.2⟩
      by_cases hregistry : registry = target
      · subst hregistry
        simp [Ledger.record] at hother
      · simp only [Ledger.record, Function.update_of_ne hregistry] at hother
        exact hsame.1 registry other hother
  | enroll target thread count =>
      have hthread : thread.index < ledger.made := by
        have hallows : batch.fresh = [thread] := hallows
        exact hfresh thread (by simp [hallows])
      refine ⟨fun registry other hother => ?_, fun registry other hother => ?_⟩ <;>
        by_cases hregistry : registry = target
      · subst hregistry
        simp only [Ledger.record, Function.update_self, List.mem_append] at hother ⊢
        exact hother.imp_left (hsame.1 registry other)
      · simp only [Ledger.record, Function.update_of_ne hregistry] at hother ⊢
        exact hsame.1 registry other hother
      · subst hregistry
        simp only [Ledger.record, Function.update_self, List.mem_append, List.mem_singleton]
          at hother
        rcases hother with hold | rfl
        · exact hsame.2 registry other hold
        · exact hthread
      · simp only [Ledger.record, Function.update_of_ne hregistry] at hother
        exact hsame.2 registry other hother

section
variable {registry : Ref .registry} {thread : Ref .thread}

/-- The same, where the operation goes on. -/
theorem finds_observe {later : Ledger} {batch' : Batch}
    (hfinds : ledger.Finds batches registry thread) (hbatch : batches number = some batch)
    (hstaged : thread ∈ ledger.staged registry →
      thread ∈ later.staged registry ∨ batch'.Holds thread)
    (hholds : batch.Holds thread → batch'.Holds thread ∨ (later.sched thread).isSome)
    (hsched : (ledger.sched thread).isSome → (later.sched thread).isSome) :
    later.Finds (Function.update batches number (some batch')) registry thread := by
  refine finds_update hfinds (fun hold => ?_) ?_ hsched
  · rcases hstaged hold with hstill | hholding
    · exact Or.inl hstill
    · exact Or.inr (Or.inl ⟨number, batch', Function.update_self .., hholding⟩)
  · intro found hfound hholding
    obtain rfl : batch = found := Option.some.inj (hbatch.symm.trans hfound)
    exact (hholds hholding).imp_left fun hnow => ⟨batch', rfl, hnow⟩

/-- What is drained from a registry is in the hands of the operation. -/
theorem finds_detach {target : Ref .registry} {threads : Array (Ref .thread)}
    (hfinds : ledger.Finds batches registry thread) (hbatch : batches number = some batch)
    (hanswers : ledger.Answers (.acted (.registry target .detach) threads)) :
    (ledger.record (.acted (.registry target .detach) threads)).Finds
      (Function.update batches number
        (some (batch.observe (.acted (.registry target .detach) threads)))) registry thread := by
  have hthreads : threads.toList = ledger.staged target := hanswers
  refine finds_observe hfinds hbatch (fun hold => ?_) (fun hholds => Or.inl ?_) id
  · by_cases hregistry : registry = target
    · subst hregistry
      rw [← hthreads] at hold
      exact Or.inr (Or.inl (List.mem_append_right _ hold))
    · apply Or.inl
      simpa only [Ledger.record, Function.update_of_ne hregistry] using hold
  · exact hholds.imp_left (List.mem_append_left _)

/-- What is bound has its name. -/
theorem finds_bind {other : Ref .thread} {sched : SchedRef} {first : Bool}
    (hfinds : ledger.Finds batches registry thread) (hbatch : batches number = some batch)
    (hanswers : ledger.Answers (.acted (.thread other (.bind sched)) first))
    (hnaming : batch.naming = some (other, sched)) :
    (ledger.record (.acted (.thread other (.bind sched)) first)).Finds
      (Function.update batches number
        (some (batch.observe (.acted (.thread other (.bind sched)) first)))) registry thread := by
  have hrecorded :
      ((ledger.record (.acted (.thread other (.bind sched)) first)).sched other).isSome := by
    cases first with
    | false => simpa [Ledger.Answers, Ledger.record, Option.isSome_iff_ne_none] using hanswers
    | true => simp [Ledger.record]
  refine finds_observe hfinds hbatch (fun hold => Or.inl ?_) (fun hholds => ?_) (fun hsome => ?_)
  · cases first <;> exact hold
  · rcases hholds with hwaits | ⟨name, hnames⟩
    · exact Or.inl (Or.inl hwaits)
    · rw [hnaming] at hnames
      cases hnames
      exact Or.inr hrecorded
  · obtain ⟨name, hname⟩ := Option.isSome_iff_exists.mp hsome
    rw [Ledger.record_sched hanswers hname]
    rfl

/-- What a manager takes is in the hands of the operation until it is bound. -/
theorem finds_schedule {manager : ManagerRef} {name : String} {other : Ref .thread}
    {result : Except Failure SchedRef} (hfinds : ledger.Finds batches registry thread)
    (hbatch : batches number = some batch)
    (hallows : batch.Allows (.answered (.schedule manager name other) result))
    (hfails : Happening.fails (.answered (.schedule manager name other) result) = false) :
    ledger.Finds (Function.update batches number
      (some (batch.observe (.answered (.schedule manager name other) result)))) registry
        thread := by
  obtain ⟨_, hnaming, rest, hwaiting⟩ := hallows
  refine finds_observe hfinds hbatch Or.inl (fun hholds => Or.inl ?_) id
  cases result with
  | error failure => cases hfails
  | ok sched =>
      rcases hholds with hwaits | ⟨name, hnames⟩
      · rw [hwaiting] at hwaits
        rcases List.mem_cons.mp hwaits with rfl | hrest
        · exact Or.inr ⟨sched, rfl⟩
        · apply Or.inl
          change thread ∈ batch.waiting.tail
          rwa [hwaiting]
      · rw [hnaming] at hnames
        cases hnames

/-- No thread gets lost in a step, unless a callback fails. -/
theorem finds_step
    (hfound : ∀ {thread}, thread ∈ ledger.roster registry →
      ledger.Finds batches registry thread)
    (hbatch : batches number = some batch) (hanswers : ledger.Answers happening)
    (hallows : batch.Allows happening) (hfails : happening.fails = false)
    (hthread : thread ∈ (ledger.record happening).roster registry) :
    (ledger.record happening).Finds
      (Function.update batches number (some (batch.observe happening))) registry thread := by
  induction happening using Happening.cases_plain with
  | plain happening hplain =>
      rw [Ledger.record_of_plain hplain] at hthread ⊢
      rw [Batch.observe, Batch.pass_of_plain hplain]
      exact finds_observe (hfound hthread) hbatch Or.inl Or.inl id
  | runLoop context => exact finds_observe (hfound hthread) hbatch Or.inl Or.inl id
  | newThread serial mailbox made => exact finds_observe (hfound hthread) hbatch Or.inl Or.inl id
  | enroll target other count =>
      by_cases hregistry : registry = target
      · subst hregistry
        simp only [Ledger.record, Function.update_self, List.mem_append, List.mem_singleton]
          at hthread
        rcases hthread with hold | rfl
        · refine finds_observe (hfound hold) hbatch (fun hstaged => Or.inl ?_) Or.inl id
          simp [Ledger.record, hstaged]
        · exact Or.inl (by simp [Ledger.record])
      · simp only [Ledger.record, Function.update_of_ne hregistry] at hthread
        refine finds_observe (hfound hthread) hbatch (fun hstaged => Or.inl ?_) Or.inl id
        simpa only [Ledger.record, Function.update_of_ne hregistry] using hstaged
  | detach target threads => exact finds_detach (hfound hthread) hbatch hanswers
  | bind other sched first =>
      refine finds_bind (hfound ?_) hbatch hanswers hallows
      cases first <;> exact hthread
  | schedule manager name other result =>
      exact finds_schedule (hfound hthread) hbatch hallows hfails

end

/-- A step that is allowed.  New threads are known to the ledger before they are listed. -/
theorem step (hcovered : Covered history ledger batches) (hbatch : batches number = some batch)
    (hanswers : ledger.Answers happening) (hallows : batch.Allows happening)
    (hfresh : ∀ thread ∈ batch.fresh, thread.index < ledger.made) :
    Covered (history ++ [(index, happening)]) (ledger.record happening)
      (Function.update batches number (some (batch.observe happening))) := by
  obtain ⟨hlisted, hknown⟩ := hcovered.lists_step hallows hfresh
  apply hcovered.proceed hlisted hknown
  · rintro _ ⟨⟩
    obtain ⟨index', hmem⟩ := hcovered.started hbatch
    rw [Batch.observe_operation]
    exact ⟨index', List.mem_append_left _ hmem⟩
  · rintro _ ⟨⟩ hfailed
    rw [Batch.observe_failed, Bool.or_eq_true] at hfailed
    rcases hfailed with hfailed | hfails
    · obtain ⟨entry, hmem, hfails⟩ := hcovered.failed hbatch hfailed
      exact ⟨entry, List.mem_append_left _ hmem, hfails⟩
    · exact ⟨(index, happening), by simp, hfails⟩
  · intro hcalm registry thread hthread
    exact finds_step (hcovered.found hcalm.of_concat.1) hbatch hanswers hallows
      hcalm.of_concat.2 hthread

end Covered

end CoreEngines
