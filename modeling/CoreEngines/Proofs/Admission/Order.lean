import CoreEngines.Proofs.Admission.Once
import CoreEngines.Proofs.Creation.Enrollment
import CoreEngines.Proofs.Moments

/-!
Admission in order.  While the batches of a registry do not overlap, its threads are handed over in
the order of its roster, batch after batch, and the threads that callbacks create meanwhile come
after the batch.
-/

namespace CoreEngines

def Happening.takesFrom (target : Ref .registry) : Happening → Bool
  | .acted (.registry registry .detach) threads => decide (registry = target) && !threads.isEmpty
  | _ => false

/-- Whether an operation is in the middle of an admission from the registry after a step: it is as
soon as it has taken threads, until it reports that all of them are admitted, or returns. -/
def Happening.engagesWith (target : Ref .registry) (engaged : Bool) : Happening → Bool
  | .reported (.batchAdmitted _ _) | .finished _ _ => false
  | happening => engaged || happening.takesFrom target

/-- Whether an operation with this story is in the middle of an admission from the registry. -/
def engagedWith (target : Ref .registry) (story : List Happening) : Bool :=
  story.foldl (Happening.engagesWith target) false

namespace Registry

/-- No operation is in the middle of an admission from the registry. -/
def Rests (target : Ref .registry) (history : History) : Prop :=
  ∀ number, engagedWith target ((Journal.ofHistory history).own number) = false

/-- Batches of the registry do not overlap: threads are taken from it only while no operation is in
the middle of an admission from it. -/
def TakesTurns (target : Ref .registry) (history : History) : Prop :=
  ∀ before entry after, history = before ++ entry :: after → entry.2.takesFrom target →
    Rests target before

section
variable {target : Ref .registry} {history : History}

/-- Only operations that have done something can be in the middle of anything. -/
theorem rests_iff : Rests target history ↔ ∀ entry ∈ (Journal.ofHistory history).entries,
    engagedWith target ((Journal.ofHistory history).own entry.1) = false := by
  refine ⟨fun hrests entry _ => hrests entry.1, fun hentries number => ?_⟩
  by_cases hnone : ∃ entry ∈ (Journal.ofHistory history).entries, entry.1 = number
  · obtain ⟨entry, hentry, rfl⟩ := hnone
    exact hentries entry hentry
  · have hown : (Journal.ofHistory history).own number = [] := by
      rw [Journal.own, List.filterMap_eq_nil_iff]
      intro entry hentry
      rw [if_neg fun hsame => hnone ⟨entry, hentry, hsame⟩]
    rw [hown]
    rfl

instance : Decidable (Rests target history) :=
  decidable_of_iff _ rests_iff.symm

theorem takesTurns_iff : TakesTurns target history ↔ ∀ place < history.length,
    ∀ entry ∈ history[place]?, entry.2.takesFrom target → Rests target (history.take place) := by
  constructor
  · intro hturns place hplace entry hentry
    refine hturns _ entry (history.drop (place + 1)) ?_
    rw [Option.mem_def, List.getElem?_eq_getElem hplace, Option.some.injEq] at hentry
    rw [← hentry, ← List.drop_eq_getElem_cons hplace, List.take_append_drop]
  · rintro hplaces before entry after rfl
    simpa using hplaces before.length (by simp) entry (by simp)

instance : Decidable (TakesTurns target history) :=
  decidable_of_iff _ takesTurns_iff.symm

theorem TakesTurns.of_concat {entry : Nat × Happening}
    (hturns : TakesTurns target (history ++ [entry])) : TakesTurns target history := by
  intro before other after hhistory
  refine hturns before other (after ++ [entry]) ?_
  rw [hhistory, List.append_assoc, List.cons_append]

end

end Registry

section
variable {target : Ref .registry} {listed : Ref .thread → Prop} {batch : Batch}

/-- An operation has listed threads in its hands only in the middle of an admission, if the
registries other than the target hold none. -/
theorem unlisted_step {happening : Happening} {engaged : Bool}
    (hidle : engaged = false → ∀ thread ∈ batch.waiting, ¬listed thread)
    (hstep : happening.isStep) (hallows : batch.Allows happening)
    (hforeign : ∀ registry threads, happening = .acted (.registry registry .detach) threads →
      registry ≠ target → ∀ thread ∈ threads.toList, ¬listed thread)
    (hengaged : happening.engagesWith target engaged = false) :
    ∀ thread ∈ (batch.observe happening).waiting, ¬listed thread := by
  have hrest : (engaged || happening.takesFrom target) = false →
      ∀ thread ∈ batch.waiting, ¬listed thread := fun hnot =>
    hidle (Bool.or_eq_false_iff.mp hnot).1
  induction happening using Happening.cases_plain with
  | plain happening hplain =>
      rw [Batch.observe, Batch.pass_of_plain hplain]
      unfold Happening.engagesWith at hengaged
      split at hengaged
      · obtain ⟨hwaiting, _⟩ := hallows
        simp [hwaiting]
      · cases hstep
      · exact hrest hengaged
  | detach registry threads =>
      obtain ⟨hwaiting, _⟩ : batch.Clear := hallows
      intro thread hmem
      have hthread : thread ∈ threads.toList := by
        simpa [Batch.observe, Batch.pass, hwaiting] using hmem
      by_cases hregistry : registry = target
      · obtain ⟨_, hempty⟩ := Bool.or_eq_false_iff.mp hengaged
        obtain rfl : threads = #[] := by simpa [Happening.takesFrom, hregistry] using hempty
        simp at hthread
      · exact hforeign registry threads rfl hregistry thread hthread
  | schedule manager name thread result =>
      exact fun other hmem => hrest hengaged other (List.mem_of_mem_tail hmem)
  | bind thread sched first => exact hrest hengaged
  | newThread id mailbox thread => exact hrest hengaged
  | enroll registry thread count => exact hrest hengaged
  | runLoop context => exact hrest hengaged

theorem unlisted_foldl {steps : List Happening} {engaged : Bool}
    (hidle : engaged = false → ∀ thread ∈ batch.waiting, ¬listed thread)
    (hsteps : ∀ happening ∈ steps, happening.isStep) (hkeeps : admitting.Keeps batch steps)
    (hforeign : ∀ registry threads, .acted (.registry registry .detach) threads ∈ steps →
      registry ≠ target → ∀ thread ∈ threads.toList, ¬listed thread)
    (hengaged : steps.foldl (Happening.engagesWith target) engaged = false) :
    ∀ thread ∈ (steps.foldl admitting.observe batch).waiting, ¬listed thread := by
  induction steps generalizing batch engaged with
  | nil => exact hidle hengaged
  | cons happening steps ih =>
      obtain ⟨hallows, hkeeps⟩ := hkeeps
      refine ih ?_ (fun other hother => hsteps other (List.mem_cons_of_mem _ hother)) hkeeps ?_
        hengaged
      · apply unlisted_step hidle (hsteps happening List.mem_cons_self) hallows
        rintro registry threads rfl
        exact hforeign registry threads List.mem_cons_self
      · exact fun registry threads hmem => hforeign registry threads (List.mem_cons_of_mem _ hmem)

end

def among (roster threads : List (Ref .thread)) : List (Ref .thread) :=
  threads.filter (· ∈ roster)

/-- One operation at most has threads of a roster in its hands, and with them the threads handed
over are those that were taken, in this order. -/
structure InTurn (roster taken handed : List (Ref .thread)) (waiting : Nat → List (Ref .thread))
    (holder : Nat) : Prop where
  others : ∀ other ≠ holder, ∀ thread ∈ waiting other, thread ∉ roster
  taken : taken = among roster (handed ++ waiting holder)

section
variable {roster taken handed threads : List (Ref .thread)} {thread : Ref .thread}
  {waiting : Nat → List (Ref .thread)} {holder number : Nat}

theorem among_eq_nil (hthreads : ∀ thread ∈ threads, thread ∉ roster) :
    among roster threads = [] := by
  simpa [among] using hthreads

theorem among_eq_self (hthreads : ∀ thread ∈ threads, thread ∈ roster) :
    among roster threads = threads := by
  simpa [among] using hthreads

theorem among_append (roster first second : List (Ref .thread)) :
    among roster (first ++ second) = among roster first ++ among roster second :=
  List.filter_append ..

theorem among_concat (hthread : thread ∉ threads) :
    among (roster ++ [thread]) threads = among roster threads := by
  apply List.filter_congr
  intro other hother
  have hne : other ≠ thread := by
    rintro rfl
    exact hthread hother
  simp [hne]

namespace InTurn

/-- A new thread on the roster is in nobody's hands. -/
theorem enroll (hturn : InTurn roster taken handed waiting holder) (hhanded : thread ∉ handed)
    (hwaiting : ∀ number, thread ∉ waiting number) :
    InTurn (roster ++ [thread]) taken handed waiting holder where
  others other hother known hknown := by
    have hne : known ≠ thread := by
      rintro rfl
      exact hwaiting other hknown
    simpa [hne] using hturn.others other hother known hknown
  taken := by
    rw [among_concat, hturn.taken]
    simpa using ⟨hhanded, hwaiting holder⟩

/-- Whoever has empty hands may take up threads that are not on the roster, or none. -/
theorem pass (hturn : InTurn roster taken handed waiting holder) (hnone : waiting number = [])
    (hthreads : ∀ thread ∈ threads, thread ∉ roster) :
    InTurn roster taken handed (Function.update waiting number threads) holder where
  others other hother := by
    by_cases hnumber : other = number
    · subst hnumber
      rwa [Function.update_self]
    · rw [Function.update_of_ne hnumber]
      exact hturn.others other hother
  taken := by
    by_cases hnumber : holder = number
    · subst hnumber
      rw [Function.update_self, among_append, among_eq_nil hthreads, List.append_nil, hturn.taken,
        hnone, List.append_nil]
    · rw [Function.update_of_ne hnumber, hturn.taken]

theorem take (hturn : InTurn roster taken handed waiting holder)
    (hrests : ∀ number, ∀ thread ∈ waiting number, thread ∉ roster)
    (hthreads : ∀ thread ∈ threads, thread ∈ roster) :
    InTurn roster (taken ++ threads) handed (Function.update waiting number threads) number where
  others other hother := by
    rw [Function.update_of_ne hother]
    exact hrests other
  taken := by
    rw [Function.update_self, among_append, among_eq_self hthreads, hturn.taken, among_append,
      among_eq_nil (hrests holder), List.append_nil]

/-- Whoever has threads hands over the first. -/
theorem hand (hturn : InTurn roster taken handed waiting holder)
    (hwaiting : waiting number = thread :: threads) :
    InTurn roster taken (handed ++ [thread]) (Function.update waiting number threads) holder where
  others other hother known hknown := by
    apply hturn.others other hother known
    by_cases hnumber : other = number
    · subst hnumber
      rw [Function.update_self] at hknown
      rw [hwaiting]
      exact List.mem_cons_of_mem thread hknown
    · rwa [Function.update_of_ne hnumber] at hknown
  taken := by
    by_cases hnumber : holder = number
    · subst hnumber
      rw [Function.update_self, List.append_assoc, List.singleton_append, ← hwaiting]
      exact hturn.taken
    · have hthread : thread ∉ roster := by
        apply hturn.others number (Ne.symm hnumber) thread
        rw [hwaiting]
        exact List.mem_cons_self
      have hunlisted : among roster [thread] = [] := among_eq_nil (by simpa using hthread)
      rw [Function.update_of_ne hnumber, hturn.taken]
      simp only [among_append, hunlisted, List.append_nil]

/-- Whoever has empty hands may drain any registry, but this one only while nobody has threads of
it. -/
theorem drain {ledger : Ledger} {target registry : Ref .registry} {threads : Array (Ref .thread)}
    (hturn : InTurn (ledger.roster target) taken handed waiting holder)
    (hnone : waiting number = [])
    (hroster : ∀ thread ∈ threads.toList, thread ∈ ledger.roster registry)
    (hapart : ∀ {registry thread}, thread ∈ ledger.roster registry →
      thread ∈ ledger.roster target → registry = target)
    (hrests : Happening.takesFrom target (.acted (.registry registry .detach) threads) →
      ∀ number, ∀ thread ∈ waiting number, thread ∉ ledger.roster target) :
    ∃ holder, InTurn (ledger.roster target)
      (taken ++ Happening.taken target (.acted (.registry registry .detach) threads)) handed
        (Function.update waiting number threads.toList) holder := by
  by_cases hregistry : registry = target
  · subst hregistry
    rw [Happening.taken, if_pos rfl]
    by_cases hempty : threads = #[]
    · subst hempty
      rw [List.append_nil]
      exact ⟨holder, hturn.pass hnone (by simp)⟩
    · exact ⟨number, hturn.take (hrests (by simp [Happening.takesFrom, hempty])) hroster⟩
  · rw [Happening.taken, if_neg hregistry, List.append_nil]
    exact ⟨holder, hturn.pass hnone fun thread hmem hmine =>
      hregistry (hapart (hroster thread hmem) hmine)⟩

/-- Every step of an operation leaves the registry in turn, if it drains it only while nobody has
threads of it. -/
theorem step {ledger : Ledger} {batch : Batch} {happening : Happening} {target : Ref .registry}
    (hturn : InTurn (ledger.roster target) taken handed waiting holder)
    (hbatch : waiting number = batch.waiting) (hanswers : ledger.Answers happening)
    (hallows : batch.Allows happening)
    (hlisted : ∀ {registry thread}, thread ∈ ledger.staged registry →
      thread ∈ ledger.roster registry)
    (hapart : ∀ {registry thread}, thread ∈ ledger.roster registry →
      thread ∈ ledger.roster target → registry = target)
    (hfresh : ∀ thread ∈ batch.fresh, thread ∉ handed ∧ ∀ number, thread ∉ waiting number)
    (hrests : happening.takesFrom target →
      ∀ number, ∀ thread ∈ waiting number, thread ∉ ledger.roster target) :
    ∃ holder, InTurn ((ledger.record happening).roster target)
      (taken ++ happening.taken target) (handed ++ happening.hands)
        (Function.update waiting number (batch.observe happening).waiting) holder := by
  have hkept : ∀ {batch' : Batch} {roster : List (Ref .thread)}, batch'.waiting = batch.waiting →
      InTurn roster taken handed waiting holder →
        InTurn roster (taken ++ []) (handed ++ [])
          (Function.update waiting number batch'.waiting) holder := by
    intro batch' roster hwaiting hturn
    rwa [hwaiting, ← hbatch, Function.update_eq_self, List.append_nil, List.append_nil]
  have hsame : ∀ {batch' : Batch}, batch'.waiting = batch.waiting →
      InTurn (ledger.roster target ++ []) (taken ++ []) (handed ++ [])
        (Function.update waiting number batch'.waiting) holder := by
    intro batch' hwaiting
    rw [List.append_nil (ledger.roster target)]
    exact hkept hwaiting hturn
  rw [Ledger.record_roster]
  induction happening using Happening.cases_plain with
  | plain happening hplain =>
      rw [Happening.enrolled?_of_plain hplain, Happening.taken_of_plain hplain,
        Happening.hands_of_plain hplain, Batch.observe, Batch.pass_of_plain hplain]
      exact ⟨holder, hsame rfl⟩
  | newThread id mailbox thread => exact ⟨holder, hsame rfl⟩
  | bind thread sched first => exact ⟨holder, hsame rfl⟩
  | runLoop context => exact ⟨holder, hsame rfl⟩
  | enroll registry thread count =>
      have hnew : batch.fresh = [thread] := hallows
      obtain ⟨hhanded, hwaiting⟩ := hfresh thread (by simp [hnew])
      refine ⟨holder, ?_⟩
      by_cases hregistry : registry = target
      · rw [Happening.enrolled?, if_pos hregistry]
        exact hkept rfl (hturn.enroll hhanded hwaiting)
      · rw [Happening.enrolled?, if_neg hregistry]
        exact hsame rfl
  | detach registry threads =>
      obtain ⟨hwaiting, _⟩ : batch.Clear := hallows
      have hthreads : threads.toList = ledger.staged registry := hanswers
      have htakes : (batch.observe (.acted (.registry registry .detach) threads)).waiting =
          threads.toList := by
        simp [Batch.observe, Batch.pass, hwaiting]
      have hroster : ∀ thread ∈ threads.toList, thread ∈ ledger.roster registry := by
        rw [hthreads]
        exact fun thread hmem => hlisted hmem
      rw [hwaiting] at hbatch
      simp only [htakes, Happening.enrolled?, Happening.hands, Option.toList_none, List.append_nil]
      exact hturn.drain hbatch hroster hapart hrests
  | schedule manager name thread result =>
      obtain ⟨_, _, rest, hwaiting⟩ := hallows
      have hhands : (batch.observe (.answered (.schedule manager name thread) result)).waiting =
          rest := by
        simp [Batch.observe, Batch.pass, hwaiting]
      rw [hwaiting] at hbatch
      simp only [hhands, Happening.enrolled?, Happening.taken, Happening.hands, Option.toList_none,
        List.append_nil]
      exact ⟨holder, hturn.hand hbatch⟩

end InTurn

end

theorem taken_history (target : Ref .registry) (history : History) (index : Nat)
    (happening : Happening) :
    takenIn target ((history ++ [(index, happening)]).map Prod.snd) =
      takenIn target (history.map Prod.snd) ++ happening.taken target := by
  simp [takenIn]

namespace Runs

variable {history : History} {world : World} {flows : Nat → Flow} {target : Ref .registry}

theorem mem_roster_of_detach {registry : Ref .registry} {threads : Array (Ref .thread)}
    {thread : Ref .thread} (hrun : Runs {} history world flows)
    (hmem : .acted (.registry registry .detach) threads ∈ history.map Prod.snd)
    (hthread : thread ∈ threads.toList) : thread ∈ world.ledger.roster registry := by
  rw [← hrun.taken registry]
  apply List.mem_append_left
  refine List.mem_flatMap.mpr ⟨_, hmem, ?_⟩
  rwa [Happening.taken, if_pos rfl]

/-- While no admission from a registry is in progress, nobody has threads of it in hands. -/
theorem unlisted_of_rests (hrun : Runs {} history world flows)
    (hrests : Registry.Rests target history) (number : Nat) :
    ∀ thread ∈ (Journal.ofHistory history).waiting number,
      thread ∉ world.ledger.roster target := by
  have haccount := (hrun.account admitting_obeyed admissions_upholds).1
  rw [Journal.waiting]
  cases hbatch : admitting.standing (.ofHistory history) number with
  | none => simp
  | some batch =>
      obtain ⟨operation, steps, hown, hsteps, hkeeps, rfl⟩ := haccount.story_of_standing hbatch
      have hidle := hrests number
      rw [hown] at hidle
      refine unlisted_foldl (fun _ thread hthread => ?_) hsteps hkeeps ?_ hidle
      · cases hthread
      · intro registry threads hmem hregistry thread hthread hmine
        have htheirs := hrun.mem_roster_of_detach (hrun.mem_history hown hmem) hthread
        exact hregistry (hrun.roster_apart htheirs hmine)

/-- What an operation has in its hands changes with what it does. -/
theorem waiting_gains {index number : Nat} {happening : Happening} {later : World}
    {laterFlows : Nat → Flow} (hrun : Runs {} (history ++ [(index, happening)]) later laterFlows)
    (hgains : (Journal.ofHistory history).Gains
      (Journal.ofHistory (history ++ [(index, happening)])) number happening) :
    (Journal.ofHistory (history ++ [(index, happening)])).waiting =
      Function.update (Journal.ofHistory history).waiting number
        ((admitting.track (admitting.standing (.ofHistory history) number) happening).elim []
          Batch.waiting) := by
  obtain ⟨_, hstanding⟩ := (hrun.account admitting_obeyed admissions_upholds).1.gained hgains
  funext other
  rw [Journal.waiting, hstanding, elim_update, Function.update_apply]
  rfl

/-- A thread that is not on a roster yet is in nobody's hands, and nobody has got it. -/
theorem free_of_fresh {number : Nat} {batch : Batch} {thread : Ref .thread}
    (hrun : Runs {} history world flows) (hunforced : Unforced history)
    (hbatch : admitting.standing (.ofHistory history) number = some batch)
    (hthread : thread ∈ batch.fresh) : thread ∉ handedIn (history.map Prod.snd) ∧
      ∀ other, thread ∉ (Journal.ofHistory history).waiting other := by
  obtain ⟨hsorted, _⟩ := (hrun.account admitting_obeyed admissions_upholds).2 hunforced
  have hfresh : thread ∈ Place.contents world.ledger (admitting.standing (.ofHistory history))
      (handedIn (history.map Prod.snd)) (.fresh number) := by
    simpa [Place.contents, hbatch] using hthread
  refine ⟨fun hhanded => ?_, fun other hother => ?_⟩
  · have hplace : Place.fresh number = .handed := hsorted.apart hfresh hhanded
    cases hplace
  · have hplace : Place.fresh number = .waiting other := hsorted.apart hfresh hother
    cases hplace

/-- Where all is calm and batches do not overlap, the registry is in turn. -/
theorem inTurn (hrun : Runs {} history world flows) (target : Ref .registry)
    (hunforced : Unforced history) (hcalm : Calm history)
    (hturns : Registry.TakesTurns target history) :
    ∃ holder, InTurn (world.ledger.roster target) (takenIn target (history.map Prod.snd))
      (handedIn (history.map Prod.snd)) (Journal.ofHistory history).waiting holder := by
  revert hunforced hcalm hturns
  refine hrun.grows (fun history world => Unforced history → Calm history →
    Registry.TakesTurns target history → ∃ holder,
      InTurn (world.ledger.roster target) (takenIn target (history.map Prod.snd))
        (handedIn (history.map Prod.snd)) (Journal.ofHistory history).waiting holder) ?_ ?_
  · intro _ _ _
    refine ⟨0, fun _ _ thread hthread => ?_, rfl⟩
    cases hthread
  · intro history world flows later flows' happening index number hbefore hafter hmoved hgains ih
      hunforced hcalm hturns
    obtain ⟨holder, hturn⟩ := ih hunforced.of_concat.1 hcalm.of_concat.1 hturns.of_concat
    obtain ⟨_, hadmissions⟩ := hbefore.account admitting_obeyed admissions_upholds
    obtain ⟨_, hnames, hcovered⟩ := hadmissions hunforced.of_concat.1
    obtain ⟨haccepts, _⟩ := (hafter.account admitting_obeyed admissions_upholds).1.gained hgains
    obtain ⟨hanswers, hledger⟩ := World.ledger_after hmoved
    rw [hafter.waiting_gains hgains, hledger, taken_history, handed_history]
    -- Who starts or returns has nothing in its hands.
    have hidle : (Journal.ofHistory history).waiting number = [] →
        ∃ holder, InTurn (world.ledger.roster target) (takenIn target (history.map Prod.snd) ++ [])
          (handedIn (history.map Prod.snd) ++ [])
            (Function.update (Journal.ofHistory history).waiting number []) holder := by
      intro hnone
      rw [List.append_nil, List.append_nil]
      exact ⟨holder, hturn.pass hnone (by simp)⟩
    cases hstep : happening.isStep with
    | false =>
        cases happening with
        | started operation =>
            apply hidle
            have hnone : admitting.standing (.ofHistory history) number = none := haccepts
            rw [Journal.waiting, hnone]
            rfl
        | finished operation result =>
            apply hidle
            obtain ⟨batch, hbatch, hreturns⟩ := haccepts
            rw [Journal.waiting, hbatch]
            exact (hcovered.clear hbatch (hnames.accepted hbatch) hreturns hcalm.of_concat.1).1
        | _ => cases hstep
    | true =>
        obtain ⟨batch, hbatch, hallows⟩ := (Discipline.accepts_iff hstep).mp haccepts
        rw [hbatch, Discipline.track_some hstep]
        refine hturn.step ?_ hanswers hallows hcovered.listed hbefore.roster_apart ?_ ?_
        · rw [Journal.waiting, hbatch]
          rfl
        · exact fun thread hthread => hbefore.free_of_fresh hunforced.of_concat.1 hbatch hthread
        · intro htakes
          exact hbefore.unlisted_of_rests (hturns history _ [] rfl htakes)

end Runs

/-- Where the threads come from that are on their way to managers. -/
structure Listed (ledger : Ledger) (batches : Nat → Option Batch) (handed : List (Ref .thread)) :
    Prop where
  staged : ∀ {registry thread}, thread ∈ ledger.staged registry → thread ∈ ledger.roster registry
  waiting : ∀ {number batch thread}, batches number = some batch → thread ∈ batch.waiting →
    ∃ registry, thread ∈ ledger.roster registry
  handed : ∀ {thread}, thread ∈ handed → ∃ registry, thread ∈ ledger.roster registry

section
variable {ledger : Ledger} {batches : Nat → Option Batch} {handed : List (Ref .thread)}
  {number : Nat}

theorem Listed.vacate {state : Option Batch} (hlisted : Listed ledger batches handed)
    (hwaiting : state.elim [] Batch.waiting = []) :
    Listed ledger (Function.update batches number state) handed where
  staged := hlisted.staged
  waiting hbatch hthread := by
    rcases update_eq_some hbatch with ⟨rfl, rfl⟩ | ⟨_, hold⟩
    · rw [show Batch.waiting _ = [] from hwaiting] at hthread
      cases hthread
    · exact hlisted.waiting hold hthread
  handed := hlisted.handed

/-- What waits after a step, or is handed over in it, has waited before or was staged. -/
theorem waiting_or_staged {batch : Batch} {happening : Happening} {thread : Ref .thread}
    (hanswers : ledger.Answers happening) (hallows : batch.Allows happening)
    (hthread : thread ∈ (batch.observe happening).waiting ++ happening.hands) :
    thread ∈ batch.waiting ∨ ∃ registry, thread ∈ ledger.staged registry := by
  induction happening using Happening.cases_plain with
  | plain happening hplain =>
      rw [Batch.observe, Batch.pass_of_plain hplain, Happening.hands_of_plain hplain,
        List.append_nil] at hthread
      exact Or.inl hthread
  | detach registry threads =>
      have hthreads : threads.toList = ledger.staged registry := hanswers
      have hmem : thread ∈ batch.waiting ∨ thread ∈ threads.toList := by
        simpa [Batch.observe, Batch.pass, Happening.hands] using hthread
      rw [hthreads] at hmem
      exact hmem.imp_right fun hstaged => ⟨registry, hstaged⟩
  | schedule manager name other result =>
      obtain ⟨_, _, rest, hwaiting⟩ := hallows
      apply Or.inl
      simpa [Batch.observe, Batch.pass, Happening.hands, hwaiting, or_comm] using hthread
  | newThread id mailbox made => exact Or.inl (List.append_nil batch.waiting ▸ hthread)
  | enroll registry made count => exact Or.inl (List.append_nil batch.waiting ▸ hthread)
  | bind bound sched first => exact Or.inl (List.append_nil batch.waiting ▸ hthread)
  | runLoop context => exact Or.inl (List.append_nil batch.waiting ▸ hthread)

theorem Listed.step {batch : Batch} {happening : Happening}
    (hlisted : Listed ledger batches handed) (hbatch : batches number = some batch)
    (hanswers : ledger.Answers happening) (hallows : batch.Allows happening) :
    Listed (ledger.record happening)
      (Function.update batches number (some (batch.observe happening)))
      (handed ++ happening.hands) := by
  have hgrown : ∀ {registry thread}, thread ∈ ledger.roster registry →
      thread ∈ (ledger.record happening).roster registry := by
    intro registry thread hthread
    rw [Ledger.record_roster]
    exact List.mem_append_left _ hthread
  have hpassed : ∀ {thread}, thread ∈ (batch.observe happening).waiting ++ happening.hands →
      ∃ registry, thread ∈ (ledger.record happening).roster registry := by
    intro thread hthread
    rcases waiting_or_staged hanswers hallows hthread with hwaits | ⟨registry, hstaged⟩
    · obtain ⟨registry, hroster⟩ := hlisted.waiting hbatch hwaits
      exact ⟨registry, hgrown hroster⟩
    · exact ⟨registry, hgrown (hlisted.staged hstaged)⟩
  constructor
  · intro registry thread hthread
    have hmem : thread ∈ ledger.staged registry ++ (happening.enrolled? registry).toList := by
      rw [← Ledger.record_staged registry hanswers]
      exact List.mem_append_right _ hthread
    rw [Ledger.record_roster]
    exact List.mem_append.mpr ((List.mem_append.mp hmem).imp_left hlisted.staged)
  · intro other later thread hlater hthread
    rcases update_eq_some hlater with ⟨rfl, hnew⟩ | ⟨_, hold⟩
    · cases hnew
      exact hpassed (List.mem_append_left _ hthread)
    · obtain ⟨registry, hroster⟩ := hlisted.waiting hold hthread
      exact ⟨registry, hgrown hroster⟩
  · intro thread hthread
    rcases List.mem_append.mp hthread with hold | hnew
    · obtain ⟨registry, hroster⟩ := hlisted.handed hold
      exact ⟨registry, hgrown hroster⟩
    · exact hpassed (List.mem_append_right _ hnew)

end

/-- Only threads from rosters are ever on their way to managers. -/
theorem listed_upholds : admitting.Upholds {} fun history world batches =>
    Listed world.ledger batches (handedIn (history.map Prod.snd)) where
  idle :=
    { staged := fun hthread => by cases hthread
      waiting := fun hbatch => by cases hbatch
      handed := fun hthread => by cases hthread }
  start _ _ _ hlisted _ := by
    rw [handed_history]
    simpa [Happening.hands] using hlisted.vacate rfl
  step _ _ hlisted hbatch _ hafter := by
    obtain ⟨hanswers, hledger⟩ := World.ledger_after hafter
    refine ⟨trivial, fun hallows => ?_⟩
    rw [hledger, handed_history]
    exact hlisted.step hbatch hanswers hallows
  finish _ _ _ _ hlisted _ _ := by
    rw [handed_history]
    simpa [Happening.hands] using hlisted.vacate rfl

section
variable {roster taken handed threads : List (Ref .thread)} {waiting : Nat → List (Ref .thread)}
  {holder : Nat} {numbers : List Nat}

/-- Of many places that are all empty but one, the contents are those of that one. -/
theorem flatMap_sublist_of_others {contents : Nat → List (Ref .thread)} (hnodup : numbers.Nodup)
    (hothers : ∀ other ≠ holder, contents other = []) :
    (numbers.flatMap contents).Sublist (contents holder) := by
  induction numbers with
  | nil => exact List.nil_sublist _
  | cons number numbers ih =>
      rw [List.nodup_cons] at hnodup
      rw [List.flatMap_cons]
      by_cases hnumber : number = holder
      · subst hnumber
        have hnone : numbers.flatMap contents = [] := by
          rw [List.flatMap_eq_nil_iff]
          rintro other hother
          apply hothers
          rintro rfl
          exact hnodup.1 hother
        rw [hnone, List.append_nil]
      · rw [hothers number hnumber, List.nil_append]
        exact ih hnodup.2

/-- Who picks of the first thread only picks the first, or none. -/
theorem prefix_of_sublist_take (hpicked : taken.Sublist (among roster (threads.take 1))) :
    taken <+: among roster threads := by
  cases threads with
  | nil => exact List.sublist_nil.mp hpicked ▸ List.nil_prefix
  | cons first rest =>
      rw [← List.singleton_append, among_append]
      rcases List.sublist_singleton.mp (hpicked.trans List.filter_sublist) with rfl | rfl
      · exact List.nil_prefix
      · have hfirst : [first] = among roster [first] :=
          hpicked.eq_of_length_le (List.length_filter_le _ _)
        rw [← hfirst]
        exact List.prefix_append _ _

/-- If everybody hands over the first of its threads at most, only the holder does so with threads
of the roster. -/
theorem InTurn.among_leads (hturn : InTurn roster taken handed waiting holder)
    (hnodup : numbers.Nodup)
    (hthreads : threads.Sublist (numbers.flatMap fun number => (waiting number).take 1)) :
    among roster (handed ++ threads) <+: taken := by
  have hsublist : (among roster threads).Sublist (among roster ((waiting holder).take 1)) := by
    apply (hthreads.filter _).trans
    rw [List.filter_flatMap]
    apply flatMap_sublist_of_others hnodup
    intro other hother
    exact among_eq_nil fun thread hthread =>
      hturn.others other hother thread (List.mem_of_mem_take hthread)
  rw [hturn.taken, among_append, among_append, List.prefix_append_right_inj]
  exact prefix_of_sublist_take hsublist

/-- The threads that all operations are handing over are from the rosters of registries. -/
theorem Listed.handing {machine : Machine} {journal : Journal} {ledger : Ledger}
    (hlisted : Listed ledger (admitting.standing journal) handed)
    (haccount : admitting.Account journal machine.flow) :
    ∀ thread ∈ machine.handing, ∃ registry, thread ∈ ledger.roster registry := by
  intro thread hthread
  obtain ⟨number, _, hfirst⟩ := List.mem_flatMap.mp ((handing_of_account haccount).mem hthread)
  have hwaits := List.mem_of_mem_take hfirst
  rw [Journal.waiting] at hwaits
  cases hbatch : admitting.standing journal number with
  | none => simp [hbatch] at hwaits
  | some batch =>
      rw [hbatch] at hwaits
      exact hlisted.waiting hbatch hwaits

end

theorem World.mem_roster {world : World} {place : Ref .registry} {thread : Ref .thread} :
    thread ∈ world.ledger.roster place ↔
      ∃ registry, world.registryAt? place = some registry ∧ thread ∈ registry.roster := by
  cases hregistry : world.registryAt? place <;> simp [World.ledger, hregistry]

namespace Registry

/-- What admissions have made of a registry whose batches do not overlap. -/
structure AdmitsInOrder (target : Ref .registry) (registry : Registry) (machine : Machine)
    (history : History) : Prop where
  /-- The threads of the registry that were handed to managers, with the one that is being handed
  over, are the first of its roster, in this order. -/
  passed : among registry.roster.toList (handedIn (history.map Prod.snd) ++ machine.handing) <+:
    registry.roster.toList
  /-- While no admission is in progress, all others are staged, in this order. -/
  staged : Rests target history →
    among registry.roster.toList (handedIn (history.map Prod.snd)) ++ registry.pending.toList =
      registry.roster.toList
  /-- Whatever is handed over comes from the roster of a registry, -/
  listed : ∀ thread ∈ handedIn (history.map Prod.snd) ++ machine.handing, ∃ place other,
    machine.world.registryAt? place = some other ∧ thread ∈ other.roster
  /-- so where no other registry has threads, nothing else is handed over. -/
  alone : (∀ place other, machine.world.registryAt? place = some other → place ≠ target →
      other.roster = #[]) →
    handedIn (history.map Prod.snd) ++ machine.handing <+: registry.roster.toList

/-- Threads may be created by anyone at any time, in callbacks too: a registry whose batches do not
overlap has its threads admitted in order. -/
theorem admitsInOrder_of_run? {count : Nat} {moves : List (Nat × Move)} {machine : Machine}
    {history : History} {target : Ref .registry} {registry : Registry}
    (hrun : (Machine.idle {} count).run? moves = some (machine, history))
    (hregistry : machine.world.registryAt? target = some registry)
    (hunforced : Unforced history) (hcalm : Calm history) (hturns : TakesTurns target history) :
    AdmitsInOrder target registry machine history := by
  have hruns := Machine.runs_of_run? hrun
  have hroster := World.ledger_roster hregistry
  have hstaged : machine.world.ledger.staged target = registry.pending.toList := by
    simp [World.ledger, hregistry]
  have htaken := hruns.taken target
  rw [hroster, hstaged] at htaken
  obtain ⟨haccount, hlisted⟩ := hruns.account admitting_obeyed listed_upholds
  obtain ⟨holder, hturn⟩ := hruns.inTurn target hunforced hcalm hturns
  rw [hroster] at hturn
  have hpassed : among registry.roster.toList
      (handedIn (history.map Prod.snd) ++ machine.handing) <+: registry.roster.toList := by
    have hnodup := haccount.sound.inProgress_nodup machine.flows.size
    exact (hturn.among_leads hnodup (handing_of_account haccount)).trans ⟨_, htaken⟩
  have horigin : ∀ thread ∈ handedIn (history.map Prod.snd) ++ machine.handing, ∃ place other,
      machine.world.registryAt? place = some other ∧ thread ∈ other.roster := by
    intro thread hthread
    have hsome : ∃ place, thread ∈ machine.world.ledger.roster place :=
      (List.mem_append.mp hthread).elim hlisted.handed (hlisted.handing haccount thread)
    obtain ⟨place, hplace⟩ := hsome
    exact ⟨place, World.mem_roster.mp hplace⟩
  refine ⟨hpassed, ?_, horigin, ?_⟩
  · intro hrests
    have hnone := hruns.unlisted_of_rests hrests holder
    rw [hroster] at hnone
    rw [hturn.taken, among_append, among_eq_nil hnone, List.append_nil] at htaken
    exact htaken
  · intro halone
    rwa [among_eq_self] at hpassed
    intro thread hthread
    obtain ⟨place, other, hother, hmem⟩ := horigin thread hthread
    by_cases hplace : place = target
    · subst hplace
      obtain rfl : registry = other := Option.some.inj (hregistry.symm.trans hother)
      exact hmem.val
    · rw [halone place other hother hplace] at hmem
      simp at hmem

open Schedule

/-- A context admits two threads and runs its loop.  A third thread is created while the first is
handed over, a fourth in a quantum, and a fifth while the fourth is handed over. -/
def creationsDuringRun : List (Nat × Move) :=
  inFlow 0 (along (.makeRegistry ⟨0⟩ 1) 2 ++ makingContext ⟨0⟩ .everyQuantum ⟨0⟩ ⟨0⟩ ++
    creating ⟨0⟩ ++ creating ⟨0⟩ ++ [Move.start (.run ⟨0⟩)] ++ steps 5 ++
    creating ⟨0⟩ ++ [Move.answer (.schedule ⟨0⟩ "" ⟨0⟩) (.ok ⟨5⟩)] ++ steps 3 ++
    [Move.answer (.schedule ⟨0⟩ "" ⟨1⟩) (.ok ⟨6⟩)] ++ steps 5 ++
    [Move.answer (.hasThreads ⟨0⟩) (.ok true)] ++ steps 3 ++ creating ⟨0⟩ ++
    [Move.answer (.runQuantum ⟨0⟩) (.ok .proceed)] ++ steps 5 ++
    [Move.answer (.schedule ⟨0⟩ "" ⟨2⟩) (.ok ⟨7⟩)] ++ steps 3 ++ creating ⟨0⟩)

theorem admitsInOrder_creationsDuringRun : ∃ machine history registry,
    (Machine.idle {} 1).run? creationsDuringRun = some (machine, history) ∧
      machine.world.registryAt? ⟨0⟩ = some registry ∧
        handedIn (history.map Prod.snd) = [⟨0⟩, ⟨1⟩, ⟨2⟩] ∧ machine.handing = [⟨3⟩] ∧
          registry.roster = #[⟨0⟩, ⟨1⟩, ⟨2⟩, ⟨3⟩, ⟨4⟩] ∧ registry.pending = #[⟨4⟩] ∧
            AdmitsInOrder ⟨0⟩ registry machine history := by
  have hsome : ((Machine.idle {} 1).run? creationsDuringRun).isSome := by decide +kernel
  obtain ⟨⟨machine, history⟩, hrun⟩ := Option.isSome_iff_exists.mp hsome
  have hregistry : (((Machine.idle {} 1).run? creationsDuringRun).bind fun outcome =>
      outcome.1.world.registryAt? ⟨0⟩) =
        some ⟨⟨0⟩, 1, ⟨0⟩, 5, #[⟨0⟩, ⟨1⟩, ⟨2⟩, ⟨3⟩, ⟨4⟩], #[⟨4⟩]⟩ := by decide +kernel
  have hhanded : (((Machine.idle {} 1).run? creationsDuringRun).map fun outcome =>
      (handedIn (outcome.2.map Prod.snd), outcome.1.handing)) =
        some ([⟨0⟩, ⟨1⟩, ⟨2⟩], [⟨3⟩]) := by decide +kernel
  have hfits : (((Machine.idle {} 1).run? creationsDuringRun).map fun outcome =>
      decide (Unforced outcome.2 ∧ Calm outcome.2 ∧ TakesTurns ⟨0⟩ outcome.2)) =
        some true := by decide +kernel
  rw [hrun] at hregistry hhanded hfits
  obtain ⟨hunforced, hcalm, hturns⟩ := of_decide_eq_true (Option.some.inj hfits)
  obtain ⟨hhands, hhanding⟩ := Prod.mk.inj (Option.some.inj hhanded)
  exact ⟨machine, history, _, hrun, hregistry, hhands, hhanding, rfl, rfl,
    admitsInOrder_of_run? hrun hregistry hunforced hcalm hturns⟩

end Registry

end CoreEngines
