import CoreEngines.Proofs.Admission.Places

/-!
The names of threads.  A thread bears the name that its manager answered when the thread was handed
over, and until the name is recorded it is in the hands of one operation only.  No name is ever
refused.
-/

namespace CoreEngines

/-- A manager was handed the thread, without a name, and answered this one. -/
def Given (history : History) (thread : Ref .thread) (sched : SchedRef) : Prop :=
  ∃ index manager, (index, .answered (.schedule manager "" thread) (.ok sched)) ∈ history

/-- Threads are handed over without a name, and no name that is recorded is refused. -/
def Happening.Proper : Happening → Prop
  | .answered (.schedule _ name _) _ => name = ""
  | .acted (.thread _ (.bind _)) first => first = true
  | _ => True

theorem Happening.proper_of_plain {happening : Happening} (hplain : happening.Plain) :
    happening.Proper := by
  unfold Proper
  split
  · exact hplain.elim
  · exact hplain.elim
  · trivial

section
variable {history : History} {entry : Nat × Happening} {thread : Ref .thread} {sched : SchedRef}

theorem handed_history (history : History) (index : Nat) (happening : Happening) :
    handedIn ((history ++ [(index, happening)]).map Prod.snd) =
      handedIn (history.map Prod.snd) ++ happening.hands := by
  rw [List.map_append, List.map_singleton, handedIn_concat]

theorem Given.concat (hgiven : Given history thread sched) :
    Given (history ++ [entry]) thread sched := by
  obtain ⟨index, manager, hmem⟩ := hgiven
  exact ⟨index, manager, List.mem_append_left _ hmem⟩

theorem Given.mem_handed (hgiven : Given history thread sched) :
    thread ∈ handedIn (history.map Prod.snd) := by
  obtain ⟨index, manager, hmem⟩ := hgiven
  refine List.mem_flatMap.mpr ⟨_, List.mem_map_of_mem hmem, ?_⟩
  exact List.mem_singleton_self thread

end

/-- The names that are recorded, and those that operations have still to record. -/
structure Names (history : History) (names : Ref .thread → Option SchedRef)
    (batches : Nat → Option Batch) : Prop where
  proper : ∀ entry ∈ history, entry.2.Proper
  bound : ∀ {thread sched}, names thread = some sched → Given history thread sched
  naming : ∀ {number batch thread sched}, batches number = some batch →
    batch.naming = some (thread, sched) → Given history thread sched ∧ names thread = none
  alone : ∀ {number other batch batch' thread sched sched'}, batches number = some batch →
    batches other = some batch' → batch.naming = some (thread, sched) →
      batch'.naming = some (thread, sched') → number = other
  accepted : ∀ {number batch}, batches number = some batch → batch.refused = false

theorem update_eq_some {batches : Nat → Option Batch} {number other : Nat}
    {state : Option Batch} {batch : Batch}
    (hbatch : Function.update batches number state other = some batch) :
    (other = number ∧ state = some batch) ∨ (other ≠ number ∧ batches other = some batch) := by
  by_cases hother : other = number
  · subst hother
    rw [Function.update_self] at hbatch
    exact Or.inl ⟨rfl, hbatch⟩
  · rw [Function.update_of_ne hother] at hbatch
    exact Or.inr ⟨hother, hbatch⟩

namespace Names

variable {history : History} {names : Ref .thread → Option SchedRef}
  {batches : Nat → Option Batch} {index number : Nat} {batch : Batch} {happening : Happening}

/-- A change of one batch that names no other thread than before. -/
theorem update {state : Option Batch} (hnames : Names history names batches)
    (hstate : ∀ later, state = some later → later.refused = false ∧
      ∀ thread sched, later.naming = some (thread, sched) →
        ∃ batch, batches number = some batch ∧ batch.naming = some (thread, sched)) :
    Names history names (Function.update batches number state) := by
  have horigin : ∀ {other later thread sched},
      Function.update batches number state other = some later →
        later.naming = some (thread, sched) →
          ∃ batch, batches other = some batch ∧ batch.naming = some (thread, sched) := by
    intro other later thread sched hlater hnaming
    rcases update_eq_some hlater with ⟨rfl, hnew⟩ | ⟨_, hold⟩
    · exact (hstate later hnew).2 thread sched hnaming
    · exact ⟨later, hold, hnaming⟩
  refine ⟨hnames.proper, hnames.bound, ?_, ?_, ?_⟩
  · intro other later thread sched hlater hnaming
    obtain ⟨batch, hbatch, hsame⟩ := horigin hlater hnaming
    exact hnames.naming hbatch hsame
  · intro one other later later' thread sched sched' hlater hlater' hnaming hnaming'
    obtain ⟨batch, hbatch, hsame⟩ := horigin hlater hnaming
    obtain ⟨batch', hbatch', hsame'⟩ := horigin hlater' hnaming'
    exact hnames.alone hbatch hbatch' hsame hsame'
  · intro other later hlater
    rcases update_eq_some hlater with ⟨rfl, hnew⟩ | ⟨_, hold⟩
    · exact (hstate later hnew).1
    · exact hnames.accepted hold

theorem concat (hnames : Names history names batches) (hproper : happening.Proper) :
    Names (history ++ [(index, happening)]) names batches where
  proper entry hentry := by
    rcases List.mem_append.mp hentry with hold | hnew
    · exact hnames.proper entry hold
    · rw [List.mem_singleton.mp hnew]
      exact hproper
  bound hbound := (hnames.bound hbound).concat
  naming hbatch hnaming := (hnames.naming hbatch hnaming).imp_left Given.concat
  alone := hnames.alone
  accepted := hnames.accepted

/-- A name that is recorded. -/
theorem bind {thread : Ref .thread} {sched : SchedRef} {later : Batch}
    (hnames : Names history names batches) (hbatch : batches number = some batch)
    (hnaming : batch.naming = some (thread, sched)) (hdone : later.naming = none)
    (hrefused : later.refused = false) :
    Names history (Function.update names thread (some sched))
      (Function.update batches number (some later)) := by
  have hothers : Names history names (Function.update batches number (some later)) := by
    apply hnames.update
    rintro _ ⟨⟩
    exact ⟨hrefused, by simp [hdone]⟩
  refine ⟨hnames.proper, ?_, ?_, hothers.alone, hothers.accepted⟩
  · intro other name hbound
    by_cases hother : other = thread
    · subst hother
      obtain rfl : sched = name := by simpa using hbound
      exact (hnames.naming hbatch hnaming).1
    · rw [Function.update_of_ne hother] at hbound
      exact hnames.bound hbound
  · intro other found thread' name hfound hnaming'
    obtain ⟨hgiven, hnone⟩ := hothers.naming hfound hnaming'
    refine ⟨hgiven, ?_⟩
    rcases update_eq_some hfound with ⟨rfl, hnew⟩ | ⟨hother, hold⟩
    · cases hnew
      rw [hdone] at hnaming'
      cases hnaming'
    · have hne : thread' ≠ thread := by
        rintro rfl
        exact hother (hnames.alone hold hbatch hnaming' hnaming)
      rwa [Function.update_of_ne hne]

/-- A thread that is handed over, whatever its manager answers. -/
theorem hand {thread : Ref .thread} {later : Batch} (hnames : Names history names batches)
    (hunhanded : thread ∉ handedIn (history.map Prod.snd)) (hrefused : later.refused = false)
    (hnaming : ∀ other sched, later.naming = some (other, sched) →
      other = thread ∧ Given (history ++ [(index, happening)]) thread sched)
    (hproper : happening.Proper) :
    Names (history ++ [(index, happening)]) names
      (Function.update batches number (some later)) := by
  have hothers : Names (history ++ [(index, happening)]) names batches := hnames.concat hproper
  have hnone : ∀ {other batch sched}, batches other = some batch →
      batch.naming ≠ some (thread, sched) := by
    intro other batch sched hbatch hnaming
    exact hunhanded (hnames.naming hbatch hnaming).1.mem_handed
  refine ⟨hothers.proper, hothers.bound, ?_, ?_, ?_⟩
  · intro other batch thread' sched hbatch hnaming'
    rcases update_eq_some hbatch with ⟨rfl, hnew⟩ | ⟨_, hold⟩
    · cases hnew
      obtain ⟨rfl, hgiven⟩ := hnaming thread' sched hnaming'
      refine ⟨hgiven, ?_⟩
      by_contra hsome
      obtain ⟨name, hname⟩ := Option.ne_none_iff_exists'.mp hsome
      exact hunhanded (hnames.bound hname).mem_handed
    · exact hothers.naming hold hnaming'
  · intro one other batch batch' thread' sched sched' hbatch hbatch' hone hother
    rcases update_eq_some hbatch with ⟨rfl, hnew⟩ | ⟨_, hold⟩
    · cases hnew
      obtain ⟨rfl, _⟩ := hnaming thread' sched hone
      rcases update_eq_some hbatch' with ⟨rfl, _⟩ | ⟨_, hold'⟩
      · rfl
      · exact absurd hother (hnone hold')
    · rcases update_eq_some hbatch' with ⟨rfl, hnew⟩ | ⟨_, hold'⟩
      · cases hnew
        obtain ⟨rfl, _⟩ := hnaming thread' sched' hother
        exact absurd hone (hnone hold)
      · exact hothers.alone hold hold' hone hother
  · intro other batch hbatch
    rcases update_eq_some hbatch with ⟨rfl, hnew⟩ | ⟨_, hold⟩
    · cases hnew
      exact hrefused
    · exact hnames.accepted hold

/-- A step that is allowed, in a batch whose threads were not handed over before. -/
theorem step {ledger : Ledger} (hnames : Names history ledger.sched batches)
    (hbatch : batches number = some batch) (hanswers : ledger.Answers happening)
    (hallows : batch.Allows happening)
    (hunhanded : ∀ thread ∈ batch.waiting, thread ∉ handedIn (history.map Prod.snd)) :
    Names (history ++ [(index, happening)]) (ledger.record happening).sched
      (Function.update batches number (some (batch.observe happening))) := by
  have haccepted := hnames.accepted hbatch
  have hsame : ∀ {later : Batch}, later.naming = batch.naming → later.refused = batch.refused →
      happening.Proper → Names (history ++ [(index, happening)]) ledger.sched
        (Function.update batches number (some later)) := by
    intro later hnaming hrefused hproper
    apply (hnames.concat hproper).update
    rintro _ ⟨⟩
    refine ⟨hrefused.trans haccepted, fun thread sched hnew => ?_⟩
    exact ⟨batch, hbatch, hnaming ▸ hnew⟩
  induction happening using Happening.cases_plain with
  | plain happening hplain =>
      rw [Ledger.record_of_plain hplain, Batch.observe, Batch.pass_of_plain hplain]
      exact hsame rfl rfl (Happening.proper_of_plain hplain)
  | bind thread sched first =>
      have hnone : ledger.sched thread = none := (hnames.naming hbatch hallows).2
      obtain rfl : first = true := hanswers.mpr hnone
      refine (hnames.bind hbatch hallows rfl ?_).concat rfl
      simpa [Batch.observe, Batch.pass] using haccepted
  | schedule manager name thread result =>
      obtain ⟨rfl, _, rest, hwaiting⟩ := hallows
      have hmem : thread ∈ batch.waiting := by
        rw [hwaiting]
        exact List.mem_cons_self
      refine hnames.hand (hunhanded thread hmem) haccepted ?_ rfl
      intro other sched hnaming
      cases result with
      | error failure => cases hnaming
      | ok name =>
          cases hnaming
          exact ⟨rfl, index, manager, by simp⟩
  | newThread id mailbox thread => exact hsame rfl rfl trivial
  | enroll registry thread count => exact hsame rfl rfl trivial
  | detach registry threads => exact hsame rfl rfl trivial
  | runLoop context => exact hsame rfl rfl trivial

end Names

end CoreEngines
