import CoreEngines.Proofs.Runs
import Mathlib.Data.List.Induction
import Mathlib.Data.List.Nodup
import Mathlib.Data.List.Perm.Subperm

/-!
Journals.  A journal puts every happening of a run down to the operation that it belongs to.  The
operations are numbered in the order in which they start, so an operation is told apart from all
others, also from those with the same arguments, and its own story can be read off.
-/

namespace CoreEngines

/-- What a run looks like sorted by operations.  `running` lists the operations in progress in
each flow, the innermost first. -/
structure Journal where
  started : Nat
  running : Nat → List Nat
  entries : List (Nat × Happening)

namespace Journal

def blank : Journal :=
  ⟨0, fun _ => [], []⟩

/-- The entry of a happening in a flow: the innermost operation of that flow did it. -/
def entry? (journal : Journal) (index : Nat) (happening : Happening) : Option (Nat × Happening) :=
  (journal.running index).head?.map fun number => (number, happening)

/-- Write down one more thing that happened. -/
def add (journal : Journal) : Nat × Happening → Journal
  | (index, .started operation) =>
      { started := journal.started + 1
        running := Function.update journal.running index
          (journal.started :: journal.running index)
        entries := journal.entries ++ [(journal.started, .started operation)] }
  | (index, .finished operation result) =>
      { journal with
        running := Function.update journal.running index (journal.running index).tail
        entries := journal.entries ++
          (journal.entry? index (.finished operation result)).toList }
  | (index, happening) =>
      { journal with entries := journal.entries ++ (journal.entry? index happening).toList }

/-- The journal of a run. -/
def ofHistory (history : History) : Journal :=
  history.foldl add blank

/-- The story of one operation, from its start to its return. -/
def own (journal : Journal) (number : Nat) : List Happening :=
  journal.entries.filterMap fun entry => if entry.1 = number then some entry.2 else none

theorem ofHistory_concat (history : History) (entry : Nat × Happening) :
    ofHistory (history ++ [entry]) = (ofHistory history).add entry := by
  simp [ofHistory]

theorem mem_of_own {journal : Journal} {number : Nat} {happening : Happening}
    (hmem : happening ∈ journal.own number) : happening ∈ journal.entries.map Prod.snd := by
  obtain ⟨entry, hentry, hsome⟩ := List.mem_filterMap.mp hmem
  split at hsome
  · cases hsome
    exact List.mem_map_of_mem hentry
  · cases hsome

end Journal

/-- What is picked from a list comes in the order of the list. -/
theorem map_filterMap_sublist {α β γ : Type} {pick : α → Option β} {name : α → γ} {label : β → γ}
    (hname : ∀ entry picked, pick entry = some picked → label picked = name entry)
    (entries : List α) : ((entries.filterMap pick).map label).Sublist (entries.map name) := by
  induction entries with
  | nil => exact List.Sublist.refl _
  | cons entry entries ih =>
      rw [List.filterMap_cons]
      cases hpick : pick entry with
      | none => exact ih.cons _
      | some picked =>
          rw [List.map_cons, hname entry picked hpick]
          exact ih.cons_cons _

theorem Journal.own_sublist (journal : Journal) (number : Nat) :
    (journal.own number).Sublist (journal.entries.map Prod.snd) := by
  rw [← List.map_id (journal.own number)]
  refine map_filterMap_sublist (fun entry told htold => ?_) _
  exact (Option.some.inj (Option.ite_none_right_eq_some.mp htold).2).symm

/-- Whether an operation did this between its start and its return. -/
def Happening.isStep : Happening → Bool
  | .started _ | .finished _ _ => false
  | _ => true

theorem Program.Goes.isStep {α : Type} {rest rest' : Program α} {happening : Happening}
    (hgoes : rest.Goes happening rest') : happening.isStep := by
  cases hgoes <;> rfl

namespace Journal

/-- No number is given out twice. -/
structure Sound (journal : Journal) : Prop where
  numbered : ∀ {index number : Nat}, number ∈ journal.running index → number < journal.started
  nodup : ∀ index : Nat, (journal.running index).Nodup
  apart : ∀ {index other number : Nat}, number ∈ journal.running index →
    number ∈ journal.running other → index = other
  logged : ∀ entry ∈ journal.entries, entry.1 < journal.started

variable {journal : Journal} {index number : Nat} {below : List Nat}

theorem blank_sound : blank.Sound where
  numbered hmem := by simp [blank] at hmem
  nodup _ := List.nodup_nil
  apart hmem := by simp [blank] at hmem
  logged _ hmem := by simp [blank] at hmem

theorem own_eq_nil (hsound : journal.Sound) (hnumber : journal.started ≤ number) :
    journal.own number = [] := by
  rw [own, List.filterMap_eq_nil_iff]
  intro entry hentry
  have hlogged := hsound.logged entry hentry
  rw [if_neg (by omega)]

theorem lt_started_of_own {happening : Happening} {story : List Happening}
    (hsound : journal.Sound) (hown : journal.own number = happening :: story) :
    number < journal.started := by
  by_contra hnot
  rw [own_eq_nil hsound (Nat.le_of_not_lt hnot)] at hown
  cases hown

theorem add_started (operation : Operation) :
    journal.add (index, .started operation) =
      { started := journal.started + 1
        running := Function.update journal.running index
          (journal.started :: journal.running index)
        entries := journal.entries ++ [(journal.started, .started operation)] } :=
  rfl

theorem add_step {happening : Happening} (hstep : happening.isStep)
    (hrunning : journal.running index = number :: below) :
    journal.add (index, happening) =
      { journal with entries := journal.entries ++ [(number, happening)] } := by
  cases happening <;> simp_all [add, entry?, Happening.isStep]

theorem add_finished {operation : Operation} (result : Except Failure operation.Reply)
    (hrunning : journal.running index = number :: below) :
    journal.add (index, .finished operation result) =
      { journal with
        running := Function.update journal.running index below
        entries := journal.entries ++ [(number, .finished operation result)] } := by
  simp [add, entry?, hrunning]

theorem running_add_started (operation : Operation) :
    (journal.add (index, .started operation)).running =
      Function.update journal.running index (journal.started :: journal.running index) :=
  rfl

theorem running_add_step {happening : Happening} (hstep : happening.isStep)
    (hrunning : journal.running index = number :: below) :
    (journal.add (index, happening)).running = journal.running := by
  rw [add_step hstep hrunning]

theorem running_add_finished {operation : Operation} (result : Except Failure operation.Reply)
    (hrunning : journal.running index = number :: below) :
    (journal.add (index, .finished operation result)).running =
      Function.update journal.running index below := by
  rw [add_finished result hrunning]

theorem started_add_step {happening : Happening} (hstep : happening.isStep)
    (hrunning : journal.running index = number :: below) :
    (journal.add (index, happening)).started = journal.started := by
  rw [add_step hstep hrunning]

theorem own_add_started (hsound : journal.Sound) (operation : Operation) :
    (journal.add (index, .started operation)).own =
      Function.update journal.own journal.started [.started operation] := by
  funext other
  by_cases hother : other = journal.started
  · subst hother
    have hnil := own_eq_nil hsound (Nat.le_refl journal.started)
    simp only [own] at hnil
    simp [own, add_started, hnil]
  · simp [own, add_started, hother, Ne.symm hother]

theorem own_append (journal : Journal) (number : Nat) (happening : Happening)
    (running : Nat → List Nat) :
    ({ journal with
        running := running
        entries := journal.entries ++ [(number, happening)] } : Journal).own =
      Function.update journal.own number (journal.own number ++ [happening]) := by
  funext other
  by_cases hother : other = number
  · subst hother
    simp [own]
  · simp [own, hother, Ne.symm hother]

theorem own_add_step {happening : Happening} (hstep : happening.isStep)
    (hrunning : journal.running index = number :: below) :
    (journal.add (index, happening)).own =
      Function.update journal.own number (journal.own number ++ [happening]) := by
  rw [add_step hstep hrunning]
  exact own_append journal number happening journal.running

theorem own_add_finished {operation : Operation} (result : Except Failure operation.Reply)
    (hrunning : journal.running index = number :: below) :
    (journal.add (index, .finished operation result)).own =
      Function.update journal.own number
        (journal.own number ++ [.finished operation result]) := by
  rw [add_finished result hrunning]
  exact own_append journal number _ _

theorem add_started_sound (hsound : journal.Sound) (operation : Operation) :
    (journal.add (index, .started operation)).Sound := by
  have hnew : ∀ {other number : Nat},
      number ∈ (journal.add (index, .started operation)).running other →
        number ∈ journal.running other ∨ (number = journal.started ∧ other = index) := by
    intro other number hmem
    by_cases hother : other = index
    · subst hother
      simp only [add_started, Function.update_self, List.mem_cons] at hmem
      rcases hmem with hmem | hmem
      · exact Or.inr ⟨hmem, rfl⟩
      · exact Or.inl hmem
    · simp only [add_started, Function.update_of_ne hother] at hmem
      exact Or.inl hmem
  constructor
  · intro other number hmem
    rcases hnew hmem with hmem | ⟨rfl, _⟩
    · exact Nat.lt_succ_of_lt (hsound.numbered hmem)
    · exact Nat.lt_succ_self _
  · intro other
    by_cases hother : other = index
    · subst hother
      simp only [add_started, Function.update_self, List.nodup_cons]
      exact ⟨fun hmem => Nat.lt_irrefl _ (hsound.numbered hmem), hsound.nodup other⟩
    · simpa only [add_started, Function.update_of_ne hother] using hsound.nodup other
  · intro first second number hfirst hsecond
    rcases hnew hfirst with hold | ⟨rfl, rfl⟩
    · rcases hnew hsecond with hold' | ⟨rfl, rfl⟩
      · exact hsound.apart hold hold'
      · exact absurd (hsound.numbered hold) (Nat.lt_irrefl _)
    · rcases hnew hsecond with hold | ⟨_, rfl⟩
      · exact absurd (hsound.numbered hold) (Nat.lt_irrefl _)
      · rfl
  · intro entry hentry
    simp only [add_started, List.mem_append, List.mem_singleton] at hentry
    rcases hentry with hentry | rfl
    · exact Nat.lt_succ_of_lt (hsound.logged entry hentry)
    · exact Nat.lt_succ_self _

/-- A journal stays sound when operations go away and entries of running ones come in. -/
theorem Sound.shrink (hsound : journal.Sound) {running : Nat → List Nat} {happening : Happening}
    (hsublist : ∀ other, (running other).Sublist (journal.running other))
    (hnumber : number < journal.started) :
    ({ journal with
        running := running
        entries := journal.entries ++ [(number, happening)] } : Journal).Sound where
  numbered hmem := hsound.numbered ((hsublist _).mem hmem)
  nodup other := (hsublist other).nodup (hsound.nodup other)
  apart hfirst hsecond := hsound.apart ((hsublist _).mem hfirst) ((hsublist _).mem hsecond)
  logged entry hentry := by
    simp only [List.mem_append, List.mem_singleton] at hentry
    rcases hentry with hentry | rfl
    · exact hsound.logged entry hentry
    · exact hnumber

theorem Sound.top_lt (hsound : journal.Sound) (hrunning : journal.running index = number :: below) :
    number < journal.started := by
  have hmem : number ∈ journal.running index := by
    rw [hrunning]
    exact List.mem_cons_self
  exact hsound.numbered hmem

theorem add_step_sound (hsound : journal.Sound) {happening : Happening}
    (hstep : happening.isStep) (hrunning : journal.running index = number :: below) :
    (journal.add (index, happening)).Sound := by
  rw [add_step hstep hrunning]
  exact hsound.shrink (fun other => List.Sublist.refl _) (hsound.top_lt hrunning)

theorem add_finished_sound (hsound : journal.Sound) {operation : Operation}
    (result : Except Failure operation.Reply)
    (hrunning : journal.running index = number :: below) :
    (journal.add (index, .finished operation result)).Sound := by
  rw [add_finished result hrunning]
  refine hsound.shrink (fun other => ?_) (hsound.top_lt hrunning)
  by_cases hother : other = index
  · subst hother
    rw [Function.update_self, hrunning]
    exact List.sublist_cons_self number below
  · have hsame := Function.update_of_ne hother below journal.running
    exact hsame ▸ List.Sublist.refl _

end Journal

/-- The journal of a run has as many operations in each flow as run there, and leaves out nothing
that happened. -/
theorem Runs.journal {start world : World} {history : History} {flows : Nat → Flow}
    (hrun : Runs start history world flows) :
    (∀ index, ((Journal.ofHistory history).running index).length = (flows index).length) ∧
      (Journal.ofHistory history).entries.map Prod.snd = history.map Prod.snd := by
  induction hrun with
  | idle => exact ⟨fun _ => rfl, rfl⟩
  | @move history world later flows index happening flow hrun hmove ih =>
      obtain ⟨hlength, hentries⟩ := ih
      have hupdate : ∀ (running : Nat → List Nat) (numbers : List Nat),
          (∀ other, (running other).length = (flows other).length) →
            numbers.length = flow.length → ∀ other,
              (Function.update running index numbers other).length =
                (Function.update flows index flow other).length := by
        intro running numbers hrunning hnumbers other
        by_cases hother : other = index
        · subst hother
          rwa [Function.update_self, Function.update_self]
        · rw [Function.update_of_ne hother, Function.update_of_ne hother, hrunning other]
      rw [Journal.ofHistory_concat]
      have hindex := hlength index
      generalize hold : flows index = old at hmove hindex
      cases hmove with
      | start operation =>
          rw [Journal.add_started]
          refine ⟨hupdate _ _ hlength ?_, by simp [hentries]⟩
          rw [List.length_cons, List.length_cons, hindex]
      | step below hgoes hafter =>
          obtain ⟨number, numbers, hrunning⟩ := List.exists_cons_of_length_eq_add_one hindex
          rw [Journal.add_step hgoes.isStep hrunning]
          refine ⟨?_, by simp [hentries]⟩
          have hsame := hupdate _ _ hlength hindex
          rwa [Function.update_eq_self] at hsame
      | finish operation result below =>
          obtain ⟨number, numbers, hrunning⟩ := List.exists_cons_of_length_eq_add_one hindex
          rw [Journal.add_finished result hrunning]
          refine ⟨hupdate _ _ hlength ?_, by simp [hentries]⟩
          rw [hrunning] at hindex
          exact Nat.succ.inj hindex

namespace Journal

section
variable {β : Type} {journal : Journal} {pick : Happening → Option β} {number : Nat} {deed : β}

/-- Who did what of one kind, in the order of the run. -/
def deeds (journal : Journal) (pick : Happening → Option β) : List (Nat × β) :=
  journal.entries.filterMap fun entry => (pick entry.2).map fun deed => (entry.1, deed)

theorem mem_deeds : (number, deed) ∈ journal.deeds pick ↔
    ∃ happening ∈ journal.own number, pick happening = some deed := by
  constructor
  · intro hmem
    obtain ⟨⟨other, happening⟩, hentry, hsome⟩ := List.mem_filterMap.mp hmem
    obtain ⟨_, hpick, heq⟩ := Option.map_eq_some_iff.mp hsome
    cases heq
    exact ⟨happening, List.mem_filterMap.mpr ⟨_, hentry, if_pos rfl⟩, hpick⟩
  · rintro ⟨happening, hown, hpick⟩
    obtain ⟨⟨other, told⟩, hentry, hsome⟩ := List.mem_filterMap.mp hown
    obtain ⟨rfl, htold⟩ := Option.ite_none_right_eq_some.mp hsome
    cases htold
    exact List.mem_filterMap.mpr ⟨_, hentry, by simp [hpick]⟩

/-- Each operation did as much as its own story tells. -/
theorem count_deeds (journal : Journal) (pick : Happening → Option β) (number : Nat) :
    ((journal.deeds pick).map Prod.fst).count number =
      ((journal.own number).filterMap pick).length := by
  rw [deeds, own]
  induction journal.entries with
  | nil => rfl
  | cons entry entries ih =>
      obtain ⟨other, happening⟩ := entry
      rw [List.filterMap_cons, List.filterMap_cons]
      by_cases hother : other = number
      · subst hother
        cases hpick : pick happening with
        | none =>
            simpa only [hpick, if_pos, Option.map_none, List.filterMap_cons_none hpick] using ih
        | some deed =>
            simpa only [hpick, if_pos, Option.map_some, List.map_cons, List.count_cons_self,
              List.filterMap_cons_some hpick, List.length_cons, Nat.add_right_cancel_iff] using ih
      · cases hpick : pick happening with
        | none => simpa only [hpick, if_neg hother, Option.map_none] using ih
        | some deed =>
            simpa only [hpick, if_neg hother, Option.map_some, List.map_cons,
              List.count_cons_of_ne hother] using ih

end

variable {history before after : History}

theorem entries_add (journal : Journal) (entry : Nat × Happening) :
    ∃ rest, (journal.add entry).entries = journal.entries ++ rest := by
  obtain ⟨index, happening⟩ := entry
  cases happening <;> exact ⟨_, rfl⟩

theorem entries_append (before after : History) :
    ∃ rest, (ofHistory (before ++ after)).entries = (ofHistory before).entries ++ rest := by
  induction after using List.reverseRecOn with
  | nil => exact ⟨[], by simp⟩
  | append_singleton after entry ih =>
      obtain ⟨rest, hrest⟩ := ih
      rw [← List.append_assoc, ofHistory_concat]
      obtain ⟨last, hlast⟩ := entries_add (ofHistory (before ++ after)) entry
      exact ⟨rest ++ last, by rw [hlast, hrest, List.append_assoc]⟩

theorem deeds_append {β : Type} (before after : History) (pick : Happening → Option β) :
    ∃ rest, (ofHistory (before ++ after)).deeds pick = (ofHistory before).deeds pick ++ rest := by
  obtain ⟨rest, hrest⟩ := entries_append before after
  rw [deeds, hrest, List.filterMap_append]
  exact ⟨_, rfl⟩

end Journal

/-- What happened in a run is told, in that order, by those who did it. -/
theorem Runs.deeds {β : Type} {start world : World} {history : History} {flows : Nat → Flow}
    (hrun : Runs start history world flows) (pick : Happening → Option β) :
    ((Journal.ofHistory history).deeds pick).map Prod.snd =
      (history.map Prod.snd).filterMap pick := by
  rw [← hrun.journal.2, Journal.deeds, List.map_filterMap, List.filterMap_map]
  congr 1
  funext entry
  cases hpick : pick entry.2 <;> simp [hpick]

/-- If no operation did more of the first kind than of the second, there was not more of it. -/
theorem Runs.length_le {β γ : Type} {start world : World} {history : History} {flows : Nat → Flow}
    {pick : Happening → Option β} {pick' : Happening → Option γ}
    (hrun : Runs start history world flows)
    (hless : ∀ number, (((Journal.ofHistory history).own number).filterMap pick).length ≤
      (((Journal.ofHistory history).own number).filterMap pick').length) :
    ((history.map Prod.snd).filterMap pick).length ≤
      ((history.map Prod.snd).filterMap pick').length := by
  have hsubperm : List.Subperm (((Journal.ofHistory history).deeds pick).map Prod.fst)
      (((Journal.ofHistory history).deeds pick').map Prod.fst) := by
    rw [List.subperm_ext_iff]
    intro number _
    rw [Journal.count_deeds, Journal.count_deeds]
    exact hless number
  rw [← hrun.deeds pick, ← hrun.deeds pick']
  simpa using hsubperm.length_le

end CoreEngines
