import CoreEngines.Proofs.Succession.Turns

/-!
Shortcuts.  A drain looks at the published length of the queue before it goes to the lock, and the
taking of staged threads looks at the published length of the roster.  In a succession of operations
nobody can tell whether they look: with or without, all operations return the same, leave the same
world, and report the same; only the processor is asked less often to mask interrupts.
-/

namespace CoreEngines

/-- What the operations of a run have returned, in their order. -/
def returnedIn (history : History) : List Completed :=
  (history.map Prod.snd).filterMap Happening.returned?

/-- A machine that has done these operations one after the other, and nothing else, on a processor
that keeps its flag. -/
structure Machine.HasDone (machine : Machine) (found : Bool) (plan : List Operation)
    (history : History) : Prop where
  ran : ∃ count moves, (Machine.idle {} count).run? moves = some (machine, history)
  succession : Succession found (history.map Prod.snd) false
  planned : (returnedIn history).map (·.operation) = plan

namespace Succession

/-- The masking of a succession: the flag is as it was found, and the processor was asked for
nothing but to mask interrupts and to put them back, as often as each operation does. -/
structure Masks (found : Bool) (history : History) : Prop where
  flag : flagAfter found (history.map Prod.snd) = found
  asked : (history.map Prod.snd).filter Happening.asks =
    maskings found ((returnedIn history).map Completed.masks).sum

/-- Two runs that differ in nothing but the looks at published lengths, and in drains that have
found nothing: the first has kept these operations, and the second has done what they come to. -/
structure Agrees (found : Bool) (kept : List Completed) (machine machine' : Machine)
    (history history' : History) : Prop where
  returned : (returnedIn history').map Completed.direct = kept.map Completed.direct
  world : machine'.world = machine.world
  flag : flagAfter found (history'.map Prod.snd) = flagAfter found (history.map Prod.snd)
  surfaced : (history'.map Prod.snd).filter Happening.surfaces =
    (history.map Prod.snd).filter Happening.surfaces
  masks : Masks found history'

/-- The plan does what was done, apart from drains that have found nothing, and with or without
looks at published lengths. -/
structure Revises (done kept : List Completed) (plan : List Operation) : Prop where
  abridges : Abridges done kept
  direct : plan.map Operation.direct = kept.map (·.operation.direct)

/-- A run comes to the same with and without looks at published lengths, and with and without the
drains that have found nothing. -/
structure Coincides (found : Bool) (machine : Machine) (history : History) : Prop where
  masks : Masks found history
  possible : ∀ {kept plan}, Revises (returnedIn history) kept plan →
    ∃ machine' history', Machine.HasDone machine' found plan history'
  agrees : ∀ {kept plan machine' history'}, Revises (returnedIn history) kept plan →
    Machine.HasDone machine' found plan history' →
      Agrees found kept machine machine' history history'

section
variable {found : Bool} {plan : List Operation} {machine machine' : Machine}
  {history history' : History} {kept : List Completed}

theorem revises_of_direct {done : List Completed}
    (hdirect : plan.map Operation.direct = done.map (·.operation.direct)) :
    Revises done done plan :=
  ⟨.refl done, hdirect⟩

theorem quiescent_empty : World.Quiescent {} where
  free := rfl
  mailboxes hfound := by simp [World.mailboxAt?] at hfound
  registries hfound := by simp [World.registryAt?] at hfound

theorem play?_of_hasDone (hdone : machine.HasDone found plan history) :
    (Setting.after found [] {}).play? plan =
      some (returnedIn history, .after found (history.map Prod.snd) machine.world) := by
  obtain ⟨⟨count, moves, hrun⟩, hsuccession, rfl⟩ := hdone
  obtain ⟨operations, hplay⟩ :=
    ((Machine.runs_of_run? hrun).follows quiescent_empty hsuccession).play?
  rwa [← (Setting.asked_of_play? hplay).1] at hplay

theorem masks_of_hasDone (hdone : machine.HasDone found plan history) : Masks found history := by
  obtain ⟨_, hflag, hasked⟩ := Setting.asked_of_play? (play?_of_hasDone hdone)
  exact ⟨hflag, hasked⟩

theorem hasDone_of_play? {done : List Completed} {later : Setting}
    (hplay : (Setting.after found [] {}).play? plan = some (done, later)) :
    ∃ machine history, Machine.HasDone machine found plan history := by
  obtain ⟨moves, story, hmoves, hsuccession, hreturned⟩ := run?_of_play? hplay quiescent_empty
  have hrun := @Machine.run?_flow_back (.idle {} 1) 0 _ _ _ _ rfl hmoves
  have hstory : (story.map fun happening => (0, happening)).map Prod.snd = story := by simp
  refine ⟨_, _, ⟨1, _, hrun⟩, hstory.symm ▸ hsuccession, ?_⟩
  rw [returnedIn, hstory, hreturned]
  exact (Setting.asked_of_play? hplay).1

/-- In a succession of operations nobody can tell whether they look at published lengths. -/
theorem coincides_of_run? {count : Nat} {moves : List (Nat × Move)}
    (hrun : (Machine.idle {} count).run? moves = some (machine, history))
    (hsuccession : Succession found (history.map Prod.snd) false) :
    Coincides found machine history := by
  have hdone : Machine.HasDone machine found _ history := ⟨⟨count, moves, hrun⟩, hsuccession, rfl⟩
  have hplay := play?_of_hasDone hdone
  refine ⟨masks_of_hasDone hdone, ?_, ?_⟩
  · rintro kept plan ⟨habridges, hdirect⟩
    obtain ⟨done', later', hplay', -⟩ := habridges.play? hplay rfl hdirect
    exact hasDone_of_play? hplay'
  · rintro kept plan machine' history' ⟨habridges, hdirect⟩ hdone'
    obtain ⟨done', later', hplay', hreturned, hlater⟩ := habridges.play? hplay rfl hdirect
    cases (play?_of_hasDone hdone').symm.trans hplay'
    obtain ⟨hworld, hflag, -, hsurfaced⟩ := Setting.ext_iff.mp hlater
    exact ⟨hreturned, hworld, hflag, hsurfaced, masks_of_hasDone hdone'⟩

end

/-- It matters to the processor's flag only what it is asked. -/
theorem keepsFlag_of_asks {found : Bool} {story : List Happening}
    (hkeeps : KeepsFlag found (story.filter Happening.asks)) : KeepsFlag found story := by
  induction story generalizing found with
  | nil => exact hkeeps
  | cons happening story ih =>
      by_cases hasks : happening.asks
      · rw [List.filter_cons_of_pos hasks, keepsFlag_cons] at hkeeps
        exact keepsFlag_cons.mpr ⟨hkeeps.1, ih hkeeps.2⟩
      · rw [List.filter_cons_of_neg hasks] at hkeeps
        have hflag : flagAfter found [happening] = found := by
          cases happening with
          | answered callback result => exact absurd rfl hasks
          | acted action answer => cases action <;> rfl
          | _ => rfl
        refine keepsFlag_cons.mpr ⟨?_, ih (hflag.symm ▸ hkeeps)⟩
        cases happening <;> trivial

open Schedule

/-- A handler finds room for one message only, although the empty mailbox was drained on both ways
before; then it is drained of that message, and of none.  A registry is asked for new threads before
there are any, and after one was created, and after that was taken. -/
def idleDrains : List Move :=
  along (.makeMailbox 1) 1 ++ along (.drain ⟨0⟩) 1 ++ around (.drainLocked ⟨0⟩) 0 3 0 ++
  along (.pushFromInterrupt ⟨0⟩ (.notification .timeoutEvent 1)) 4 ++
  along (.pushFromInterrupt ⟨0⟩ (.notification .timeoutEvent 2)) 4 ++
  around (.drain ⟨0⟩) 1 6 1 ++ along (.drain ⟨0⟩) 1 ++
  along (.makeRegistry ⟨0⟩ 1) 2 ++ along (.takeStaged ⟨0⟩) 1 ++ creating ⟨0⟩ ++
  along (.takeStaged ⟨0⟩) 4 ++ along (.takeStaged ⟨0⟩) 4

/-- The same without the drains that find nothing, and straight to the lock. -/
def withoutIdleDrains : List Operation :=
  [.makeMailbox 1, .pushFromInterrupt ⟨0⟩ (.notification .timeoutEvent 1),
    .pushFromInterrupt ⟨0⟩ (.notification .timeoutEvent 2), .drainLocked ⟨0⟩, .makeRegistry ⟨0⟩ 1,
    .takeStagedLocked ⟨0⟩, .create ⟨0⟩, .takeStagedLocked ⟨0⟩, .takeStagedLocked ⟨0⟩]

theorem coincides_idleDrains : ∃ machine history,
    (Machine.idle {} 1).run? (inFlow 0 idleDrains) = some (machine, history) ∧
      Succession true (history.map Prod.snd) false ∧ Coincides true machine history ∧
        (machine.world.mailboxAt? ⟨0⟩).map (·.dropped) = some 1 ∧
          (∃ machine' history', Machine.HasDone machine' true withoutIdleDrains history' ∧
            machine'.world = machine.world) ∧
          ∃ machine' history', Machine.HasDone machine' true
            ((returnedIn history).map (·.operation.direct)) history' ∧
              machine'.world = machine.world := by
  have hsome : ((Machine.idle {} 1).run? (inFlow 0 idleDrains)).isSome := by rfl
  obtain ⟨⟨machine, history⟩, hrun⟩ := Option.isSome_iff_exists.mp hsome
  have hturns : (((Machine.idle {} 1).run? (inFlow 0 idleDrains)).bind fun outcome =>
      (outcome.2.map Prod.snd).foldlM Happening.turn? false) = some false := by rfl
  have hasked : (((Machine.idle {} 1).run? (inFlow 0 idleDrains)).map fun outcome =>
      (outcome.2.map Prod.snd).filter Happening.asks) = some (maskings true 2) := by rfl
  have hdropped : (((Machine.idle {} 1).run? (inFlow 0 idleDrains)).map fun outcome =>
      (outcome.1.world.mailboxAt? ⟨0⟩).map (·.dropped)) = some (some 1) := by rfl
  have hreturned : (((Machine.idle {} 1).run? (inFlow 0 idleDrains)).map fun outcome =>
      returnedIn outcome.2) = some
        [⟨.makeMailbox 1, .ok ⟨0⟩⟩, ⟨.drain ⟨0⟩, .ok #[]⟩, ⟨.drainLocked ⟨0⟩, .ok #[]⟩,
          ⟨.pushFromInterrupt ⟨0⟩ (.notification .timeoutEvent 1), .ok ()⟩,
          ⟨.pushFromInterrupt ⟨0⟩ (.notification .timeoutEvent 2), .ok ()⟩,
          ⟨.drain ⟨0⟩, .ok #[.notification .timeoutEvent 1]⟩, ⟨.drain ⟨0⟩, .ok #[]⟩,
          ⟨.makeRegistry ⟨0⟩ 1, .ok ⟨0⟩⟩, ⟨.takeStaged ⟨0⟩, .ok #[]⟩, ⟨.create ⟨0⟩, .ok ⟨0⟩⟩,
          ⟨.takeStaged ⟨0⟩, .ok #[⟨0⟩]⟩, ⟨.takeStaged ⟨0⟩, .ok #[]⟩] := by rfl
  rw [hrun] at hturns hasked hdropped hreturned
  replace hasked : (history.map Prod.snd).filter Happening.asks = maskings true 2 :=
    Option.some.inj hasked
  have hkeeps : KeepsFlag true (history.map Prod.snd) := by
    apply keepsFlag_of_asks
    rw [hasked]
    simp [maskings, Happening.Honest, flagAfter, calls, Call.of?, Call.flag, Call.sets]
  have hcoincides := coincides_of_run? hrun ⟨hturns, hkeeps⟩
  have hrevises : ∃ kept, Revises (returnedIn history) kept withoutIdleDrains := by
    rw [show returnedIn history = _ from Option.some.inj hreturned]
    exact ⟨_, .keep _ <| .skip rfl <| .skip rfl <| .keep _ <| .keep _ <| .keep _ <| .skip rfl <|
      .keep _ <| .keep _ <| .keep _ <| .keep _ <| .keep _ .nil, rfl⟩
  have hstraight : Revises (returnedIn history) (returnedIn history)
      ((returnedIn history).map (·.operation.direct)) := by
    apply revises_of_direct
    rw [show returnedIn history = _ from Option.some.inj hreturned]
    rfl
  have hsame : ∀ {kept plan}, Revises (returnedIn history) kept plan →
      ∃ machine' history', Machine.HasDone machine' true plan history' ∧
        machine'.world = machine.world := by
    intro kept plan hplan
    obtain ⟨machine', history', hdone⟩ := hcoincides.possible hplan
    exact ⟨machine', history', hdone, (hcoincides.agrees hplan hdone).world⟩
  exact ⟨machine, history, hrun, ⟨hturns, hkeeps⟩, hcoincides, Option.some.inj hdropped,
    hrevises.elim fun _ hplan => hsame hplan, hsame hstraight⟩

end Succession

end CoreEngines
