import CoreEngines.Proofs.Interrupts.Scopes

/-!
Operations that nobody disturbs.  While an operation has the world and the processor to itself,
what it is answered is what it has made of both: each action finds the world that the one before has
left, and the processor tells the flag as it was last set.
-/

namespace CoreEngines

def Happening.asks : Happening → Bool
  | .answered _ _ => true
  | _ => false

/-- Whether a happening comes to the surface: a report, the answer to a handler's message, or slots
that are asked for. -/
def Happening.surfaces : Happening → Bool
  | .reported _ | .acted (.mailbox _ (.offer _)) _ | .acted (.mailbox _ .replenish) _ => true
  | _ => false

/-- A world, the flag of the processor that works on it, what the processor was asked so far, and
what has come to the surface. -/
@[ext]
structure Setting where
  world : World
  flag : Bool
  asked : List Happening
  surfaced : List Happening

namespace Setting

/-- What a happening makes of a setting in which nothing else happens. -/
def observe (setting : Setting) (happening : Happening) : Setting where
  world :=
    match happening with
    | .acted action _ => ((setting.world.perform? action).map Prod.snd).getD setting.world
    | _ => setting.world
  flag :=
    match Call.of? happening with
    | some call => call.sets setting.flag
    | none => setting.flag
  asked := if happening.asks then setting.asked ++ [happening] else setting.asked
  surfaced := if happening.surfaces then setting.surfaced ++ [happening] else setting.surfaced

def Performs (setting : Setting) : Happening → Prop
  | .acted action _ => (setting.world.perform? action).isSome
  | _ => True

/-- What the world answers, if it answers at all, and what the processor does. -/
def Answers (setting : Setting) : Happening → Prop
  | .acted action answer => ∀ found later,
      setting.world.perform? action = some (found, later) → found = answer
  | happening => happening.Honest setting.flag

end Setting

/-- The discipline of operations that nobody disturbs.  An operation that is `ready` never has to
wait; of all others it is only said what they come to if they do not wait for ever. -/
def undisturbed (ready : Prop) : Discipline Setting where
  start _ := ⟨{}, true, [], []⟩
  observe := Setting.observe
  Allows setting happening := setting.Performs happening
  Presumes setting happening :=
    (¬ ready → setting.Performs happening) ∧ setting.Answers happening
  Enters procedure setting :=
    match procedure with
    | .claimSerial counter seen => setting.world.counterAt? counter = some ⟨seen⟩
    | _ => False
  Leaves
    | .claimSerial counter seen, setting, later, result => result = .ok seen ∧
        later = { setting with world := { setting.world with
          counters := setting.world.counters.setIfInBounds counter.index ⟨Serial.after seen⟩ } }
    | _, _, _, _ => True
  Returns _ _ _ := True

open Program

section
variable {ready : Prop} {setting : Setting} {α β : Type}

theorem Setting.observe_acted {action : Action} {answer : action.Answer} {later : World}
    (hperform : setting.world.perform? action = some (answer, later)) :
    setting.observe (.acted action answer) =
      { setting with
        world := later
        surfaced :=
          if (Happening.acted action answer).surfaces then
            setting.surfaced ++ [.acted action answer]
          else setting.surfaced } := by
  have hflag : (setting.observe (.acted action answer)).flag = setting.flag := by
    cases action <;> rfl
  have hworld : (setting.observe (.acted action answer)).world = later := by
    simp [Setting.observe, hperform]
  rw [← hflag, ← hworld]
  rfl

/-- An action that the world answers is done at once. -/
theorem undisturbed_perform {action : Action} {answer : action.Answer} {later : World}
    {post : Setting → Except Failure action.Answer → Prop}
    (hperform : setting.world.perform? action = some (answer, later)) :
    Ensures (α := no_index action.Answer) (undisturbed ready) (perform action) setting post ↔
      post (setting.observe (.acted action answer)) (.ok answer) := by
  rw [ensures_perform]
  constructor
  · intro hensures
    refine (hensures answer ⟨fun _ => ?_, ?_⟩).2
    · simp [Setting.Performs, hperform]
    · intro found other hfound
      cases hperform.symm.trans hfound
      rfl
  · rintro hpost other ⟨_, hanswers⟩
    obtain rfl := hanswers _ _ hperform
    exact ⟨by simp [undisturbed, Setting.Performs, hperform], hpost⟩

theorem undisturbed_waits {action : Action} {next : action.Answer → Program β}
    {post : Setting → Except Failure β → Prop} (hwaits : setting.world.perform? action = none)
    (hready : ¬ ready) : (act action next).Ensures (undisturbed ready) setting post := by
  rintro answer ⟨hperforms, _⟩
  have hnot := hperforms hready
  simp [Setting.Performs, hwaits] at hnot

theorem undisturbed_report {event : TraceEvent} {post : Setting → Except Failure Unit → Prop} :
    (report event).Ensures (undisturbed ready) setting post ↔
      post { setting with surfaced := setting.surfaced ++ [.reported event] } (.ok ()) := by
  rw [ensures_report]
  exact ⟨fun hensures => (hensures ⟨fun _ => trivial, trivial⟩).2, fun hpost _ => ⟨trivial, hpost⟩⟩

/-- A free lock is taken, and given back. -/
theorem undisturbed_locked {lock : Lock} {body : Program α}
    {post : Setting → Except Failure α → Prop} (hfree : setting.world.held = []) :
    (locked lock body).Ensures (undisturbed ready) setting post ↔
      body.Ensures (undisturbed ready)
        { setting with world := { setting.world with held := [lock] } } fun inside result =>
          post { inside with world := { inside.world with held := inside.world.held.erase lock } }
            result := by
  have hacquire : setting.world.perform? (.acquire lock) =
      some ((), { setting.world with held := [lock] }) := by
    simp [World.perform?, hfree]
  rw [locked, ensures_bind, undisturbed_perform hacquire, Setting.observe_acted hacquire]
  dsimp only
  rw [withCleanup, ensures_andThen]
  refine iff_of_eq (congrArg (body.Ensures _ _) ?_)
  funext inside result
  rw [ensures_andThen, undisturbed_perform rfl, Setting.observe_acted rfl]
  rfl

/-- Masking clears the flag, and it is put back. -/
theorem undisturbed_masked {body : Program α} {post : Setting → Except Failure α → Prop} :
    (masked body).Ensures (undisturbed ready) setting post ↔
      body.Ensures (undisturbed ready)
        { setting with
          flag := false
          asked := setting.asked ++ [.answered .mask (.ok setting.flag)] } fun inside result =>
            post
              { inside with
                flag := setting.flag
                asked := inside.asked ++ [.answered (.restore setting.flag) (.ok ())] } result := by
  rw [ensures_masked]
  have hmasked : setting.observe (.answered .mask (.ok setting.flag)) =
      { setting with
        flag := false
        asked := setting.asked ++ [.answered .mask (.ok setting.flag)] } := rfl
  constructor
  · intro hmasking
    have hbody := (hmasking (.ok setting.flag) ⟨fun _ => trivial, rfl⟩).2
    refine hbody.mono fun inside result hrestore => ?_
    exact (hrestore (.ok ()) ⟨fun _ => trivial, rfl⟩).2
  · rintro hbody masking ⟨_, hmask⟩
    obtain rfl : masking = .ok setting.flag := hmask
    refine ⟨trivial, hbody.mono fun inside result hpost => ?_⟩
    rintro restoring ⟨_, hrestore⟩
    obtain rfl : restoring = .ok () := hrestore
    exact ⟨trivial, hpost⟩

end

end CoreEngines
