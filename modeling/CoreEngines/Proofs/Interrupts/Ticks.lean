import CoreEngines.Proofs.Entry.Publication
import CoreEngines.Proofs.Modest
import CoreEngines.Proofs.Tellings

/-!
The counting of timer interrupts.  A context counts one for every step that tells it of one, in a
word that wraps around.  There are two who do: whoever notifies the context itself, and whoever
forwards an interrupt of the engine that the context is published for.
-/

namespace CoreEngines

def Happening.tick? (place : Ref .context) : Happening → Option Unit
  | .acted (.context target .tick) _ => if target = place then some () else none
  | _ => none

def ticksIn (place : Ref .context) (story : List Happening) : List Unit :=
  story.filterMap (·.tick? place)

def World.ticks (world : World) (place : Ref .context) : UInt64 :=
  (world.contextAt? place).elim 0 (·.ticks)

section
variable {world later : World} {happening : Happening} {place : Ref .context}

theorem Happening.tick?_eq_some {deed : Unit} :
    happening.tick? place = some deed ↔ happening = .acted (.context place .tick) () := by
  constructor
  · intro htick
    unfold tick? at htick
    split at htick
    · obtain ⟨rfl, _⟩ := Option.ite_none_right_eq_some.mp htick
      rfl
    · cases htick
  · rintro rfl
    exact if_pos rfl

theorem mem_ticksIn {story : List Happening} {deed : Unit} :
    deed ∈ ticksIn place story ↔ .acted (.context place .tick) () ∈ story := by
  rw [ticksIn, List.mem_filterMap]
  constructor
  · rintro ⟨happening, hmem, htick⟩
    rwa [← Happening.tick?_eq_some.mp htick]
  · exact fun hmem => ⟨_, hmem, Happening.tick?_eq_some.mpr rfl⟩

theorem World.ticks_setContext {target : Ref .context} {object : Context}
    (hobject : world.contextAt? target = some object) (object' : Context) :
    World.ticks { world with contexts := world.contexts.setIfInBounds target.index object' } =
      Function.update world.ticks target object'.ticks :=
  elim_setIfInBounds hobject object' 0 (·.ticks)

/-- A context counts what it is told of, and nothing else. -/
theorem World.ticks_after (place : Ref .context) (hafter : world.After happening later) :
    later.ticks place =
      world.ticks place + .ofNat (happening.tick? place).toList.length := by
  cases happening with
  | acted action answer =>
      cases effect_of_perform? hafter with
      | @context target object object' access answer hobject haccess =>
          have hticks : world.ticks target = object.ticks := by simp [ticks, hobject]
          rw [ticks_setContext hobject]
          cases access with
          | tick =>
              cases haccess
              by_cases htarget : target = place
              · subst htarget
                simp [Happening.tick?, hticks]
              · simp [Happening.tick?, htarget, Ne.symm htarget]
          | claimCache =>
              simp only [Context.access?, Option.map_eq_some_iff] at haccess
              obtain ⟨_, _, heq⟩ := haccess
              cases heq
              simp [Happening.tick?, ← hticks]
          | _ =>
              cases haccess
              simp [Happening.tick?, ← hticks]
      | newContext shape =>
          have hsame : World.ticks { world with contexts := world.contexts.push (.new shape) } =
              world.ticks :=
            elim_push .context world.contexts Context.ticks rfl
          simp [Happening.tick?, hsame]
      | _ => simp [Happening.tick?, ticks, contextAt?]
  | _ =>
      obtain rfl : later = world := hafter
      simp [Happening.tick?]

end

/-- A context has counted as many timer interrupts as it was told of, up to overflow. -/
theorem Runs.ticks {history : History} {world : World} {flows : Nat → Flow}
    (hrun : Runs {} history world flows) (place : Ref .context) :
    world.ticks place = .ofNat (ticksIn place (history.map Prod.snd)).length := by
  refine hrun.keeps (fun history world =>
    world.ticks place = .ofNat (ticksIn place (history.map Prod.snd)).length) rfl ?_
  intro history world happening later index hticks hafter
  rw [World.ticks_after place hafter, hticks, ticksIn, ticksIn, List.map_append,
    List.filterMap_append, List.length_append, UInt64.ofNat_add]
  cases htick : happening.tick? place <;> simp [htick]

open Program

namespace Context

theorem tells_tick {place : Ref .context} {story : List Happening} {result : Except Failure Unit}
    (htells : (tick place).Tells story result) :
    story = [.acted (.context place .tick) ()] ∧ result = .ok () := by
  rw [tick, tells_perform] at htells
  obtain ⟨_, rfl, rfl⟩ := htells
  exact ⟨rfl, rfl⟩

end Context

namespace Engine

/-- A forwarded interrupt is lost where there is no context, and counted by the one that there
is. -/
def forwarding (engine : Ref .engine) : Option (Ref .context) → List Happening
  | none => [.acted (.engine engine .context) none]
  | some place =>
      [.acted (.engine engine .context) (some place), .acted (.context place .tick) ()]

theorem tells_timerTick {engine : Ref .engine} {story : List Happening}
    {result : Except Failure Unit} (htells : (timerTick engine).Tells story result) :
    (∃ seen, story = forwarding engine seen) ∧ result = .ok () := by
  obtain ⟨seen, rest, rfl, htells⟩ := htells
  cases seen with
  | none =>
      obtain ⟨rfl, rfl⟩ := htells
      exact ⟨⟨none, rfl⟩, rfl⟩
  | some place =>
      obtain ⟨rfl, rfl⟩ := Context.tells_tick htells
      exact ⟨⟨some place, rfl⟩, rfl⟩

end Engine

namespace Runs

variable {history : History} {world : World} {flows : Nat → Flow} {number : Nat}
  {story : List Happening} {place : Ref .context} {engine : Ref .engine}

theorem tick_story (hrun : Runs {} history world flows)
    (hown : (Journal.ofHistory history).own number = .started (.tick place) :: story) :
    story <+: [.acted (.context place .tick) (), .finished (.tick place) (.ok ())] := by
  have hstraight : (Operation.tick place).Straight := Within.perform (by simp)
  obtain ⟨whole, result, htells, hstory⟩ := hrun.tells hstraight hown
  obtain ⟨rfl, rfl⟩ := Context.tells_tick htells
  exact hstory

/-- A call that forwards an interrupt looks for the context first. -/
theorem timerTick_story (hrun : Runs {} history world flows)
    (hown : (Journal.ofHistory history).own number = .started (.timerTick engine) :: story) :
    ∃ seen, story <+: Engine.forwarding engine seen ++
      [.finished (.timerTick engine) (.ok ())] := by
  have hstraight : (Operation.timerTick engine).Straight := by
    apply Within.bind (Within.perform (by simp))
    intro context
    split
    · exact Within.perform (by simp)
    · exact Within.pure _
  obtain ⟨whole, result, htells, hstory⟩ := hrun.tells hstraight hown
  obtain ⟨⟨seen, rfl⟩, rfl⟩ := Engine.tells_timerTick htells
  exact ⟨seen, hstory⟩

/-- Whoever tells a context of an interrupt notifies it, or forwards an interrupt of the engine that
it was seen to be published for. -/
theorem teller_of_tick {operation : Operation} (hrun : Runs {} history world flows)
    (hown : (Journal.ofHistory history).own number = .started operation :: story)
    (hmem : .acted (.context place .tick) () ∈ story) :
    operation = .tick place ∨ ∃ engine, operation = .timerTick engine ∧
      .acted (.engine engine .context) (some place) ∈ story := by
  have hcounts := hrun.counts hown hmem rfl id
  cases operation with
  | tick other =>
      have htold := (hrun.tick_story hown).mem hmem
      obtain rfl : place = other := by simpa using htold
      exact Or.inl rfl
  | timerTick engine =>
      obtain ⟨seen, hstory⟩ := hrun.timerTick_story hown
      have htold := hstory.mem hmem
      cases seen with
      | none => simp [Engine.forwarding] at htold
      | some other =>
          obtain rfl : place = other := by simpa [Engine.forwarding] using htold
          have hbefore := take_subset_of_mem hstory (show _[1]? = some _ from rfl)
            (by simp [Engine.forwarding]) hmem
          exact Or.inr ⟨engine, rfl, hbefore (by simp [Engine.forwarding])⟩
  | _ => cases hcounts

/-- Nobody tells a context of more than one interrupt. -/
theorem ticks_le_one {operation : Operation} (hrun : Runs {} history world flows)
    (hown : (Journal.ofHistory history).own number = .started operation :: story) :
    (ticksIn place story).length ≤ 1 := by
  by_cases hmem : .acted (.context place .tick) () ∈ story
  · have hshort : ∃ whole, story <+: whole ∧ (ticksIn place whole).length ≤ 1 := by
      obtain rfl | ⟨engine, rfl, hlook⟩ := hrun.teller_of_tick hown hmem
      · exact ⟨_, hrun.tick_story hown, by simp [ticksIn, Happening.tick?]⟩
      · obtain ⟨seen, hstory⟩ := hrun.timerTick_story hown
        refine ⟨_, hstory, ?_⟩
        cases seen with
        | none => simp [ticksIn, Engine.forwarding, Happening.tick?]
        | some other =>
            by_cases hother : other = place <;>
              simp [ticksIn, Engine.forwarding, Happening.tick?, hother]
    obtain ⟨whole, hstory, hlength⟩ := hshort
    exact Nat.le_trans (hstory.sublist.filterMap _).length_le hlength
  · have hnone : ticksIn place story = [] :=
      List.eq_nil_iff_forall_not_mem.mpr fun deed htick => hmem (mem_ticksIn.mp htick)
    simp [hnone]

end Runs

end CoreEngines
