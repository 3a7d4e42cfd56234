import CoreEngines.Proofs.Interrupts.Ticks

/-!
Timer interrupts of an engine.  Those that come before its context is published leave no trace, and
all that come after it are counted, whatever runs meanwhile and however it fails.
-/

namespace CoreEngines

def Operation.forwards (target : Ref .engine) : Operation → Bool
  | timerTick engine => engine = target
  | _ => false

def Operation.notifies (place : Ref .context) : Operation → Bool
  | tick context => context = place
  | _ => false

/-- The calls of one kind that have told a context of a timer interrupt. -/
def Journal.tellers (journal : Journal) (place : Ref .context) (calls : Operation → Bool) :
    List Nat :=
  (List.range journal.started).filter fun number =>
    match journal.own number with
    | .started operation :: story => calls operation && () ∈ ticksIn place story
    | _ => false

section
variable {history : History} {world : World} {flows : Nat → Flow} {target : Ref .engine}
  {place : Ref .context} {number : Nat}

theorem mem_tellers {calls : Operation → Bool} (hrun : Runs {} history world flows) :
    number ∈ (Journal.ofHistory history).tellers place calls ↔
      ∃ operation story, (Journal.ofHistory history).own number = .started operation :: story ∧
        calls operation ∧ .acted (.context place .tick) () ∈ story := by
  rw [Journal.tellers, List.mem_filter]
  constructor
  · rintro ⟨_, htold⟩
    split at htold
    case h_1 operation story hown =>
      rw [Bool.and_eq_true, decide_eq_true_iff, mem_ticksIn] at htold
      exact ⟨operation, story, hown, htold⟩
    case h_2 => cases htold
  · rintro ⟨operation, story, hown, hcalls, hmem⟩
    refine ⟨List.mem_range.mpr (Journal.lt_started_of_own hrun.coursing.sound hown), ?_⟩
    rw [hown]
    exact Bool.and_eq_true_iff.mpr ⟨hcalls, decide_eq_true (mem_ticksIn.mpr hmem)⟩

/-- Whoever has told a context of a timer interrupt forwards it from its engine, or notifies it. -/
theorem told_iff (hrun : Runs {} history world flows)
    (hcontext : world.contextOf? target = some place) :
    .acted (.context place .tick) () ∈ (Journal.ofHistory history).own number ↔
      number ∈ (Journal.ofHistory history).tellers place (Operation.forwards target) ∨
        number ∈ (Journal.ofHistory history).tellers place (Operation.notifies place) := by
  rw [mem_tellers hrun, mem_tellers hrun]
  constructor
  · intro hmem
    obtain hnone | ⟨operation, story, hown⟩ := hrun.own_cases number
    · rw [hnone] at hmem
      cases hmem
    · rw [hown] at hmem
      have hstory : .acted (.context place .tick) () ∈ story := by simpa using hmem
      obtain rfl | ⟨engine, rfl, hlook⟩ := hrun.teller_of_tick hown hstory
      · exact Or.inr ⟨_, story, hown, by simp [Operation.notifies], hstory⟩
      · obtain ⟨⟨index, _⟩, hentry, rfl⟩ := List.mem_map.mp (hrun.mem_history hown hlook)
        obtain ⟨before, after, rfl⟩ := List.append_of_mem hentry
        have hfill := (Engine.seen_iff hrun).mp rfl
        have hshared : world.contextOf? engine = some place := by
          rw [Engine.contextOf?_iff hrun, List.map_append]
          exact List.mem_append_left _ hfill
        obtain rfl := Engine.engine_of_context hrun hshared hcontext
        exact Or.inl ⟨_, story, hown, by simp [Operation.forwards], hstory⟩
  · rintro (⟨operation, story, hown, _, hmem⟩ | ⟨operation, story, hown, _, hmem⟩) <;>
      exact hown ▸ List.mem_cons_of_mem _ hmem

theorem tellers_apart (hrun : Runs {} history world flows) :
    ((Journal.ofHistory history).tellers place (Operation.forwards target)).Disjoint
      ((Journal.ofHistory history).tellers place (Operation.notifies place)) := by
  intro number hforwards hnotifies
  obtain ⟨operation, story, hown, hcalls, _⟩ := (mem_tellers hrun).mp hforwards
  obtain ⟨_, _, hown', hcalls', _⟩ := (mem_tellers hrun).mp hnotifies
  cases hown.symm.trans hown'
  cases operation <;> first | cases hcalls | cases hcalls'

/-- A context is told of timer interrupts by those who forward them from its engine and by those
who notify it, once by each. -/
theorem ticksIn_length (hrun : Runs {} history world flows)
    (hcontext : world.contextOf? target = some place) :
    (ticksIn place (history.map Prod.snd)).length =
      ((Journal.ofHistory history).tellers place (Operation.forwards target)).length +
        ((Journal.ofHistory history).tellers place (Operation.notifies place)).length := by
  have honce : (((Journal.ofHistory history).deeds (·.tick? place)).map Prod.fst).Nodup := by
    rw [List.nodup_iff_count_le_one]
    intro number
    rw [Journal.count_deeds]
    obtain hnone | ⟨operation, story, hown⟩ := hrun.own_cases number
    · simp [hnone]
    · rw [hown]
      exact (hrun.ticks_le_one hown : (ticksIn place story).length ≤ 1)
  have htellers : ((Journal.ofHistory history).tellers place (Operation.forwards target) ++
      (Journal.ofHistory history).tellers place (Operation.notifies place)).Nodup :=
    List.Nodup.append (List.nodup_range.filter _) (List.nodup_range.filter _) (tellers_apart hrun)
  rw [ticksIn, ← hrun.deeds, List.length_map, ← List.length_map Prod.fst, ← List.length_append]
  apply List.Perm.length_eq
  rw [List.perm_ext_iff_of_nodup honce htellers]
  intro number
  rw [List.mem_append, ← told_iff hrun hcontext, List.mem_map]
  constructor
  · rintro ⟨⟨number, deed⟩, hdeed, rfl⟩
    obtain ⟨happening, hmem, htick⟩ := Journal.mem_deeds.mp hdeed
    rwa [Happening.tick?_eq_some.mp htick] at hmem
  · exact fun hmem => ⟨(number, ()), Journal.mem_deeds.mpr ⟨_, hmem,
      Happening.tick?_eq_some.mpr rfl⟩, rfl⟩

end

namespace Engine

/-- What a run has made of the timer interrupts of an engine. -/
structure CountsTicks (target : Ref .engine) (engine : Engine) (machine : Machine)
    (history : History) : Prop where
  /-- The context has counted, up to overflow, all calls that have told it of an interrupt: those
  that forward one from the engine, and those that notify the context itself. -/
  counted : ∀ {place context}, machine.world.contextOf? target = some place →
    machine.world.contextAt? place = some context →
      context.ticks = .ofNat
        (((Journal.ofHistory history).tellers place (Operation.forwards target)).length +
          ((Journal.ofHistory history).tellers place (Operation.notifies place)).length)
  /-- Among the calls that have returned, those are the ones that saw the context, -/
  forwarders : ∀ {place number story},
    (Journal.ofHistory history).own number = .started (.timerTick target) :: story →
      .finished (.timerTick target) (.ok ()) ∈ story →
        (number ∈ (Journal.ofHistory history).tellers place (Operation.forwards target) ↔
          .acted (.engine target .context) (some place) ∈ story)
  /-- and all that notify it. -/
  notifiers : ∀ {place number story},
    (Journal.ofHistory history).own number = .started (.tick place) :: story →
      .finished (.tick place) (.ok ()) ∈ story →
        number ∈ (Journal.ofHistory history).tellers place (Operation.notifies place)
  /-- A call that forwards an interrupt looks for the context; it tells a context that it sees,
  once, and always returns. -/
  forwarded : ∀ {number story},
    (Journal.ofHistory history).own number = .started (.timerTick target) :: story →
      ∃ seen, story <+: forwarding target seen ++ [.finished (.timerTick target) (.ok ())]
  /-- A call that notifies a context tells it once. -/
  notified : ∀ {place number story},
    (Journal.ofHistory history).own number = .started (.tick place) :: story →
      story <+: [.acted (.context place .tick) (), .finished (.tick place) (.ok ())]
  /-- Whoever looks for the context sees it if it is published, and only then. -/
  seen : ∀ {before index seen after},
    history = before ++ (index, .acted (.engine target .context) seen) :: after →
      ∀ place, seen = some place ↔
        .acted (.engine target (.fillContext place)) () ∈ before.map Prod.snd
  /-- So a call that starts after the publication sees the context, -/
  late : ∀ {before after place number story}, history = before ++ after →
    .acted (.engine target (.fillContext place)) () ∈ before.map Prod.snd →
      (Journal.ofHistory before).started ≤ number →
        (Journal.ofHistory history).own number = .started (.timerTick target) :: story →
          story <+: forwarding target (some place) ++ [.finished (.timerTick target) (.ok ())]
  /-- and a call that returns before it has told nobody. -/
  early : ∀ {before after number story}, history = before ++ after →
    (∀ place, .acted (.engine target (.fillContext place)) () ∉ before.map Prod.snd) →
      (Journal.ofHistory before).own number = .started (.timerTick target) :: story →
        story <+: forwarding target none ++ [.finished (.timerTick target) (.ok ())]
  /-- While there is no context, no step of a call that forwards an interrupt changes anything, -/
  still : ∀ {index move machine' happening rest below},
    machine.world.contextOf? target = none →
      machine.flow index = ⟨.timerTick target, rest⟩ :: below →
        machine.move? index move = some (machine', happening) → machine'.world = machine.world
  /-- and such a call, wherever it can start, returns and leaves all as it was. -/
  ignored : ∀ {index flow}, machine.world.contextOf? target = none →
    machine.flows[index]? = some flow → flow.all (·.isAsking) →
      ∃ happened, machine.run?
        [(index, .start (.timerTick target)), (index, .step), (index, .finish)] =
          some (machine, happened)
  /-- Once there is a context, a call that forwards an interrupt, wherever it can start, returns
  after it was counted, -/
  counts : ∀ {index flow place}, machine.world.contextOf? target = some place →
    machine.flows[index]? = some flow → flow.all (·.isAsking) →
      ∃ machine' happened, machine.run? [(index, .start (.timerTick target)), (index, .step),
          (index, .step), (index, .finish)] = some (machine', happened) ∧
        machine'.flows = machine.flows ∧
          machine'.world.ticks place = machine.world.ticks place + 1
  /-- and so it stays: the context is never taken away, whatever fails. -/
  kept : ∀ {place moves machine' happened}, machine.world.contextOf? target = some place →
    machine.run? moves = some (machine', happened) →
      machine'.world.contextOf? target = some place
  /-- No other engine has this context. -/
  alone : ∀ {other place}, machine.world.contextOf? target = some place →
    machine.world.contextOf? other = some place → other = target
  /-- Only the calls that are there for it ever change what a context has counted. -/
  only : ∀ {index move machine' happening place},
    machine.move? index move = some (machine', happening) →
      machine'.world.ticks place ≠ machine.world.ticks place →
        machine'.world.ticks place = machine.world.ticks place + 1 ∧
          ∃ operation rest below, machine.flow index = ⟨operation, rest⟩ :: below ∧
            (operation = .tick place ∨ ∃ other, operation = .timerTick other ∧
              machine.world.contextOf? other = some place)
  /-- There is no context where nobody has entered the engine, -/
  unentered : (∀ index, (index, .started (.enter target)) ∉ history) →
    machine.world.contextOf? target = none
  /-- while an entry waits for its manager, -/
  awaiting : ∀ {number core startup next},
    machine.InProgress history number ⟨.enter target, .ask (.createManager core startup) next⟩ →
      machine.world.contextOf? target = none
  /-- after an entry that found itself on a wrong core, or was told none, -/
  astray : ∀ {number story located},
    (Journal.ofHistory history).own number = .started (.enter target) :: story →
      .answered .currentCore located ∈ story → located ≠ .ok engine.shape.core →
        machine.world.contextOf? target = none
  /-- after an entry that was given no manager, -/
  failed : ∀ {number story core startup cause},
    (Journal.ofHistory history).own number = .started (.enter target) :: story →
      .answered (.createManager core startup) (.error cause) ∈ story →
        machine.world.contextOf? target = none
  /-- and on engines that run no threads. -/
  idle : engine.shape.mode ≠ .execution → machine.world.contextOf? target = none

section
variable {history before after : History} {world later : World} {flows : Nat → Flow}
  {target : Ref .engine} {engine : Engine} {place : Ref .context} {number : Nat}
  {story : List Happening}

theorem eq_of_look {seen : Option (Ref .context)}
    (hperform : world.perform? (.engine target .context) = some (seen, later)) :
    later = world := by
  cases hengine : world.engineAt? target with
  | none => simp [World.perform?, hengine] at hperform
  | some engine =>
      rw [World.perform?_look hengine] at hperform
      exact (Prod.mk.inj (Option.some.inj hperform)).2.symm

theorem contextOf?_of_forwarding (hrun : Runs {} history world flows)
    (hown : (Journal.ofHistory history).own number = .started (.timerTick target) :: story)
    (hlook : .acted (.engine target .context) (some place) ∈ story) :
    world.contextOf? target = some place := by
  obtain ⟨⟨index, _⟩, hentry, rfl⟩ := List.mem_map.mp (hrun.mem_history hown hlook)
  obtain ⟨before, after, rfl⟩ := List.append_of_mem hentry
  rw [contextOf?_iff hrun, List.map_append]
  exact List.mem_append_left _ ((seen_iff hrun).mp rfl)

theorem early_of_runs (hrun : Runs {} history world flows)
    (hcontext : world.contextOf? target = none)
    (hown : (Journal.ofHistory history).own number = .started (.timerTick target) :: story) :
    story <+: forwarding target none ++ [.finished (.timerTick target) (.ok ())] := by
  obtain ⟨seen, hstory⟩ := hrun.timerTick_story hown
  cases seen with
  | none => exact hstory
  | some place =>
      cases story with
      | nil => exact List.nil_prefix
      | cons first rest =>
          obtain ⟨rfl, _⟩ := List.cons_prefix_cons.mp hstory
          cases hcontext.symm.trans (contextOf?_of_forwarding hrun hown List.mem_cons_self)

theorem late_of_runs (hrun : Runs {} (before ++ after) world flows)
    (hfill : .acted (.engine target (.fillContext place)) () ∈ before.map Prod.snd)
    (hnumber : (Journal.ofHistory before).started ≤ number)
    (hown : (Journal.ofHistory (before ++ after)).own number =
      .started (.timerTick target) :: story) :
    story <+: forwarding target (some place) ++ [.finished (.timerTick target) (.ok ())] := by
  obtain ⟨seen, hstory⟩ := hrun.timerTick_story hown
  cases story with
  | nil => exact List.nil_prefix
  | cons first rest =>
      obtain rfl : first = .acted (.engine target .context) seen := by
        cases seen <;> exact (List.cons_prefix_cons.mp hstory).1
      obtain ⟨earlier, index, later, hhistory, hbegun, _⟩ :=
        hrun.moment_of_own (show _ = [_] ++ _ :: rest from hown)
      have hbefore := hrun.prefix_of_unstarted hnumber hhistory hbegun
      rw [hhistory] at hrun
      obtain rfl : seen = some place :=
        (seen_iff hrun).mpr ((hbefore.map Prod.snd).mem hfill)
      exact hstory

/-- A call that has returned has told the context that it saw. -/
theorem mem_tellers_of_forwarding (hrun : Runs {} history world flows)
    (hown : (Journal.ofHistory history).own number = .started (.timerTick target) :: story)
    (hfinished : .finished (.timerTick target) (.ok ()) ∈ story) :
    number ∈ (Journal.ofHistory history).tellers place (Operation.forwards target) ↔
      .acted (.engine target .context) (some place) ∈ story := by
  obtain ⟨seen, hstory⟩ := hrun.timerTick_story hown
  have hwhole : story = forwarding target seen ++ [.finished (.timerTick target) (.ok ())] :=
    eq_of_mem_last hstory hfinished (by cases seen <;> simp [forwarding])
  rw [mem_tellers hrun]
  constructor
  · rintro ⟨_, _, hown', _, hmem⟩
    cases hown.symm.trans hown'
    rw [hwhole] at hmem ⊢
    cases seen <;> simp_all [forwarding]
  · intro hlook
    refine ⟨_, story, hown, by simp [Operation.forwards], ?_⟩
    rw [hwhole] at hlook ⊢
    cases seen <;> simp_all [forwarding]

theorem mem_tellers_of_notifying (hrun : Runs {} history world flows)
    (hown : (Journal.ofHistory history).own number = .started (.tick place) :: story)
    (hfinished : .finished (.tick place) (.ok ()) ∈ story) :
    number ∈ (Journal.ofHistory history).tellers place (Operation.notifies place) := by
  have hwhole : story = [.acted (.context place .tick) ()] ++ [.finished (.tick place) (.ok ())] :=
    eq_of_mem_last (hrun.tick_story hown) hfinished (by simp)
  rw [mem_tellers hrun]
  exact ⟨_, story, hown, by simp [Operation.notifies], by simp [hwhole]⟩

/-- While there is no context, a call that forwards an interrupt has nothing to change. -/
theorem still_of_runs {index : Nat} {happening : Happening} {rest : Program Unit}
    {below flow : Flow} (hrun : Runs {} history world flows)
    (hcontext : world.contextOf? target = none)
    (hflow : flows index = ⟨.timerTick target, rest⟩ :: below)
    (hmoves : (flows index).Moves world happening later flow) : later = world := by
  obtain hsame | ⟨number, story, hown, hown'⟩ := hrun.step_of_moves hflow hmoves
  · exact hsame
  · have hafter := hmoves.after
    have hnext : Runs {} (history ++ [(index, happening)]) later
        (Function.update flows index flow) := .move hrun hmoves
    obtain ⟨seen, hstory⟩ := hnext.timerTick_story hown'
    have hlast : happening ∈ story ++ [happening] := by simp
    have hmem := hstory.mem hlast
    cases seen with
    | none =>
        simp only [forwarding, List.cons_append, List.nil_append, List.mem_cons,
          List.not_mem_nil, or_false] at hmem
        obtain rfl | rfl := hmem
        · exact eq_of_look hafter
        · exact hafter
    | some place =>
        simp only [forwarding, List.cons_append, List.nil_append, List.mem_cons,
          List.not_mem_nil, or_false] at hmem
        obtain rfl | rfl | rfl := hmem
        · exact eq_of_look hafter
        · have hbefore := take_subset_of_mem hstory (show _[1]? = some _ from rfl)
            (by simp [forwarding]) hlast
          have hlook : .acted (.engine target .context) (some place) ∈ story := by
            simpa using hbefore (show _ ∈ [_] from List.mem_singleton_self _)
          cases hcontext.symm.trans (contextOf?_of_forwarding hrun hown hlook)
        · exact hafter

theorem ignored_flow {flow : Flow} (hengine : world.engineAt? target = some engine)
    (hcontext : world.contextOf? target = none) (hasking : flow.all (·.isAsking)) :
    flow.run? world [.start (.timerTick target), .step, .finish] =
      some (world, flow, [.started (.timerTick target), .acted (.engine target .context) none,
        .finished (.timerTick target) (.ok ())]) := by
  have hlook : world.perform? (.engine target .context) = some (none, world) := by
    rw [World.perform?_look hengine, hcontext]
  exact Flow.run?_start hasking rfl (Flow.run?_act hlook rfl)

/-- A call that starts when there is a context comes to its end after it was counted. -/
theorem counts_flow {flow : Flow} {context : Context}
    (hengine : world.engineAt? target = some engine)
    (hpublished : world.contextOf? target = some place)
    (hcontext : world.contextAt? place = some context) (hasking : flow.all (·.isAsking)) :
    ∃ later, flow.run? world [.start (.timerTick target), .step, .step, .finish] =
        some (later, flow, [.started (.timerTick target),
          .acted (.engine target .context) (some place), .acted (.context place .tick) (),
          .finished (.timerTick target) (.ok ())]) ∧
      later.ticks place = world.ticks place + 1 := by
  have hlook : world.perform? (.engine target .context) = some (some place, world) := by
    rw [World.perform?_look hengine, hpublished]
  obtain ⟨later, htick⟩ : ∃ later, world.perform? (.context place .tick) = some ((), later) := by
    simp [World.perform?, hcontext, Context.access?]
  refine ⟨later, ?_, ?_⟩
  · exact Flow.run?_start hasking rfl (Flow.run?_act hlook (Flow.run?_act htick rfl))
  · have hafter : world.After (.acted (.context place .tick) ()) later := htick
    rw [World.ticks_after place hafter]
    simp [Happening.tick?]

end

/-- What a context has counted changes only where it is told of an interrupt. -/
theorem only_of_runs {history : History} {world later : World} {flows : Nat → Flow} {index : Nat}
    {happening : Happening} {flow : Flow} {place : Ref .context}
    (hrun : Runs {} history world flows)
    (hmoves : (flows index).Moves world happening later flow)
    (hticks : later.ticks place ≠ world.ticks place) :
    later.ticks place = world.ticks place + 1 ∧
      ∃ operation rest below, flows index = ⟨operation, rest⟩ :: below ∧
        (operation = .tick place ∨ ∃ other, operation = .timerTick other ∧
          world.contextOf? other = some place) := by
  have hafter := World.ticks_after place hmoves.after
  obtain rfl : happening = .acted (.context place .tick) () := by
    cases htick : happening.tick? place with
    | none => simp [hafter, htick] at hticks
    | some deed => exact Happening.tick?_eq_some.mp htick
  refine ⟨by simpa [Happening.tick?] using hafter, ?_⟩
  have hnext : Runs {} (history ++ [(index, .acted (.context place .tick) ())]) later
      (Function.update flows index flow) := .move hrun hmoves
  obtain ⟨operation, rest, below, hflow⟩ : ∃ operation rest below,
      flows index = ⟨operation, rest⟩ :: below := by
    generalize flows index = old at hmoves
    cases hmoves with
    | step below hgoes _ => exact ⟨_, _, below, rfl⟩
  refine ⟨operation, rest, below, hflow, ?_⟩
  obtain rfl | ⟨number, story, hown, hown'⟩ := hrun.step_of_moves hflow hmoves
  · exact absurd rfl hticks
  · have hlast : .acted (.context place .tick) () ∈
        story ++ [.acted (.context place .tick) ()] := by simp
    obtain rfl | ⟨engine, rfl, hlook⟩ := hnext.teller_of_tick hown' hlast
    · exact Or.inl rfl
    · have hseen : .acted (.engine engine .context) (some place) ∈ story := by simpa using hlook
      exact Or.inr ⟨engine, rfl, contextOf?_of_forwarding hrun hown hseen⟩

/-- Timer interrupts are counted from the publication of the context on, in every run of any number
of flows. -/
theorem countsTicks_of_run? {count : Nat} {moves : List (Nat × Move)} {machine : Machine}
    {history : History} {target : Ref .engine} {engine : Engine}
    (hrun : (Machine.idle {} count).run? moves = some (machine, history))
    (hengine : machine.world.engineAt? target = some engine) :
    CountsTicks target engine machine history := by
  have hruns := Machine.runs_of_run? hrun
  refine ⟨?_, mem_tellers_of_forwarding hruns, mem_tellers_of_notifying hruns,
    hruns.timerTick_story, hruns.tick_story, ?_, ?_, ?_, ?_, ?_, ?_, ?_, ?_, ?_, ?_, ?_,
    ?_, ?_, ?_⟩
  · intro place context hcontext hat
    have hticks : context.ticks = machine.world.ticks place := by simp [World.ticks, hat]
    rw [hticks, hruns.ticks, ticksIn_length hruns hcontext]
  · rintro before index seen after rfl place
    exact seen_iff hruns
  · rintro before after place number story rfl hfill hnumber hown
    exact late_of_runs hruns hfill hnumber hown
  · rintro before after number story rfl hnone hown
    obtain ⟨world, flows, hbefore⟩ := hruns.beginning
    refine early_of_runs hbefore ?_ hown
    rw [Option.eq_none_iff_forall_ne_some]
    exact fun place hcontext => hnone place (hbefore.filled hcontext)
  · intro index move machine' happening rest below hcontext hflow hmove
    obtain ⟨flow, hmoves, _⟩ := Machine.move?_moves hmove
    exact still_of_runs hruns hcontext hflow hmoves
  · intro index flow hcontext hflow hasking
    exact ⟨_, Machine.run?_flow_back hflow (ignored_flow hengine hcontext hasking)⟩
  · intro index flow place hcontext hflow hasking
    have hpresent : engine.context.value? = some place := by
      simpa [World.contextOf?, hengine] using hcontext
    obtain ⟨_, _, context, _, hat, _⟩ := present_of_runs hruns hengine hpresent
    obtain ⟨later, hsolo, hticks⟩ := counts_flow hengine hcontext hat hasking
    exact ⟨_, _, Machine.run?_flow_back hflow hsolo, rfl, hticks⟩
  · exact fun hcontext hmoves => contextOf?_of_run? hcontext hmoves
  · exact fun hcontext hother => engine_of_context hruns hother hcontext
  · intro index move machine' happening place hmove hticks
    obtain ⟨flow, hmoves, _⟩ := Machine.move?_moves hmove
    exact only_of_runs hruns hmoves hticks
  · exact absent_of_unentered hruns
  · intro number core startup next hprogress
    exact absent_of_awaiting hruns hengine (hprogress.accounts hruns.coursing)
  · intro number story located hown hlocated hastray
    have hshape : machine.world.engineShape? target = some engine.shape :=
      congrArg (Option.map _) hengine
    exact absent_of_astray hruns hshape hown hlocated hastray
  · exact fun hown hfailed => absent_of_failed hruns hown hfailed
  · exact absent_of_mode hruns hengine

open Schedule

/-- Interrupts come in before the only engine of a table is entered and while it waits for its
manager; then one comes from the callback that finds no threads to run, and one after the entry has
failed for that.  Another flow notifies the context once. -/
def ticksAroundEntry : List (Nat × Move) :=
  inFlow 0 (along (.buildTable { bootstrapCore := ⟨0⟩ } [.execution]) 4) ++
  inFlow 1 (along (.timerTick ⟨0⟩) 1) ++
  inFlow 0 (entering ⟨0⟩ ⟨0⟩ ++ along (.timerTick ⟨0⟩) 1 ++
    [Move.answer (.createManager ⟨0⟩ true) (.ok ⟨0⟩)] ++ steps 6 ++ along (.timerTick ⟨0⟩) 2) ++
  inFlow 1 (along (.tick ⟨0⟩) 1) ++
  inFlow 0 [.answer (.hasThreads ⟨0⟩) (.ok false), .finish] ++ inFlow 1 (along (.timerTick ⟨0⟩) 2)

theorem countsTicks_ticksAroundEntry : ∃ machine history engine,
    (Machine.idle {} 2).run? ticksAroundEntry = some (machine, history) ∧
      machine.world.engineAt? ⟨0⟩ = some engine ∧ engine.context = .ready ⟨0⟩ ∧
        machine.world.ticks ⟨0⟩ = 3 ∧ CountsTicks ⟨0⟩ engine machine history := by
  have hsome : ((Machine.idle {} 2).run? ticksAroundEntry).isSome := by rfl
  obtain ⟨⟨machine, history⟩, hrun⟩ := Option.isSome_iff_exists.mp hsome
  have hengine : (((Machine.idle {} 2).run? ticksAroundEntry).bind fun outcome =>
      outcome.1.world.engineAt? ⟨0⟩) = some
        ⟨⟨⟨0⟩, .execution, { bootstrapCore := ⟨0⟩ }, ⟨0⟩⟩, true, .ready ⟨0⟩, .empty⟩ := by rfl
  have hticks : (((Machine.idle {} 2).run? ticksAroundEntry).map fun outcome =>
      outcome.1.world.ticks ⟨0⟩) = some 3 := by rfl
  rw [hrun] at hengine hticks
  exact ⟨machine, history, _, hrun, hengine, rfl, Option.some.inj hticks,
    countsTicks_of_run? hrun hengine⟩

end Engine

end CoreEngines
