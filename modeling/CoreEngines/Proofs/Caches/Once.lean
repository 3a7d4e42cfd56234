import CoreEngines.Proofs.Caches.Cells
import CoreEngines.Proofs.Schedules

/-!
Template caches.  The host is asked for the cache of a context until it returns one, by nobody but
those who are to provide it, and never again; what it has returned is there for good, and what it
has failed to return leaves no trace.
-/

namespace CoreEngines

open Program

def OnceCell.Claim.found? {α : Type} : OnceCell.Claim α → Option α
  | .ready value => some value
  | .granted => none

/-- After a cache has been returned there is nothing more to come. -/
theorem Returned.complete {builds more : List (Except Failure CacheRef)} {built : Option CacheRef}
    {cache : CacheRef} (hreturned : Returned (builds ++ more) built) (hmem : .ok cache ∈ builds) :
    more = [] := by
  obtain ⟨failures, hbuilds⟩ := hreturned
  rcases List.eq_nil_or_concat more with rfl | ⟨more, last, rfl⟩
  · rfl
  · have hearly : ∀ {early late : List (Except Failure CacheRef)},
        early ++ late = failures.map .error → .ok cache ∉ early := by
      intro early late heq hok
      have hall : .ok cache ∈ failures.map Except.error := heq ▸ List.mem_append_left _ hok
      simp at hall
    cases built with
    | none => exact absurd hmem (hearly (hbuilds.trans (List.append_nil _)))
    | some value =>
        rw [List.concat_eq_append, ← List.append_assoc] at hbuilds
        exact absurd hmem (hearly (List.append_inj' hbuilds rfl).1)

namespace Context

/-- What a run has made of the template cache of a context. -/
structure BuiltOnce (target : Ref .context) (context : Context) (machine : Machine)
    (history : History) : Prop where
  /-- The host has failed for some time, and then has returned one cache, or none so far. -/
  once : ∃ built, Returned ((Journal.ofHistory history).builds target) built
  /-- A cache that is there is the one that it has returned. -/
  published : ∀ {cache}, context.cache = .ready cache →
    Returned ((Journal.ofHistory history).builds target) (some cache)
  /-- What it has returned is there, or is stored next by the one who asked for it. -/
  stored : ∀ {cache}, .ok cache ∈ (Journal.ofHistory history).builds target →
    context.cache = .ready cache ∨ context.cache = .building ∧
      ∃ number next, machine.InProgress history number
        ⟨.buildCache target, .act (.context target (.fillCache cache)) next⟩
  /-- The cell is being built only while somebody is at it. -/
  busy : context.cache = .building →
    ∃ number rest, machine.InProgress history number ⟨.buildCache target, rest⟩
  /-- Whoever claims the cache finds what the host has returned by then, and is to ask the host for
  it exactly when that is nothing. -/
  claims : ∀ {before after index claim},
    history = before ++ (index, .acted (.context target .claimCache) claim) :: after →
      Returned ((Journal.ofHistory before).builds target) claim.found?
  /-- It does so, for the core of the context, and stores what it gets or gives up. -/
  attempts : ∀ {number story},
    (Journal.ofHistory history).own number = .started (.buildCache target) :: story →
      ∃ whole result, Attempt target context.shape whole result ∧
        story <+: whole ++ [.finished (.buildCache target) result]
  /-- It never gets stuck, and only waits while another one builds the cache. -/
  live : ∀ {index rest below}, machine.flows[index]? = some (⟨.buildCache target, rest⟩ :: below) →
    (∃ move next happening, machine.move? index move = some (next, happening)) ∨
      context.cache = .building ∧ ∃ next, rest = .act (.context target .claimCache) next
  /-- When it has returned, the cache is there. -/
  provided : ∀ {number story},
    (Journal.ofHistory history).own number = .started (.buildCache target) :: story →
      .finished (.buildCache target) (.ok ()) ∈ story → ∃ cache, context.cache = .ready cache
  /-- When it has given up, the cache is absent as before. -/
  vacated : ∀ {before index},
    history = before ++ [(index, .acted (.context target .abandonCache) ())] →
      context.cache = .vacant
  /-- It changes nothing but the cell. -/
  spares : ∀ {index rest below move next happening},
    machine.flows[index]? = some (⟨.buildCache target, rest⟩ :: below) →
      machine.move? index move = some (next, happening) →
        ∃ cache, next.world = { machine.world with
          contexts := machine.world.contexts.setIfInBounds target.index { context with cache } }
  /-- The host is asked for a cache only by those who are to provide it, for the core of their
  context, and not when it has returned one. -/
  asking : ∀ {number operation core next},
    machine.InProgress history number ⟨operation, .ask (.buildCache core) next⟩ →
      ∃ place shape, operation = .buildCache place ∧
        machine.world.contextShape? place = some shape ∧ core = shape.core ∧
          Returned ((Journal.ofHistory history).builds place) none
  /-- No other operation asks for a cache, or touches one. -/
  others : ∀ {number operation story},
    (Journal.ofHistory history).own number = .started operation :: story →
      operation.provides = false → ∀ happening ∈ story, happening.Uncached
  /-- Once the host has returned a cache it is never asked again, and the cache stays. -/
  kept : ∀ {cache moves machine' happened},
    .ok cache ∈ (Journal.ofHistory history).builds target →
      machine.run? moves = some (machine', happened) →
        (Journal.ofHistory (history ++ happened)).builds target =
            (Journal.ofHistory history).builds target ∧
          (context.cache = .ready cache →
            machine'.world.cacheOf? target = some (.ready cache))

section
variable {history : History} {world : World} {flows : Nat → Flow} {machine : Machine}
  {target : Ref .context} {context : Context} {number : Nat} {story : List Happening}

theorem Turns.ready {cell' : Option (OnceCell CacheRef)} {happening : Happening} {cache : CacheRef}
    (hturns : Turns target (some (.ready cache)) happening cell') :
    cell' = some (.ready cache) := by
  cases hturns <;> rfl

theorem shape_of_attempt (hrun : Runs {} history world flows) {place : Ref .context}
    (hown : (Journal.ofHistory history).own number = .started (.buildCache place) :: story)
    {shape : ContextShape} (hmem : .acted (.context place .shape) shape ∈ story) :
    world.contextShape? place = some shape :=
  hrun.contextShape_of_read (hrun.mem_history hown hmem)

theorem attempt_of_runs (hrun : Runs {} history world flows)
    (hcontext : world.contextAt? target = some context)
    (hown : (Journal.ofHistory history).own number = .started (.buildCache target) :: story) :
    ∃ whole result, Attempt target context.shape whole result ∧
      story <+: whole ++ [.finished (.buildCache target) result] := by
  obtain ⟨steps, rest, last, rfl, hreaches, hlast⟩ := hrun.reaches_last hown
  have hshape : ∀ seen, .acted (.context target .shape) seen ∈ steps → seen = context.shape := by
    intro seen hmem
    have hseen := shape_of_attempt hrun hown (List.mem_append_left last hmem)
    simpa [World.contextShape?, hcontext] using hseen.symm
  obtain ⟨whole, result, hattempt, hsteps, hended⟩ := (stage_of_reaches hreaches).attempt hshape
  refine ⟨whole, result, hattempt, ?_⟩
  obtain rfl | ⟨other, rfl, hdone⟩ := hlast
  · rw [List.append_nil]
    exact hsteps.trans (List.prefix_append _ _)
  · obtain ⟨rfl, rfl⟩ := hended other hdone
    exact List.prefix_rfl

/-- Whoever claims the cache is told what the host has returned by then. -/
theorem claim_of_runs {before after : History} {index : Nat} {claim : OnceCell.Claim CacheRef}
    (hrun : Runs {} (before ++ (index, .acted (.context target .claimCache) claim) :: after)
      world flows) :
    Returned ((Journal.ofHistory before).builds target) claim.found? := by
  obtain ⟨past, later, pastFlows, hpast, hafter⟩ := hrun.moment
  have hkept := hpast.kept target
  have hturns : Turns target _ _ _ := turns_of_after hafter
  generalize past.cacheOf? target = cell at hkept hturns
  generalize later.cacheOf? target = cell' at hturns
  cases hturns with
  | granted => exact (hkept.of_resting (by simp)).2
  | found cache => exact (hkept.of_resting (by simp)).2
  | aside hcache => exact absurd rfl hcache

/-- Who waits for a cache of the host is to provide it. -/
theorem asking_of_runs {operation : Operation} {core : CoreId}
    {next : Except Failure CacheRef → Program operation.Reply}
    (hrun : Runs {} history machine.world machine.flow)
    (hprogress : machine.InProgress history number ⟨operation, .ask (.buildCache core) next⟩) :
    ∃ place shape, operation = .buildCache place ∧
      (Journal.ofHistory history).own number =
        .started (.buildCache place) :: preamble place shape ∧ core = shape.core := by
  obtain ⟨made, hown, hgoes, _⟩ := hprogress.chronicle hrun
  obtain ⟨last, hreaches⟩ := hgoes (.ask (.buildCache core) next (.error .aborted))
  cases hprovides : operation.provides with
  | false =>
      have huncached := (Within.of_reaches (Operation.program_uncached hprovides)
        (fun procedure _ => procedure.code_uncached) hreaches).2
          (.answered (.buildCache core) (.error .aborted)) (by simp)
      cases huncached.2
  | true =>
      cases operation with
      | buildCache place =>
          generalize hhappening :
            Happening.answered (.buildCache core) (.error .aborted) = happening at hreaches
          cases advance_of_reaches hreaches <;> cases hhappening
          exact ⟨place, _, rfl, hown, rfl⟩
      | _ => cases hprovides

/-- An attempt only waits while another one builds the cache. -/
theorem Advance.building_of_waits {action : Action} {answer : action.Answer}
    {made : List Happening} (hcontext : world.contextAt? target = some context)
    (hadvance : Advance target made (.acted action answer))
    (hwaits : world.perform? action = none) :
    action = .context target .claimCache ∧ context.cache = .building := by
  have hnone : ∀ {access}, action = .context target access → context.access? access = none := by
    rintro access rfl
    simpa [World.perform?, hcontext] using hwaits
  generalize hhappening : Happening.acted action answer = happening at hadvance
  have hclaim : action = .context target .claimCache →
      action = .context target .claimCache ∧ context.cache = .building := by
    intro haction
    refine ⟨haction, ?_⟩
    have hcell := hnone haction
    cases hcache : context.cache with
    | building => rfl
    | vacant => simp [access?, OnceCell.claim?, hcache] at hcell
    | ready cache => simp [access?, OnceCell.claim?, hcache] at hcell
  cases hadvance <;> cases hhappening
  · exact hclaim rfl
  · exact hclaim rfl
  · cases hnone rfl
  · cases hnone rfl
  · cases hnone rfl

theorem access_spares {object object' : Context} {access : Access} {answer : access.Answer}
    (haccess : object.access? access = some (answer, object')) (htick : access ≠ .tick) :
    ∃ cache, object' = { object with cache } := by
  cases access with
  | claimCache =>
      obtain ⟨⟨_, _⟩, _, heq⟩ := Option.map_eq_some_iff.mp haccess
      cases heq
      exact ⟨_, rfl⟩
  | tick => exact absurd rfl htick
  | _ => cases haccess; exact ⟨_, rfl⟩

theorem Advance.spares {later : World} {made : List Happening} {happening : Happening}
    (hcontext : world.contextAt? target = some context) (hadvance : Advance target made happening)
    (hafter : world.After happening later) :
    ∃ cache, later = { world with
      contexts := world.contexts.setIfInBounds target.index { context with cache } } := by
  have hsame : world = { world with
      contexts := world.contexts.setIfInBounds target.index { context with } } := by
    rw [setIfInBounds_self hcontext]
  have hacted : ∀ {access : Access} {answer : access.Answer}, access ≠ .tick →
      world.perform? (.context target access) = some (answer, later) →
        ∃ cache, later = { world with
          contexts := world.contexts.setIfInBounds target.index { context with cache } } := by
    intro access answer htick hperform
    cases World.effect_of_perform? hperform with
    | context hobject haccess =>
        cases hcontext.symm.trans hobject
        obtain ⟨cache, rfl⟩ := access_spares haccess htick
        exact ⟨cache, rfl⟩
  cases hadvance with
  | tell shape => exact ⟨_, (show later = world from hafter).trans hsame⟩
  | hear shape result => exact ⟨_, (show later = world from hafter).trans hsame⟩
  | find cache => exact hacted (by simp) hafter
  | claim => exact hacted (by simp) hafter
  | look shape => exact hacted (by simp) hafter
  | store shape cache => exact hacted (by simp) hafter
  | drop shape failure => exact hacted (by simp) hafter

theorem Advance.store_of_heard {made : List Happening} {happening : Happening}
    {shape : ContextShape} {cache : CacheRef} (hadvance : Advance target made happening)
    (hmade : made = preamble target shape ++ [.answered (.buildCache shape.core) (.ok cache)]) :
    happening = .acted (.context target (.fillCache cache)) () := by
  cases hadvance <;> simp_all [preamble]

theorem Stage.heard {rest : Program Unit} {operation : Operation} {cache : CacheRef}
    (hstage : Stage target story rest) (hheld : Held target story)
    (hreply : reply (.started operation :: story) = some cache) :
    ∃ shape, story = preamble target shape ++ [.answered (.buildCache shape.core) (.ok cache)] := by
  cases hstage with
  | returned shape other =>
      cases hreply
      exact ⟨shape, rfl⟩
  | stored shape other => exact absurd (by simp) (hheld.2.2 other)
  | _ => cases hreply

theorem Stage.not_held {result : Except Failure Unit} (hstage : Stage target story (.done result)) :
    ¬ Held target story := by
  rintro ⟨hgranted, habandoned, hfilled⟩
  cases hstage with
  | found cache => simp at hgranted
  | stored shape cache => exact hfilled cache (by simp)
  | dropped shape failure => exact habandoned (by simp)

/-- While a cell is being built, somebody is at it. -/
theorem builder_of_runs (hrun : Runs {} history machine.world machine.flow)
    (hbuilding : machine.world.cacheOf? target = some .building) :
    ∃ number story rest, (Journal.ofHistory history).own number =
        .started (.buildCache target) :: story ∧ Held target story ∧
      machine.InProgress history number ⟨.buildCache target, rest⟩ ∧
        Returned ((Journal.ofHistory history).builds target)
          ((Journal.ofHistory history).reply number) := by
  have hkept := hrun.kept target
  rw [hbuilding] at hkept
  cases hkept with
  | resting hcell => exact absurd rfl hcell
  | building number hnumber hreturned =>
      obtain ⟨story, hown, hheld⟩ := (hnumber number).mpr rfl
      have hsteps : ∀ happening ∈ story, happening.isStep := by
        rcases hrun.reaches hown with ⟨_, hreaches⟩ | ⟨steps, result, rfl, hreaches⟩
        · exact hreaches.isStep
        · exact absurd ((held_concat (by simp)).mp hheld) (stage_of_reaches hreaches).not_held
      obtain ⟨rest, hprogress⟩ := Machine.inProgress_of_steps hrun hown hsteps
      exact ⟨number, story, rest, hown, hheld, hprogress, hreturned⟩

/-- What the host has returned is in the cell, or comes there next. -/
theorem stored_of_runs {cache : CacheRef} (hrun : Runs {} history machine.world machine.flow)
    (hcontext : machine.world.contextAt? target = some context)
    (hmem : .ok cache ∈ (Journal.ofHistory history).builds target) :
    context.cache = .ready cache ∨ context.cache = .building ∧
      ∃ number next, machine.InProgress history number
        ⟨.buildCache target, .act (.context target (.fillCache cache)) next⟩ := by
  have hcell := World.cacheOf?_of_contextAt? hcontext
  by_cases hbuilding : context.cache = .building
  · rw [hbuilding] at hcell
    obtain ⟨number, story, rest, hown, hheld, hprogress, hreturned⟩ := builder_of_runs hrun hcell
    have hreply := (hreturned.ok_mem_iff cache).mp hmem
    rw [Journal.reply, hown] at hreply
    obtain ⟨made, hown', hgoes, hdone⟩ := hprogress.chronicle hrun
    cases hown.symm.trans hown'
    rcases rest.done_or_goes with ⟨result, rfl⟩ | ⟨happening, next, hnext⟩
    · exact absurd hheld (stage_of_reaches (hdone rfl)).not_held
    · obtain ⟨last, hlast⟩ := hgoes hnext
      obtain ⟨middle, hmiddle, _⟩ := reaches_append.mp hlast
      obtain ⟨shape, hheard⟩ := (stage_of_reaches hmiddle).heard hheld hreply
      obtain rfl := (advance_of_reaches hlast).store_of_heard hheard
      cases hnext
      exact Or.inr ⟨hbuilding, number, _, hprogress⟩
  · have hkept := (hrun.kept target).of_resting (by simpa [hcell] using hbuilding)
    have hvalue := (hkept.2.ok_mem_iff cache).mp hmem
    rw [hcell, Option.bind_some] at hvalue
    cases hcache : context.cache with
    | ready other =>
        rw [hcache] at hvalue
        cases hvalue
        exact Or.inl rfl
    | _ =>
        rw [hcache] at hvalue
        cases hvalue

theorem spares_of_move? {index : Nat} {rest : Program Unit} {below : Flow} {move : Move}
    {next : Machine} {happening : Happening} (hrun : Runs {} history machine.world machine.flow)
    (hcontext : machine.world.contextAt? target = some context)
    (hflow : machine.flows[index]? = some (⟨.buildCache target, rest⟩ :: below))
    (hmove : machine.move? index move = some (next, happening)) :
    ∃ cache, next.world = { machine.world with
      contexts := machine.world.contexts.setIfInBounds target.index { context with cache } } := by
  have hnext := Machine.runs_move? hrun hmove
  obtain ⟨flow, hmoves, _⟩ := Machine.move?_moves hmove
  have hidle : next.world = machine.world → ∃ cache, next.world = { machine.world with
      contexts := machine.world.contexts.setIfInBounds target.index { context with cache } } := by
    intro hsame
    rw [hsame]
    exact ⟨context.cache, by rw [setIfInBounds_self hcontext]⟩
  rcases hrun.step_of_moves (machine.flow_of_flows hflow) hmoves with
    hsame | ⟨number, story, _, hown⟩
  · exact hidle hsame
  · by_cases hstep : happening.isStep
    · obtain ⟨last, hreaches⟩ := hnext.reaches_step hown hstep
      exact (advance_of_reaches hreaches).spares hcontext hmoves.after
    · cases happening <;> first | exact hidle hmoves.after | exact absurd rfl hstep

/-- A happening after which the cache is there. -/
def Yields (target : Ref .context) (happening : Happening) : Prop :=
  ∃ cache, happening = .acted (.context target .claimCache) (.ready cache) ∨
    happening = .acted (.context target (.fillCache cache)) ()

theorem ready_of_yields (hrun : Runs {} history world flows) {happening : Happening}
    (hyields : Yields target happening) (hmem : happening ∈ history.map Prod.snd) :
    ∃ cache, world.cacheOf? target = some (.ready cache) := by
  revert hmem
  refine hrun.keeps (fun history world => happening ∈ history.map Prod.snd →
    ∃ cache, world.cacheOf? target = some (.ready cache)) (by simp) ?_
  intro history world other later index hready hafter hmem
  have hturns : Turns target _ _ _ := turns_of_after hafter
  rw [List.map_append, List.mem_append, List.map_singleton, List.mem_singleton] at hmem
  rcases hmem with hmem | rfl
  · obtain ⟨cache, hcell⟩ := hready hmem
    rw [hcell] at hturns
    exact ⟨cache, hturns.ready⟩
  · generalize world.cacheOf? target = cell at hturns
    generalize later.cacheOf? target = cell' at hturns
    obtain ⟨cache, rfl | rfl⟩ := hyields
    · cases hturns with
      | found => exact ⟨cache, rfl⟩
      | aside hcache => exact absurd rfl hcache
    · cases hturns with
      | filled cell => cases cell <;> exact ⟨_, rfl⟩
      | aside hcache => exact absurd rfl hcache

theorem provided_of_runs (hrun : Runs {} history world flows)
    (hown : (Journal.ofHistory history).own number = .started (.buildCache target) :: story)
    (hfinished : .finished (.buildCache target) (.ok ()) ∈ story) :
    ∃ cache, world.cacheOf? target = some (.ready cache) := by
  obtain ⟨steps, rfl, hreaches⟩ := hrun.reaches_of_finished hown hfinished
  obtain ⟨happening, hyields, hmem⟩ : ∃ happening, Yields target happening ∧ happening ∈ steps := by
    cases stage_of_reaches hreaches with
    | found cache => exact ⟨_, ⟨cache, Or.inl rfl⟩, by simp⟩
    | stored shape cache => exact ⟨_, ⟨cache, Or.inr rfl⟩, by simp⟩
  exact ready_of_yields hrun hyields (hrun.mem_history hown (List.mem_append_left _ hmem))

/-- An attempt that gives up leaves the cell as it found it. -/
theorem vacated_of_runs {before : History} {index : Nat}
    (hrun : Runs {} (before ++ [(index, .acted (.context target .abandonCache) ())]) world flows) :
    world.cacheOf? target = some .vacant := by
  obtain ⟨doer, hgains⟩ := hrun.gains
  obtain ⟨place, made, hown, hadvance⟩ := hrun.advances_attempt hgains
    (by simp [Happening.Uncached])
  generalize hhistory : before ++ [(index, _)] = history at hrun
  cases hrun with
  | idle => simp at hhistory
  | @move _ past world _ _ _ _ hpast hmove =>
      obtain ⟨rfl, hlast⟩ := List.append_inj' hhistory rfl
      cases hlast
      have hturns : Turns target _ _ _ := turns_of_after hmove.after
      have hkept := hpast.kept target
      generalize past.cacheOf? target = cell at hturns hkept
      generalize world.cacheOf? target = cell' at hturns
      cases hadvance with
      | drop shape failure =>
          have hheld := (Journal.provides_iff hown).mpr (by simp [Held, preamble])
          obtain ⟨rfl, _⟩ := hkept.of_provides hheld
          cases hturns with
          | abandoned => rfl
          | aside hcache => exact absurd rfl hcache

/-- An attempt can go on, unless another one builds the cache that it is about to claim. -/
theorem live_of_runs {index : Nat} {rest : Program Unit} {below : Flow}
    (hrun : Runs {} history machine.world machine.flow)
    (hcontext : machine.world.contextAt? target = some context)
    (hflow : machine.flows[index]? = some (⟨.buildCache target, rest⟩ :: below)) :
    (∃ move next happening, machine.move? index move = some (next, happening)) ∨
      context.cache = .building ∧ ∃ next, rest = .act (.context target .claimCache) next := by
  refine (Machine.move_or_waits hflow).imp_right ?_
  rintro ⟨action, next, rfl, hwaits⟩
  obtain ⟨answer⟩ := action.nonempty_answer
  obtain ⟨number, hprogress⟩ := Machine.inProgress_of_flow hrun (machine.flow_of_flows hflow)
  obtain ⟨made, _, hgoes, _⟩ := hprogress.chronicle hrun
  obtain ⟨last, hreaches⟩ := hgoes (.act action next answer)
  obtain ⟨rfl, hbuilding⟩ := (advance_of_reaches hreaches).building_of_waits hcontext hwaits
  exact ⟨hbuilding, next, rfl⟩

/-- Who waits for a cache asks for the core of the context, and has been told of no cache yet. -/
theorem asks_of_runs {operation : Operation} {core : CoreId}
    {next : Except Failure CacheRef → Program operation.Reply}
    (hrun : Runs {} history machine.world machine.flow)
    (hprogress : machine.InProgress history number ⟨operation, .ask (.buildCache core) next⟩) :
    ∃ place shape, operation = .buildCache place ∧
      machine.world.contextShape? place = some shape ∧ core = shape.core ∧
        Returned ((Journal.ofHistory history).builds place) none := by
  obtain ⟨place, shape, rfl, hown, rfl⟩ := asking_of_runs hrun hprogress
  have hprovides := (Journal.provides_iff hown).mpr (by simp [Held, preamble])
  obtain ⟨_, _, hreturned⟩ := (hrun.kept place).of_provides hprovides
  rw [Journal.reply, hown] at hreturned
  exact ⟨place, shape, rfl, shape_of_attempt hrun hown (by simp [preamble]), rfl, hreturned⟩

theorem builds_settled {happened : History} {later : World} {flows' : Nat → Flow}
    {cache : CacheRef} (hrun : Runs {} (history ++ happened) later flows')
    (hmem : .ok cache ∈ (Journal.ofHistory history).builds target) :
    (Journal.ofHistory (history ++ happened)).builds target =
      (Journal.ofHistory history).builds target := by
  obtain ⟨more, hmore⟩ := hrun.deedsBy_append (Operation.build? target)
  obtain ⟨built, hreturned⟩ := (hrun.kept target).returned
  rw [Journal.builds, hmore, List.map_append] at hreturned ⊢
  rw [hreturned.complete hmem, List.append_nil, Journal.builds]

theorem ready_of_run? {machine' : Machine} {moves : List (Nat × Move)} {happened : History}
    {cache : CacheRef} (hmoves : machine.run? moves = some (machine', happened))
    (hready : machine.world.cacheOf? target = some (.ready cache)) :
    machine'.world.cacheOf? target = some (.ready cache) := by
  refine Machine.keeps_run? (fun world => world.cacheOf? target = some (.ready cache)) ?_ hmoves
    hready
  intro world happening later hready hafter
  have hturns : Turns target _ _ _ := turns_of_after hafter
  rw [hready] at hturns
  exact hturns.ready

end

/-- The template cache of a context is built once, however often and from wherever it is asked for,
and whatever the host does. -/
theorem builtOnce_of_run? {count : Nat} {moves : List (Nat × Move)} {machine : Machine}
    {history : History} {target : Ref .context} {context : Context}
    (hrun : (Machine.idle {} count).run? moves = some (machine, history))
    (hcontext : machine.world.contextAt? target = some context) :
    BuiltOnce target context machine history := by
  have hruns := Machine.runs_of_run? hrun
  have hcell := World.cacheOf?_of_contextAt? hcontext
  have hkept := hruns.kept target
  refine ⟨hkept.returned, ?_, stored_of_runs hruns hcontext, ?_, ?_,
    attempt_of_runs hruns hcontext, live_of_runs hruns hcontext, ?_, ?_,
    spares_of_move? hruns hcontext, asks_of_runs hruns,
    fun hown hprovides happening hmem => hruns.uncached hown hprovides hmem, ?_⟩
  · intro cache hcache
    rw [hcell, hcache] at hkept
    exact (hkept.of_resting (by simp)).2
  · intro hbuilding
    obtain ⟨number, _, rest, _, _, hprogress, _⟩ := builder_of_runs hruns (hbuilding ▸ hcell)
    exact ⟨number, rest, hprogress⟩
  · rintro before after index claim rfl
    exact claim_of_runs hruns
  · intro number story hown hfinished
    obtain ⟨cache, hready⟩ := provided_of_runs hruns hown hfinished
    exact ⟨cache, Option.some.inj (hcell.symm.trans hready)⟩
  · rintro before index rfl
    exact Option.some.inj (hcell.symm.trans (vacated_of_runs hruns))
  · intro cache moves machine' happened hmem hmoves
    exact ⟨builds_settled (Machine.runs_run? hruns hmoves) hmem,
      fun hcache => ready_of_run? hmoves (hcache ▸ hcell)⟩

open Schedule

/-- A context is made and run.  While the run waits to hear whether there are threads, the cache is
asked for twice, of a host that fails the first time; another flow then finds it there. -/
def failedThenBuilt : List (Nat × Move) :=
  inFlow 0 (along (.makeRegistry ⟨3⟩ 0) 2 ++ makingContext ⟨3⟩ .startup ⟨0⟩ ⟨0⟩ ++
    [Move.start (.run ⟨0⟩)] ++ steps 3 ++ [Move.start (.buildCache ⟨0⟩)] ++ steps 3 ++
    [Move.answer (.buildCache ⟨3⟩) (.error .aborted), .step, .finish,
      .start (.buildCache ⟨0⟩)] ++ steps 3 ++
    [Move.answer (.buildCache ⟨3⟩) (.ok ⟨7⟩), .step, .finish]) ++
  inFlow 1 (along (.buildCache ⟨0⟩) 1) ++
  inFlow 0 [.answer (.hasThreads ⟨0⟩) (.ok false), .finish]

theorem builtOnce_failedThenBuilt : ∃ machine history context,
    (Machine.idle {} 2).run? failedThenBuilt = some (machine, history) ∧
      machine.world.contextAt? ⟨0⟩ = some context ∧ context.cache = .ready ⟨7⟩ ∧
        (Journal.ofHistory history).builds ⟨0⟩ = [.error .aborted, .ok ⟨7⟩] ∧
          BuiltOnce ⟨0⟩ context machine history := by
  have hsome : ((Machine.idle {} 2).run? failedThenBuilt).isSome := by rfl
  obtain ⟨⟨machine, history⟩, hrun⟩ := Option.isSome_iff_exists.mp hsome
  have hcontext : (((Machine.idle {} 2).run? failedThenBuilt).bind fun outcome =>
      outcome.1.world.contextAt? ⟨0⟩) =
        some ⟨⟨⟨3⟩, false, .startup, ⟨0⟩, ⟨0⟩⟩, .ready ⟨7⟩, 0⟩ := by rfl
  have hbuilds : (((Machine.idle {} 2).run? failedThenBuilt).map fun outcome =>
      (Journal.ofHistory outcome.2).builds ⟨0⟩) = some [.error .aborted, .ok ⟨7⟩] := by rfl
  rw [hrun] at hcontext hbuilds
  exact ⟨machine, history, _, hrun, hcontext, rfl, Option.some.inj hbuilds,
    builtOnce_of_run? hrun hcontext⟩

end Context

end CoreEngines
