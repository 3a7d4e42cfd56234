import CoreEngines.Proofs.Admission.Ledger

/-!
The flag and the context of an engine.  The first to raise the flag finds it down and all others
find it up; a context that is there has been filled in, and stays.
-/

namespace CoreEngines

def Happening.guard? (target : Ref .engine) : Happening → Option Bool
  | .acted (.engine engine .enter) entered => if engine = target then some entered else none
  | _ => none

/-- How the entry flag of an engine was found, from first to last. -/
def guardsIn (target : Ref .engine) (story : List Happening) : List Bool :=
  story.filterMap (·.guard? target)

def World.entered (world : World) (target : Ref .engine) : Bool :=
  (world.engineAt? target).elim false (·.entered)

theorem Happening.guard?_eq_some {happening : Happening} {target : Ref .engine} {entered : Bool} :
    happening.guard? target = some entered ↔
      happening = .acted (.engine target .enter) entered := by
  constructor
  · intro hguard
    unfold guard? at hguard
    split at hguard
    · obtain ⟨rfl, hsame⟩ := Option.ite_none_right_eq_some.mp hguard
      cases hsame
      rfl
    · cases hguard
  · rintro rfl
    exact if_pos rfl

theorem mem_guardsIn {target : Ref .engine} {story : List Happening} {entered : Bool} :
    entered ∈ guardsIn target story ↔ .acted (.engine target .enter) entered ∈ story := by
  rw [guardsIn, List.mem_filterMap]
  constructor
  · rintro ⟨happening, hmem, hguard⟩
    rwa [← Happening.guard?_eq_some.mp hguard]
  · exact fun hmem => ⟨_, hmem, Happening.guard?_eq_some.mpr rfl⟩

section
variable {world later : World} {happening : Happening} {target : Ref .engine}

theorem World.entered_setEngine {place : Ref .engine} {object : Engine}
    (hobject : world.engineAt? place = some object) (object' : Engine) :
    World.entered { world with engines := world.engines.setIfInBounds place.index object' } =
      Function.update world.entered place object'.entered :=
  elim_setIfInBounds hobject object' false (·.entered)

/-- Whoever enters finds the flag as it is, and leaves it up. -/
theorem World.entered_after (target : Ref .engine) (hafter : world.After happening later) :
    match happening.guard? target with
    | some entered => world.entered target = entered ∧ later.entered target = true
    | none => later.entered target = world.entered target := by
  cases happening with
  | acted action answer =>
      cases effect_of_perform? hafter with
      | @engine place object object' access answer hobject haccess =>
          have hentered : world.entered place = object.entered := by simp [World.entered, hobject]
          rw [entered_setEngine hobject]
          cases access with
          | enter =>
              cases haccess
              by_cases hplace : place = target
              · subst hplace
                simp [Happening.guard?, hentered]
              · simp [Happening.guard?, hplace, Ne.symm hplace]
          | claimContext =>
              simp only [Engine.access?, Option.map_eq_some_iff] at haccess
              obtain ⟨_, _, heq⟩ := haccess
              cases heq
              simp [Happening.guard?, ← hentered]
          | _ =>
              cases haccess
              simp [Happening.guard?, ← hentered]
      | newEngine shape =>
          exact congrFun (elim_push .engine world.engines Engine.entered rfl) target
      | _ => rfl
  | _ =>
      obtain rfl : later = world := hafter
      rfl

/-- What is done to the context of an engine. -/
theorem Engine.access_context {object object' : Engine} {access : Engine.Access}
    {answer : access.Answer} (context : Ref .context)
    (haccess : object.access? access = some (answer, object')) :
    (object.context.value? = some context → object'.context.value? = some context) ∧
      (object'.context.value? = some context → object.context.value? = some context ∨
        access = .fillContext context) := by
  cases access with
  | claimContext =>
      simp only [Engine.access?, Option.map_eq_some_iff] at haccess
      obtain ⟨claimed, hclaim, heq⟩ := haccess
      cases heq
      cases hcell : object.context with
      | building => rw [hcell] at hclaim; cases hclaim
      | _ =>
          rw [hcell] at hclaim
          cases hclaim
          simp [OnceCell.value?]
  | fillContext filled =>
      cases haccess
      cases hcell : object.context <;> simp_all [OnceCell.fill, OnceCell.value?]
  | abandonContext =>
      cases haccess
      cases hcell : object.context <;> simp [OnceCell.abandon, OnceCell.value?]
  | _ =>
      cases haccess
      exact ⟨id, Or.inl⟩

theorem World.contextOf?_eq (world : World) :
    world.contextOf? = fun target => (world.engineAt? target).elim none (·.context.value?) := by
  funext target
  cases hengine : world.engineAt? target <;> simp [contextOf?, hengine]

/-- A context stays, and comes only from being filled in. -/
theorem World.context_after {context : Ref .context} (hafter : world.After happening later) :
    (world.contextOf? target = some context → later.contextOf? target = some context) ∧
      (later.contextOf? target = some context → world.contextOf? target = some context ∨
        happening = .acted (.engine target (.fillContext context)) ()) := by
  cases happening with
  | acted action answer =>
      cases effect_of_perform? hafter with
      | @engine place object object' access answer hobject haccess =>
          have hupdate : World.contextOf? { world with
              engines := world.engines.setIfInBounds place.index object' } =
                Function.update world.contextOf? place object'.context.value? := by
            rw [contextOf?_eq, contextOf?_eq]
            exact elim_setIfInBounds hobject object' none (·.context.value?)
          rw [hupdate]
          by_cases hplace : target = place
          · subst hplace
            have hcontext : world.contextOf? target = object.context.value? := by
              simp [contextOf?, hobject]
            obtain ⟨hstays, hcomes⟩ := Engine.access_context context haccess
            rw [Function.update_self, hcontext]
            refine ⟨hstays, fun hlater => (hcomes hlater).imp_right ?_⟩
            rintro rfl
            rfl
          · rw [Function.update_of_ne hplace]
            exact ⟨id, Or.inl⟩
      | newEngine shape =>
          have hsame : World.contextOf? { world with engines := world.engines.push (.new shape) } =
              world.contextOf? := by
            rw [contextOf?_eq, contextOf?_eq]
            exact elim_push .engine world.engines (·.context.value?) rfl
          rw [hsame]
          exact ⟨id, Or.inl⟩
      | _ => exact ⟨id, Or.inl⟩
  | _ =>
      obtain rfl : later = world := hafter
      exact ⟨id, Or.inl⟩

theorem World.contextOf?_of_look {context : Ref .context}
    (hperform : world.perform? (.engine target .context) = some (some context, later)) :
    world.contextOf? target = some context := by
  simp only [perform?, Option.bind_eq_some_iff, Option.map_eq_some_iff] at hperform
  obtain ⟨object, hobject, ⟨answer, object'⟩, haccess, heq⟩ := hperform
  cases heq
  obtain ⟨hcontext, _⟩ := Prod.mk.inj (Option.some.inj haccess)
  simp [contextOf?, hobject, hcontext]

/-- Whoever claims the context of an engine and gets it finds it there. -/
theorem World.contextOf?_of_claim {context : Ref .context}
    (hperform : world.perform? (.engine target .claimContext) =
      some (OnceCell.Claim.ready context, later)) : world.contextOf? target = some context := by
  simp only [perform?, Option.bind_eq_some_iff, Option.map_eq_some_iff] at hperform
  obtain ⟨object, hobject, ⟨answer, object'⟩, haccess, heq⟩ := hperform
  cases heq
  obtain ⟨⟨claim, cell⟩, hclaim, heq⟩ := Option.map_eq_some_iff.mp haccess
  cases heq
  cases hcell : object.context with
  | vacant => rw [hcell] at hclaim; cases hclaim
  | building => rw [hcell] at hclaim; cases hclaim
  | ready place =>
      rw [hcell] at hclaim
      cases hclaim
      simp [contextOf?, hobject, hcell, OnceCell.value?]

end

namespace Runs

variable {history : History} {world : World} {flows : Nat → Flow}

/-- The first who comes to the flag of an engine finds it down, and all others find it up. -/
theorem guards (hrun : Runs {} history world flows) (target : Ref .engine) :
    (guardsIn target (history.map Prod.snd) = [] ∧ world.entered target = false) ∨
      ∃ others, guardsIn target (history.map Prod.snd) = false :: List.replicate others true ∧
        world.entered target = true := by
  refine hrun.keeps (fun history world =>
    (guardsIn target (history.map Prod.snd) = [] ∧ world.entered target = false) ∨
      ∃ others, guardsIn target (history.map Prod.snd) = false :: List.replicate others true ∧
        world.entered target = true) ?_ ?_
  · exact Or.inl ⟨rfl, rfl⟩
  · intro history world happening later index hguards hafter
    have hentered := World.entered_after target hafter
    have hconcat : guardsIn target ((history ++ [(index, happening)]).map Prod.snd) =
        guardsIn target (history.map Prod.snd) ++ (happening.guard? target).toList := by
      cases hguard : happening.guard? target <;> simp [guardsIn, hguard]
    rw [hconcat]
    cases hguard : happening.guard? target with
    | none =>
        simp only [hguard] at hentered
        simpa [hentered] using hguards
    | some entered =>
        simp only [hguard] at hentered
        obtain ⟨rfl, hup⟩ := hentered
        obtain ⟨hnone, hdown⟩ | ⟨others, hothers, hup'⟩ := hguards
        · exact Or.inr ⟨0, by simp [hnone, hdown], hup⟩
        · refine Or.inr ⟨others + 1, ?_, hup⟩
          rw [hothers, hup', List.replicate_succ']
          rfl

/-- A context that is there has been filled in. -/
theorem filled {target : Ref .engine} {context : Ref .context} (hrun : Runs {} history world flows)
    (hcontext : world.contextOf? target = some context) :
    .acted (.engine target (.fillContext context)) () ∈ history.map Prod.snd := by
  revert hcontext
  refine hrun.keeps (fun history world => world.contextOf? target = some context →
    .acted (.engine target (.fillContext context)) () ∈ history.map Prod.snd) ?_ ?_
  · intro hcontext
    cases hcontext
  · intro history world happening later index hfilled hafter hcontext
    rw [List.map_append, List.mem_append]
    rcases (World.context_after hafter).2 hcontext with hold | rfl
    · exact Or.inl (hfilled hold)
    · exact Or.inr (List.mem_singleton_self _)

end Runs

end CoreEngines
