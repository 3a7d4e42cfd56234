import CoreEngines.Proofs.Conduct.Laps

/-!
Openings.  The engines run a context in one of two operations: the one that does nothing else, and
the entry of an engine, which has gone through its checks and has built the context before.
-/

namespace CoreEngines

def Operation.runsContext : Operation → Bool
  | run _ | enter _ => true
  | _ => false

/-- Whether a step can come before a context is run: it calls no manager, and looks at no list of
threads. -/
def Happening.Preliminary : Happening → Prop
  | .called (.runLoop _) => False
  | happening => happening.call? = none ∧ ∀ target, happening.found? target = none

open Program

section
variable {happening : Happening}

theorem Happening.Preliminary.told (hpreliminary : happening.Preliminary) :
    happening.call? = none ∧ ∀ target, happening.found? target = none := by
  unfold Preliminary at hpreliminary
  split at hpreliminary
  · exact hpreliminary.elim
  · exact hpreliminary

@[simp]
theorem Happening.preliminary_engine (engine : Ref .engine) (access : Engine.Access)
    (answer : access.Answer) : (Happening.acted (.engine engine access) answer).Preliminary :=
  ⟨rfl, fun _ => rfl⟩

@[simp]
theorem Happening.preliminary_currentCore (located : Except Failure CoreId) :
    (Happening.answered .currentCore located).Preliminary :=
  ⟨rfl, fun _ => rfl⟩

@[simp]
theorem Happening.preliminary_reported (event : TraceEvent) :
    (Happening.reported event).Preliminary :=
  ⟨rfl, fun _ => rfl⟩

theorem preliminary_of_last {operation : Operation} {last : List Happening}
    {Ends : Except Failure operation.Reply → Prop}
    (hlast : last = [] ∨ ∃ result, last = [.finished operation result] ∧ Ends result) :
    ∀ happening ∈ last, happening.Preliminary := by
  obtain rfl | ⟨result, rfl, _⟩ := hlast
  · exact List.forall_mem_nil _
  · exact List.forall_mem_singleton.mpr ⟨rfl, fun _ => rfl⟩

theorem call?_of_said (hsaid : happening.ready?.isSome ∨ happening.quantum?.isSome) :
    happening.call? ≠ none := by
  cases happening with
  | answered callback result =>
      cases callback with
      | hasThreads manager => simp [Happening.call?, Callback.isCall]
      | runQuantum manager => simp [Happening.call?, Callback.isCall]
      | _ => simp [Happening.ready?, Happening.quantum?] at hsaid
  | _ => simp [Happening.ready?, Happening.quantum?] at hsaid

end

theorem preliminary_code (procedure : Procedure)
    (hcalled : (Happening.called procedure).Preliminary) :
    procedure.code.Within Happening.Preliminary := by
  cases procedure with
  | runLoop context => exact hcalled.elim
  | claimSerial counter seen =>
      refine Within.bind (Within.chance fun _ => ⟨rfl, fun _ => rfl⟩) fun spurious => ?_
      split
      · exact Within.bind (Within.perform fun _ => ⟨rfl, fun _ => rfl⟩) fun _ =>
          Within.invoke ⟨rfl, fun _ => rfl⟩
      · refine Within.bind (Within.perform fun _ => ⟨rfl, fun _ => rfl⟩) fun outcome => ?_
        cases outcome with
        | none => exact Within.pure _
        | some found => exact Within.invoke ⟨rfl, fun _ => rfl⟩
  | idle =>
      exact Within.bind (Within.request fun _ => ⟨rfl, fun _ => rfl⟩) fun _ =>
        Within.invoke ⟨rfl, fun _ => rfl⟩

theorem Context.run_reads {context : Ref .context} {happening : Happening}
    {story : List Happening} {rest : Program Unit}
    (hreaches : (Context.run context).Reaches (happening :: story) rest) :
    ∃ shape, happening = .acted (.context context .shape) shape := by
  rw [Context.run, Context.admitStaged, bind_bind] at hreaches
  obtain ⟨shape, rfl, _⟩ := reaches_perform_bind hreaches
  exact ⟨shape, rfl⟩

namespace Engine

variable {engine : Ref .engine} {core : CoreId} {shape : EngineShape} {story : List Happening}
  {rest : Program Unit}

/-- What it takes to build the context of an engine. -/
theorem makeContext_within {Permits : Happening → Prop}
    (hengine : ∀ access answer, Permits (.acted (.engine engine access) answer))
    (hcontext : ∀ made place, Permits (.acted (.newContext made) place))
    (hmanager : ∀ startup result, Permits (.answered (.createManager core startup) result))
    (hreport : ∀ event, Permits (.reported event)) :
    (makeContext engine core shape).Within Permits := by
  refine Within.bind (Within.perform fun _ => hengine _ _) fun claim => ?_
  cases claim with
  | ready context => exact Within.pure _
  | granted =>
      have hmake : (Context.make core (decide (core = shape.config.bootstrapCore))
          shape.config.admission shape.registry).Within Permits :=
        Within.bind (Within.request fun _ => hmanager _ _) fun _ =>
          Within.bind (Within.report (hreport _)) fun _ => Within.perform fun _ => hcontext _ _
      refine Within.andThen hmake fun result => ?_
      cases result with
      | ok context =>
          exact Within.bind (Within.perform fun _ => hengine _ _) fun _ => Within.pure _
      | error failure =>
          exact Within.bind (Within.perform fun _ => hengine _ _) fun _ => Within.fail _

theorem makeContext_preliminary : (makeContext engine core shape).Within Happening.Preliminary :=
  makeContext_within (fun _ _ => ⟨rfl, fun _ => rfl⟩) (fun _ _ => ⟨rfl, fun _ => rfl⟩)
    (fun _ _ => ⟨rfl, fun _ => rfl⟩) fun _ => ⟨rfl, fun _ => rfl⟩

theorem makeContext_straight : (makeContext engine core shape).Straight :=
  makeContext_within (fun _ _ _ => Happening.noConfusion) (fun _ _ _ => Happening.noConfusion)
    (fun _ _ _ => Happening.noConfusion) fun _ _ => Happening.noConfusion

/-- How the context of an engine is had: it is there, or it is built around a new manager. -/
theorem made_of_tells {result : Except Failure (Ref .context)}
    (htells : (makeContext engine core shape).Tells story result) :
    (∃ place, story = [.acted (.engine engine .claimContext) (.ready place)] ∧ result = .ok place) ∨
      (∃ manager place made, result = .ok place ∧
        story = [.acted (.engine engine .claimContext) .granted,
          .answered (.createManager core (decide (core = shape.config.bootstrapCore)))
            (.ok manager),
          .reported (.contextBuilt core (decide (core = shape.config.bootstrapCore))),
          .acted (.newContext made) place, .acted (.engine engine (.fillContext place)) ()]) ∨
        (∃ happening ∈ story, happening.fails) ∧ ∃ failure, result = .error failure := by
  obtain ⟨claim, rest, rfl, htells⟩ := htells
  cases claim with
  | ready place =>
      obtain ⟨rfl, rfl⟩ := htells
      exact Or.inl ⟨place, rfl, rfl⟩
  | granted =>
      obtain ⟨answer, rest, rfl, htells⟩ := htells
      cases answer with
      | ok manager =>
          obtain ⟨rest, rfl, place, rest, rfl, _, rest, rfl, rfl, rfl⟩ := htells
          exact Or.inr (Or.inl ⟨manager, place, _, rfl, rfl⟩)
      | error failure =>
          obtain ⟨_, rest, rfl, rfl, rfl⟩ := htells
          exact Or.inr (Or.inr
            ⟨⟨_, List.mem_cons_of_mem _ List.mem_cons_self, rfl⟩, failure, rfl⟩)

/-- What an engine comes to that has been entered. -/
theorem operate_cases (hreaches : (operate engine core shape).Reaches story rest) :
    (∃ built place late, story = built ++ late ∧ shape.mode = .execution ∧
      (makeContext engine core shape).Reaches built (.done (.ok place)) ∧
        (Context.run place).Reaches late rest) ∨
      (∀ happening ∈ story, happening.Preliminary) ∧ ∀ result, rest = .done result →
        (∃ happening ∈ story, happening.fails) ∨ shape.mode ≠ .execution := by
  unfold operate at hreaches
  split at hreaches
  · next hmode =>
    refine Or.inr ⟨(Within.of_reaches ?_ preliminary_code hreaches).2,
      fun _ _ => Or.inr (by simp [hmode])⟩
    -- Nobody comes back from a halt.
    exact Within.bind (Within.request fun _ => ⟨rfl, fun _ => rfl⟩) fun never => never.elim
  · next hmode =>
    have hquiet : (invoke .idle).Within Happening.Preliminary := Within.invoke ⟨rfl, fun _ => rfl⟩
    exact Or.inr ⟨(hquiet.of_reaches preliminary_code hreaches).2,
      fun _ _ => Or.inr (by simp [hmode])⟩
  · next hmode =>
    rcases reaches_bind hreaches with
      ⟨left, hleft, hrest⟩ | ⟨built, place, late, hbuilt, hlate, rfl⟩
    · refine Or.inr ⟨(makeContext_preliminary.of_reaches preliminary_code hleft).2, ?_⟩
      rintro result rfl
      cases left with
      | done outcome =>
          rcases made_of_tells (makeContext_straight.tells hleft) with
            ⟨place, _, rfl⟩ | ⟨_, place, _, rfl, _⟩ | ⟨hfails, _⟩
          · cases hrest
          · cases hrest
          · exact Or.inl hfails
      | _ => cases hrest
    · exact Or.inl ⟨built, place, late, rfl, hmode, hbuilt, hlate⟩

/-- An entry that has passed its checks and goes by the mode of the engine. -/
def opened (engine : Ref .engine) (shape : EngineShape) : List Happening :=
  arrival engine shape ++ [Happening.reported (.engineEntered shape.core shape.mode)]

theorem opened_preliminary :
    ∀ happening ∈ opened engine shape, happening.Preliminary := by
  simp [opened, arrival, passing]

/-- An entry that has not come to run a context. -/
structure Stops (engine : Ref .engine) (story : List Happening) (rest : Program Unit) : Prop where
  preliminary : ∀ happening ∈ story, happening.Preliminary
  /-- If it has come to its end, a callback has failed, or it was not an entry of an execution
  engine on its own core. -/
  ended : ∀ result, rest = .done result → ∃ shape late,
    story = .acted (.engine engine .shape) shape :: late ∧ ((∃ happening ∈ late, happening.fails) ∨
      shape.mode ≠ .execution ∨ .answered .currentCore (.ok shape.core) ∉ late)

/-- What an entry of an engine comes to: it runs the context that the engine has by then, or has not
come so far. -/
theorem enter_cases (hreaches : (enter engine).Reaches story rest) :
    (∃ shape built place late, story = opened engine shape ++ (built ++ late) ∧
      shape.mode = .execution ∧
        (makeContext engine shape.core shape).Reaches built (.done (.ok place)) ∧
          (Context.run place).Reaches late rest) ∨ Stops engine story rest := by
  -- The checks come one after the other, and an entry may stop at each of them.
  have hstays : ∀ {made : List Happening} {program : Program Unit},
      (∀ happening ∈ made, happening.Preliminary) → (∀ result, program ≠ .done result) →
        program.Reaches [] rest → Stops engine made rest :=
    fun hmade hprogram hreaches => ⟨hmade, fun result hdone =>
      absurd ((reaches_nil.mp hreaches).symm.trans hdone) (hprogram result)⟩
  rcases story with _ | ⟨first, story⟩
  · exact Or.inr (hstays (by simp) (fun _ hdone => by cases hdone) hreaches)
  obtain ⟨shape, rfl, hguard⟩ := reaches_perform_bind hreaches
  rcases story with _ | ⟨first, story⟩
  · exact Or.inr (hstays (by simp) (fun _ hdone => by cases hdone) hguard)
  obtain ⟨entered, rfl, hlook⟩ := reaches_perform_bind hguard
  split at hlook
  · obtain ⟨rfl, rfl⟩ := reaches_done.mp hlook
    exact Or.inr ⟨by simp, fun _ _ => ⟨shape, _, rfl, Or.inr (Or.inr (by simp))⟩⟩
  next hpassed =>
  obtain rfl : entered = false := Bool.eq_false_iff.mpr hpassed
  rcases story with _ | ⟨first, story⟩
  · exact Or.inr (hstays (by simp) (fun _ hdone => by cases hdone) hlook)
  obtain ⟨context, rfl, hlocate⟩ := reaches_perform_bind hlook
  cases context with
  | some context =>
      obtain ⟨rfl, rfl⟩ := reaches_done.mp hlocate
      exact Or.inr ⟨by simp, fun _ _ => ⟨shape, _, rfl, Or.inr (Or.inr (by simp))⟩⟩
  | none =>
      rcases story with _ | ⟨first, story⟩
      · exact Or.inr (hstays (by simp) (fun _ hdone => by cases hdone) hlocate)
      rcases reaches_request_bind hlocate with ⟨core, rfl, hreport⟩ | ⟨failure, rfl, rfl, rfl⟩
      · split at hreport
        · next hcore =>
          subst hcore
          rcases story with _ | ⟨first, story⟩
          · exact Or.inr (hstays (by simp) (fun _ hdone => by cases hdone) hreport)
          obtain ⟨rfl, hoperate⟩ := reaches_report_bind hreport
          rcases operate_cases hoperate with
            ⟨built, place, late, rfl, hmode, hbuilt, hlate⟩ | ⟨hquiet, hended⟩
          · exact Or.inl ⟨shape, built, place, late, rfl, hmode, hbuilt, hlate⟩
          · refine Or.inr ⟨by simpa using hquiet, fun result hdone => ⟨shape, _, rfl, ?_⟩⟩
            refine (hended result hdone).imp ?_ Or.inl
            exact fun ⟨happening, hmem, hfails⟩ => ⟨happening, by simp [hmem], hfails⟩
        · next hcore =>
          obtain ⟨rfl, rfl⟩ := reaches_done.mp hreport
          refine Or.inr ⟨by simp, fun _ _ => ⟨shape, _, rfl, Or.inr (Or.inr ?_)⟩⟩
          simpa using Ne.symm hcore
      · refine Or.inr ⟨by simp, fun _ _ => ⟨shape, _, rfl, Or.inl ?_⟩⟩
        exact ⟨.answered .currentCore (.error failure), by simp, rfl⟩

end Engine

end CoreEngines
