import CoreEngines.Proofs.Runs

/-!
Disciplines.  A discipline follows an operation through its steps with a state of its own: it says
how each step changes that state, what the operation may do in it, and what it may take for granted
of the answers.  That a program keeps to a discipline is read off its tree, one rule for each way to
build a program.
-/

namespace CoreEngines

/-- A rule of conduct for operations.  A procedure is entered in some states and left in others,
which stands for its rounds. -/
structure Discipline (σ : Type) where
  start : Operation → σ
  observe : σ → Happening → σ
  Allows : σ → Happening → Prop
  Presumes : σ → Happening → Prop
  Enters : Procedure → σ → Prop
  Leaves : (procedure : Procedure) → σ → σ → Except Failure procedure.Answer → Prop
  Returns : (operation : Operation) → σ → Except Failure operation.Reply → Prop

/-- Every way through the program keeps to the discipline and ends as `post` says. -/
def Program.Ensures {σ α : Type} (discipline : Discipline σ) (program : Program α) (state : σ)
    (post : σ → Except Failure α → Prop) : Prop :=
  match program with
  | .done result => post state result
  | .act action next => ∀ answer, discipline.Presumes state (.acted action answer) →
      discipline.Allows state (.acted action answer) ∧
        (next answer).Ensures discipline (discipline.observe state (.acted action answer)) post
  | .emit event next => discipline.Presumes state (.reported event) →
      discipline.Allows state (.reported event) ∧
        next.Ensures discipline (discipline.observe state (.reported event)) post
  | .choose next => ∀ choice, discipline.Presumes state (.chose choice) →
      discipline.Allows state (.chose choice) ∧
        (next choice).Ensures discipline (discipline.observe state (.chose choice)) post
  | .ask callback next => ∀ result, discipline.Presumes state (.answered callback result) →
      discipline.Allows state (.answered callback result) ∧
        (next result).Ensures discipline
          (discipline.observe state (.answered callback result)) post
  | .call procedure next => discipline.Presumes state (.called procedure) →
      discipline.Allows state (.called procedure) ∧
        discipline.Enters procedure (discipline.observe state (.called procedure)) ∧
          ∀ later result,
            discipline.Leaves procedure (discipline.observe state (.called procedure)) later
              result →
            (next result).Ensures discipline later post

/-- The rounds of all procedures keep to the discipline. -/
def Discipline.Rounds {σ : Type} (discipline : Discipline σ) : Prop :=
  ∀ (procedure : Procedure) (state : σ), discipline.Enters procedure state →
    procedure.code.Ensures discipline state (discipline.Leaves procedure state)

/-- All operations and all procedures keep to the discipline. -/
structure Discipline.Obeyed {σ : Type} (discipline : Discipline σ) : Prop where
  operations : ∀ operation : Operation,
    operation.program.Ensures discipline (discipline.start operation)
      (discipline.Returns operation)
  procedures : discipline.Rounds

namespace Program

variable {σ α β : Type} {discipline : Discipline σ} {state : σ}

theorem Ensures.mono {program : Program α} {post post' : σ → Except Failure α → Prop}
    (hensures : program.Ensures discipline state post)
    (hpost : ∀ later result, post later result → post' later result) :
    program.Ensures discipline state post' := by
  induction program generalizing state with
  | done result => exact hpost state result hensures
  | act action next ih =>
      intro answer hpresumes
      obtain ⟨hallows, hnext⟩ := hensures answer hpresumes
      exact ⟨hallows, ih answer hnext⟩
  | emit event next ih =>
      intro hpresumes
      obtain ⟨hallows, hnext⟩ := hensures hpresumes
      exact ⟨hallows, ih hnext⟩
  | choose next ih =>
      intro choice hpresumes
      obtain ⟨hallows, hnext⟩ := hensures choice hpresumes
      exact ⟨hallows, ih choice hnext⟩
  | ask callback next ih =>
      intro result hpresumes
      obtain ⟨hallows, hnext⟩ := hensures result hpresumes
      exact ⟨hallows, ih result hnext⟩
  | call procedure next ih =>
      intro hpresumes
      obtain ⟨hallows, henters, hnext⟩ := hensures hpresumes
      exact ⟨hallows, henters, fun later result hleaves => ih result (hnext later result hleaves)⟩

theorem ensures_andThen (program : Program α) (next : Except Failure α → Program β)
    (post : σ → Except Failure β → Prop) :
    (program.andThen next).Ensures discipline state post ↔
      program.Ensures discipline state fun later result =>
        (next result).Ensures discipline later post := by
  induction program generalizing state with
  | done result => exact Iff.rfl
  | act action rest ih => simp only [andThen, Ensures, ih]
  | emit event rest ih => simp only [andThen, Ensures, ih]
  | choose rest ih => simp only [andThen, Ensures, ih]
  | ask callback rest ih => simp only [andThen, Ensures, ih]
  | call procedure rest ih => simp only [andThen, Ensures, ih]

@[simp]
theorem ensures_done (result : Except Failure α) (post : σ → Except Failure α → Prop) :
    (done result).Ensures discipline state post ↔ post state result :=
  Iff.rfl

@[simp]
theorem ensures_pure (value : α) (post : σ → Except Failure α → Prop) :
    (pure value : Program α).Ensures discipline state post ↔ post state (.ok value) :=
  Iff.rfl

@[simp]
theorem ensures_fail (failure : Failure) (post : σ → Except Failure α → Prop) :
    (fail failure : Program α).Ensures discipline state post ↔ post state (.error failure) :=
  Iff.rfl

@[simp]
theorem ensures_raise (violation : Violation) (post : σ → Except Failure α → Prop) :
    (raise violation : Program α).Ensures discipline state post ↔
      post state (.error (.violation violation)) :=
  Iff.rfl

@[simp]
theorem ensures_bind (program : Program α) (next : α → Program β)
    (post : σ → Except Failure β → Prop) :
    (program >>= next).Ensures discipline state post ↔
      program.Ensures discipline state fun later result =>
        match result with
        | .ok value => (next value).Ensures discipline later post
        | .error failure => post later (.error failure) := by
  change (program.andThen _).Ensures discipline state post ↔ _
  rw [ensures_andThen]
  refine iff_of_eq (congrArg (program.Ensures discipline state) ?_)
  funext later result
  cases result <;> rfl

/-- What one program ensures is where the next one starts. -/
theorem Ensures.bind {program : Program α} {next : α → Program β}
    {middle : σ → Except Failure α → Prop} {post : σ → Except Failure β → Prop}
    (hprogram : program.Ensures discipline state middle)
    (hnext : ∀ later value, middle later (.ok value) →
      (next value).Ensures discipline later post)
    (hfails : ∀ later failure, middle later (.error failure) → post later (.error failure)) :
    (program >>= next).Ensures discipline state post := by
  rw [ensures_bind]
  apply hprogram.mono
  intro later result hmiddle
  cases result with
  | ok value => exact hnext later value hmiddle
  | error failure => exact hfails later failure hmiddle

@[simp]
theorem ensures_perform (action : Action) (post : σ → Except Failure action.Answer → Prop) :
    Ensures (α := no_index action.Answer) discipline (perform action) state post ↔
      ∀ answer, discipline.Presumes state (.acted action answer) →
        discipline.Allows state (.acted action answer) ∧
          post (discipline.observe state (.acted action answer)) (.ok answer) :=
  Iff.rfl

@[simp]
theorem ensures_report (event : TraceEvent) (post : σ → Except Failure Unit → Prop) :
    (report event).Ensures discipline state post ↔
      (discipline.Presumes state (.reported event) →
        discipline.Allows state (.reported event) ∧
          post (discipline.observe state (.reported event)) (.ok ())) :=
  Iff.rfl

@[simp]
theorem ensures_request (callback : Callback)
    (post : σ → Except Failure callback.Answer → Prop) :
    Ensures (α := no_index callback.Answer) discipline (request callback) state post ↔
      ∀ result, discipline.Presumes state (.answered callback result) →
        discipline.Allows state (.answered callback result) ∧
          post (discipline.observe state (.answered callback result)) result :=
  Iff.rfl

@[simp]
theorem ensures_invoke (procedure : Procedure)
    (post : σ → Except Failure procedure.Answer → Prop) :
    Ensures (α := no_index procedure.Answer) discipline (invoke procedure) state post ↔
      (discipline.Presumes state (.called procedure) →
        discipline.Allows state (.called procedure) ∧
          discipline.Enters procedure (discipline.observe state (.called procedure)) ∧
            ∀ later result,
              discipline.Leaves procedure (discipline.observe state (.called procedure)) later
                result →
              post later result) :=
  Iff.rfl

@[simp]
theorem ensures_chance (post : σ → Except Failure Bool → Prop) :
    chance.Ensures discipline state post ↔
      ∀ choice, discipline.Presumes state (.chose choice) →
        discipline.Allows state (.chose choice) ∧
          post (discipline.observe state (.chose choice)) (.ok choice) :=
  Iff.rfl

/-- A locked section takes the lock first and gives it back last, whatever its body ends with. -/
@[simp]
theorem ensures_locked (lock : Lock) (body : Program α) (post : σ → Except Failure α → Prop) :
    (locked lock body).Ensures discipline state post ↔
      (discipline.Presumes state (.acted (.acquire lock) ()) →
        discipline.Allows state (.acted (.acquire lock) ()) ∧
          body.Ensures discipline (discipline.observe state (.acted (.acquire lock) ()))
            fun inside result =>
              discipline.Presumes inside (.acted (.release lock) ()) →
                discipline.Allows inside (.acted (.release lock) ()) ∧
                  post (discipline.observe inside (.acted (.release lock) ())) result) := by
  simp only [locked, withCleanup, ensures_bind, ensures_perform, ensures_andThen, ensures_done]
  constructor
  · intro hlocked hpresumes
    obtain ⟨hallows, hbody⟩ := hlocked () hpresumes
    exact ⟨hallows, hbody.mono fun inside result hrelease => hrelease ()⟩
  · intro hlocked answer hpresumes
    obtain ⟨hallows, hbody⟩ := hlocked hpresumes
    exact ⟨hallows, hbody.mono fun inside result hrelease answer => hrelease⟩

/-- What a masked section ends with: its body's result, unless putting the interrupts back
failed. -/
def Masked.outcome : Except Failure α → Except Failure Unit → Except Failure α
  | result, .ok () => result
  | .ok _, .error failure => .error failure
  | .error _, .error _ => .error .aborted

/-- A masked section masks interrupts first and puts them back last. -/
@[simp]
theorem ensures_masked (body : Program α) (post : σ → Except Failure α → Prop) :
    (masked body).Ensures discipline state post ↔
      ∀ masking : Except Failure Bool, discipline.Presumes state (.answered .mask masking) →
        discipline.Allows state (.answered .mask masking) ∧
          match masking with
          | .error failure =>
              post (discipline.observe state (.answered .mask masking)) (.error failure)
          | .ok previous =>
              body.Ensures discipline (discipline.observe state (.answered .mask masking))
                fun inside result => ∀ restoring : Except Failure Unit,
                  discipline.Presumes inside (.answered (.restore previous) restoring) →
                    discipline.Allows inside (.answered (.restore previous) restoring) ∧
                      post (discipline.observe inside (.answered (.restore previous) restoring))
                        (Masked.outcome result restoring) := by
  simp only [masked, withCleanup, ensures_bind, ensures_request, ensures_andThen]
  refine forall_congr' fun masking => imp_congr_right fun _ => and_congr_right fun _ => ?_
  cases masking with
  | error failure => exact Iff.rfl
  | ok previous =>
      refine iff_of_eq (congrArg (body.Ensures discipline _) ?_)
      funext inside result
      refine propext (forall_congr' fun restoring => ?_)
      cases restoring with
      | ok answer => cases answer; exact Iff.rfl
      | error failure => cases result <;> exact Iff.rfl

/-- A program that keeps to a discipline keeps to it after its next step. -/
theorem Ensures.goes {program program' : Program α} {happening : Happening}
    {post : σ → Except Failure α → Prop} (hrounds : discipline.Rounds)
    (hensures : program.Ensures discipline state post) (hgoes : program.Goes happening program')
    (hpresumes : discipline.Presumes state happening) :
    discipline.Allows state happening ∧
      program'.Ensures discipline (discipline.observe state happening) post := by
  cases hgoes with
  | act action next answer => exact hensures answer hpresumes
  | emit event next => exact hensures hpresumes
  | choose next choice => exact hensures choice hpresumes
  | ask callback next result => exact hensures result hpresumes
  | call procedure next =>
      obtain ⟨hallows, henters, hnext⟩ := hensures hpresumes
      refine ⟨hallows, ?_⟩
      rw [ensures_andThen]
      exact (hrounds procedure _ henters).mono hnext

end Program

namespace Discipline

/-- The discipline that only confines what operations do. -/
def within (Permits : Happening → Prop) : Discipline Unit where
  start _ := ()
  observe _ _ := ()
  Allows _ happening := Permits happening
  Presumes _ _ := True
  Enters _ _ := True
  Leaves _ _ _ _ := True
  Returns _ _ _ := True

end Discipline

/-- Every step that the program can do is permitted. -/
def Program.Within {α : Type} (Permits : Happening → Prop) (program : Program α) : Prop :=
  program.Ensures (.within Permits) () fun _ _ => True

/-- What all permitted steps keep of the state, a program keeps that can do no others. -/
theorem Program.Within.ensures {σ α : Type} {discipline : Discipline σ} {state : σ}
    {Permits : Happening → Prop} {Keeps : σ → Prop} {program : Program α}
    (hwithin : program.Within Permits) (hstate : Keeps state)
    (hsteps : ∀ state happening, Keeps state → Permits happening →
      discipline.Allows state happening ∧ Keeps (discipline.observe state happening))
    (hcalls : ∀ procedure state, Keeps state → Permits (.called procedure) →
      discipline.Enters procedure state ∧
        ∀ later result, discipline.Leaves procedure state later result → Keeps later) :
    program.Ensures discipline state fun later _ => Keeps later := by
  induction program generalizing state with
  | done result => exact hstate
  | act action next ih =>
      intro answer _
      obtain ⟨hpermits, hnext⟩ := hwithin answer trivial
      obtain ⟨hallows, hstate⟩ := hsteps state _ hstate hpermits
      exact ⟨hallows, ih answer hnext hstate⟩
  | emit event next ih =>
      intro _
      obtain ⟨hpermits, hnext⟩ := hwithin trivial
      obtain ⟨hallows, hstate⟩ := hsteps state _ hstate hpermits
      exact ⟨hallows, ih hnext hstate⟩
  | choose next ih =>
      intro choice _
      obtain ⟨hpermits, hnext⟩ := hwithin choice trivial
      obtain ⟨hallows, hstate⟩ := hsteps state _ hstate hpermits
      exact ⟨hallows, ih choice hnext hstate⟩
  | ask callback next ih =>
      intro result _
      obtain ⟨hpermits, hnext⟩ := hwithin result trivial
      obtain ⟨hallows, hstate⟩ := hsteps state _ hstate hpermits
      exact ⟨hallows, ih result hnext hstate⟩
  | call procedure next ih =>
      intro _
      obtain ⟨hpermits, _, hnext⟩ := hwithin trivial
      obtain ⟨hallows, hstate⟩ := hsteps state _ hstate hpermits
      obtain ⟨henters, hleaves⟩ := hcalls procedure _ hstate hpermits
      refine ⟨hallows, henters, ?_⟩
      intro later result hlater
      exact ih result (hnext () result trivial) (hleaves later result hlater)

namespace Program.Within

variable {α β : Type} {Permits : Happening → Prop}

theorem mono {program : Program α} {Permits' : Happening → Prop}
    (hwithin : program.Within Permits) (hpermits : ∀ happening, Permits happening →
      Permits' happening) : program.Within Permits' := by
  have hensures : program.Ensures (.within Permits') () fun _ _ => True :=
    hwithin.ensures trivial (fun _ happening _ hpermit => ⟨hpermits happening hpermit, trivial⟩)
      (fun _ _ _ _ => ⟨trivial, fun _ _ _ => trivial⟩)
  exact hensures

theorem andThen {program : Program α} {next : Except Failure α → Program β}
    (hprogram : program.Within Permits) (hnext : ∀ result, (next result).Within Permits) :
    (program.andThen next).Within Permits := by
  rw [Within, ensures_andThen]
  exact Ensures.mono hprogram fun _ result _ => hnext result

theorem bind {program : Program α} {next : α → Program β} (hprogram : program.Within Permits)
    (hnext : ∀ value, (next value).Within Permits) : (program >>= next).Within Permits := by
  apply hprogram.andThen
  intro result
  cases result with
  | ok value => exact hnext value
  | error failure => exact trivial

theorem pure (value : α) : (pure value : Program α).Within Permits :=
  trivial

theorem raise (violation : Violation) : (raise violation : Program α).Within Permits :=
  trivial

theorem fail (failure : Failure) : (fail failure : Program α).Within Permits :=
  trivial

theorem perform {action : Action} (hpermits : ∀ answer, Permits (.acted action answer)) :
    (perform action).Within Permits :=
  fun answer _ => ⟨hpermits answer, trivial⟩

theorem report {event : TraceEvent} (hpermits : Permits (.reported event)) :
    (report event).Within Permits :=
  fun _ => ⟨hpermits, trivial⟩

theorem request {callback : Callback} (hpermits : ∀ result, Permits (.answered callback result)) :
    (request callback).Within Permits :=
  fun result _ => ⟨hpermits result, trivial⟩

theorem chance (hpermits : ∀ choice, Permits (.chose choice)) : chance.Within Permits :=
  fun choice _ => ⟨hpermits choice, trivial⟩

theorem invoke {procedure : Procedure} (hpermits : Permits (.called procedure)) :
    (invoke procedure).Within Permits :=
  fun _ => ⟨hpermits, trivial, fun _ _ _ => trivial⟩

theorem withCleanup {body : Program α} {cleanup : Program Unit} (hbody : body.Within Permits)
    (hcleanup : cleanup.Within Permits) : (body.withCleanup cleanup).Within Permits := by
  refine hbody.andThen fun result => hcleanup.andThen fun outcome => ?_
  cases outcome with
  | ok answer => exact trivial
  | error failure => cases result <;> exact trivial

theorem locked {lock : Lock} {body : Program α} (hbody : body.Within Permits)
    (hacquire : Permits (.acted (.acquire lock) ()))
    (hrelease : Permits (.acted (.release lock) ())) : (locked lock body).Within Permits :=
  bind (perform fun _ => hacquire) fun _ => hbody.withCleanup (perform fun _ => hrelease)

theorem masked {body : Program α} (hbody : body.Within Permits)
    (hmask : ∀ result, Permits (.answered .mask result))
    (hrestore : ∀ previous result, Permits (.answered (.restore previous) result)) :
    (masked body).Within Permits :=
  bind (request hmask) fun _ => hbody.withCleanup (request (hrestore _))

end Program.Within

end CoreEngines
