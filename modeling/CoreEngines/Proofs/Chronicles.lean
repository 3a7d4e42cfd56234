import CoreEngines.Proofs.Tellings

/-!
Chronicles.  Unlike a complete story, a chronicle of a program may stop on the way, and may go
through the rounds of procedures: it says what the program did and what it has left to do.  What an
operation has done is always a chronicle of its program.
-/

namespace CoreEngines

namespace Program

variable {α β : Type}

/-- A program that cannot take another step has come to its end. -/
theorem Ensures.done_of_stuck {σ : Type} {discipline : Discipline σ} {state : σ}
    {program : Program α} {post : σ → Except Failure α → Prop}
    (hensures : program.Ensures discipline state post)
    (hstuck : ∀ happening, discipline.Presumes state happening ∧
      ¬ discipline.Allows state happening) :
    ∃ result, program = done result ∧ post state result := by
  have hnot : ∀ {happening : Happening} {rest : Prop},
      (discipline.Presumes state happening → discipline.Allows state happening ∧ rest) → False :=
    fun hnext => (hstuck _).2 (hnext (hstuck _).1).1
  cases program with
  | done result => exact ⟨result, rfl, hensures⟩
  | act action next =>
      obtain ⟨answer⟩ := action.nonempty_answer
      exact (hnot (hensures answer)).elim
  | emit event next => exact (hnot hensures).elim
  | choose next => exact (hnot (hensures false)).elim
  | ask callback next => exact (hnot (hensures (.error .aborted))).elim
  | call procedure next => exact (hnot hensures).elim

/-- The program can do this, and then it has the rest left. -/
inductive Reaches : Program α → List Happening → Program α → Prop
  | stay (program : Program α) : Reaches program [] program
  | step {program next rest : Program α} {happening : Happening} {story : List Happening}
      (hgoes : program.Goes happening next) (hreaches : Reaches next story rest) :
      Reaches program (happening :: story) rest

/-- A program that has not come to its end can go on. -/
theorem done_or_goes (program : Program α) :
    (∃ result, program = done result) ∨ ∃ happening next, program.Goes happening next := by
  cases program with
  | done result => exact Or.inl ⟨result, rfl⟩
  | act action next =>
      obtain ⟨answer⟩ := action.nonempty_answer
      exact Or.inr ⟨_, _, .act action next answer⟩
  | emit event next => exact Or.inr ⟨_, _, .emit event next⟩
  | choose next => exact Or.inr ⟨_, _, .choose next false⟩
  | ask callback next => exact Or.inr ⟨_, _, .ask callback next (.error .aborted)⟩
  | call procedure next => exact Or.inr ⟨_, _, .call procedure next⟩

variable {program middle rest : Program α} {story early late : List Happening}
  {happening : Happening}

theorem reaches_nil : program.Reaches [] rest ↔ rest = program := by
  constructor
  · intro hreaches
    cases hreaches
    rfl
  · rintro rfl
    exact .stay rest

theorem reaches_cons :
    program.Reaches (happening :: story) rest ↔
      ∃ next, program.Goes happening next ∧ next.Reaches story rest := by
  constructor
  · intro hreaches
    cases hreaches with
    | step hgoes hreaches => exact ⟨_, hgoes, hreaches⟩
  · rintro ⟨next, hgoes, hreaches⟩
    exact .step hgoes hreaches

theorem reaches_append :
    program.Reaches (early ++ late) rest ↔
      ∃ middle, program.Reaches early middle ∧ middle.Reaches late rest := by
  induction early generalizing program with
  | nil => simp [reaches_nil]
  | cons happening early ih =>
      simp only [List.cons_append, reaches_cons, ih]
      constructor
      · rintro ⟨next, hgoes, middle, hearly, hlate⟩
        exact ⟨middle, ⟨next, hgoes, hearly⟩, hlate⟩
      · rintro ⟨middle, ⟨next, hgoes, hearly⟩, hlate⟩
        exact ⟨next, hgoes, middle, hearly, hlate⟩

theorem Reaches.concat (hreaches : program.Reaches story middle)
    (hgoes : middle.Goes happening rest) : program.Reaches (story ++ [happening]) rest :=
  reaches_append.mpr ⟨middle, hreaches, .step hgoes (.stay rest)⟩

theorem reaches_done {result : Except Failure α} :
    (done result).Reaches story rest ↔ story = [] ∧ rest = done result := by
  constructor
  · intro hreaches
    cases hreaches with
    | stay => exact ⟨rfl, rfl⟩
    | step hgoes => cases hgoes
  · rintro ⟨rfl, rfl⟩
    exact .stay _

/-- A chronicle leaves only one thing to be done. -/
theorem Reaches.unique {other : Program α} (hreaches : program.Reaches story rest)
    (hother : program.Reaches story other) : other = rest := by
  induction hreaches with
  | stay program => exact reaches_nil.mp hother
  | step hgoes hreaches ih =>
      obtain ⟨next, hnext, hother⟩ := reaches_cons.mp hother
      have hsame : ∀ {program next other : Program α} {happening : Happening},
          program.Goes happening next → program.Goes happening other → other = next := by
        intro program next other happening hnext hother
        cases hnext <;> cases hother <;> rfl
      rw [hsame hgoes hnext] at hother
      exact ih hother

theorem Reaches.isStep (hreaches : program.Reaches story rest) :
    ∀ happening ∈ story, happening.isStep := by
  induction hreaches with
  | stay program => simp
  | step hgoes hreaches ih => exact List.forall_mem_cons.mpr ⟨hgoes.isStep, ih⟩

/-- What a sequence of two programs has done is the work of the first alone, or all of it and some
work of the second. -/
theorem reaches_andThen {next : Except Failure α → Program β} {rest : Program β}
    (hreaches : (program.andThen next).Reaches story rest) :
    (∃ left, program.Reaches story left ∧ rest = left.andThen next) ∨
      ∃ early result late, program.Reaches early (done result) ∧
        (next result).Reaches late rest ∧ story = early ++ late := by
  induction story generalizing program with
  | nil => exact Or.inl ⟨program, .stay program, reaches_nil.mp hreaches⟩
  | cons happening story ih =>
      obtain ⟨after, hgoes, hafter⟩ := reaches_cons.mp hreaches
      -- Unless the first program has come to its end, the step is one of its own.
      have hown : (∃ result, program = done result) ∨
          ∃ left, program.Goes happening left ∧ after = left.andThen next := by
        cases program with
        | done result => exact Or.inl ⟨result, rfl⟩
        | act action rest => cases hgoes; exact Or.inr ⟨_, .act .., rfl⟩
        | emit event rest => cases hgoes; exact Or.inr ⟨_, .emit .., rfl⟩
        | choose rest => cases hgoes; exact Or.inr ⟨_, .choose .., rfl⟩
        | ask callback rest => cases hgoes; exact Or.inr ⟨_, .ask .., rfl⟩
        | call procedure rest =>
            cases hgoes
            exact Or.inr ⟨_, .call procedure rest, (andThen_assoc _ _ _).symm⟩
      rcases hown with ⟨result, rfl⟩ | ⟨left, hleft, rfl⟩
      · exact Or.inr ⟨[], result, _, .stay _, hreaches, rfl⟩
      · rcases ih hafter with ⟨last, hlast, rfl⟩ | ⟨early, result, late, hearly, hlate, rfl⟩
        · exact Or.inl ⟨last, .step hleft hlast, rfl⟩
        · exact Or.inr ⟨_, result, late, .step hleft hearly, hlate, rfl⟩

/-- The same, where a failure of the first program is the end. -/
theorem reaches_bind {next : α → Program β} {rest : Program β}
    (hreaches : (program >>= next).Reaches story rest) :
    (∃ left, program.Reaches story left ∧ rest = left >>= next) ∨
      ∃ early value late, program.Reaches early (done (.ok value)) ∧
        (next value).Reaches late rest ∧ story = early ++ late := by
  rcases reaches_andThen hreaches with hleft | ⟨early, result, late, hearly, hlate, rfl⟩
  · exact Or.inl hleft
  · cases result with
    | ok value => exact Or.inr ⟨early, value, late, hearly, hlate, rfl⟩
    | error failure =>
        obtain ⟨rfl, rfl⟩ := reaches_done.mp hlate
        rw [List.append_nil]
        exact Or.inl ⟨_, hearly, rfl⟩

/-- Sequences can be bracketed as one likes. -/
theorem bind_bind {γ : Type} (program : Program α) (first : α → Program β)
    (second : β → Program γ) :
    (program >>= first) >>= second = program >>= fun value => first value >>= second := by
  change (program.andThen _).andThen _ = program.andThen _
  rw [andThen_assoc]
  congr 1
  funext result
  cases result <;> rfl

theorem reaches_perform_bind {action : Action} {next : action.Answer → Program β}
    {rest : Program β}
    (hreaches : (perform action >>= next).Reaches (happening :: story) rest) :
    ∃ answer, happening = .acted action answer ∧ (next answer).Reaches story rest := by
  obtain ⟨_, hgoes, hreaches⟩ := reaches_cons.mp hreaches
  cases hgoes with
  | act _ _ answer => exact ⟨answer, rfl, hreaches⟩

theorem reaches_report_bind {event : TraceEvent} {next : Unit → Program β} {rest : Program β}
    (hreaches : (report event >>= next).Reaches (happening :: story) rest) :
    happening = .reported event ∧ (next ()).Reaches story rest := by
  obtain ⟨_, hgoes, hreaches⟩ := reaches_cons.mp hreaches
  cases hgoes with
  | emit => exact ⟨rfl, hreaches⟩

theorem reaches_chance_bind {next : Bool → Program β} {rest : Program β}
    (hreaches : (chance >>= next).Reaches (happening :: story) rest) :
    ∃ choice, happening = .chose choice ∧ (next choice).Reaches story rest := by
  obtain ⟨_, hgoes, hreaches⟩ := reaches_cons.mp hreaches
  cases hgoes with
  | choose _ choice => exact ⟨choice, rfl, hreaches⟩

/-- A callback that fails is the end of what follows it. -/
theorem reaches_request_bind {callback : Callback} {next : callback.Answer → Program β}
    {rest : Program β}
    (hreaches : (request callback >>= next).Reaches (happening :: story) rest) :
    (∃ value, happening = .answered callback (.ok value) ∧ (next value).Reaches story rest) ∨
      ∃ failure, happening = .answered callback (.error failure) ∧ story = [] ∧
        rest = done (.error failure) := by
  obtain ⟨_, hgoes, hreaches⟩ := reaches_cons.mp hreaches
  cases hgoes with
  | ask _ _ result =>
      cases result with
      | ok value => exact Or.inl ⟨value, rfl, hreaches⟩
      | error failure =>
          obtain ⟨rfl, rfl⟩ := reaches_done.mp hreaches
          exact Or.inr ⟨failure, rfl, rfl, rfl⟩

theorem reaches_invoke_bind {procedure : Procedure} {next : procedure.Answer → Program β}
    {rest : Program β}
    (hreaches : (invoke procedure >>= next).Reaches (happening :: story) rest) :
    happening = .called procedure ∧ (procedure.code >>= next).Reaches story rest := by
  obtain ⟨_, hgoes, hreaches⟩ := reaches_cons.mp hreaches
  cases hgoes with
  | call => exact ⟨rfl, hreaches⟩

/-- A sequence that has come to its end has gone through its first part, or has failed in it. -/
theorem reaches_bind_done {next : α → Program β} {result : Except Failure β}
    (hreaches : (program >>= next).Reaches story (done result)) :
    (∃ early value late, program.Reaches early (done (.ok value)) ∧
      (next value).Reaches late (done result) ∧ story = early ++ late) ∨
      ∃ failure, program.Reaches story (done (.error failure)) ∧ result = .error failure := by
  rcases reaches_bind hreaches with ⟨left, hleft, hdone⟩ | hwhole
  · cases left with
    | done outcome =>
        cases outcome with
        | ok value =>
            have hnext : next value = done result := hdone.symm
            exact Or.inl ⟨story, value, [], hleft, hnext ▸ .stay _, (List.append_nil _).symm⟩
        | error failure =>
            cases hdone
            exact Or.inr ⟨failure, hleft, rfl⟩
    | _ => cases hdone
  · exact Or.inl hwhole

theorem reaches_perform_bind_done {action : Action} {next : action.Answer → Program β}
    {result : Except Failure β} (hreaches : (perform action >>= next).Reaches story (done result)) :
    ∃ answer late, story = .acted action answer :: late ∧
      (next answer).Reaches late (done result) := by
  cases story with
  | nil => cases reaches_nil.mp hreaches
  | cons happening late =>
      obtain ⟨answer, rfl, hlate⟩ := reaches_perform_bind hreaches
      exact ⟨answer, late, rfl, hlate⟩

theorem reaches_report_bind_done {event : TraceEvent} {next : Unit → Program β}
    {result : Except Failure β} (hreaches : (report event >>= next).Reaches story (done result)) :
    ∃ late, story = .reported event :: late ∧ (next ()).Reaches late (done result) := by
  cases story with
  | nil => cases reaches_nil.mp hreaches
  | cons happening late =>
      obtain ⟨rfl, hlate⟩ := reaches_report_bind hreaches
      exact ⟨late, rfl, hlate⟩

theorem reaches_request_bind_done {callback : Callback} {next : callback.Answer → Program β}
    {result : Except Failure β}
    (hreaches : (request callback >>= next).Reaches story (done result)) :
    (∃ value late, story = .answered callback (.ok value) :: late ∧
      (next value).Reaches late (done result)) ∨
      ∃ failure, story = [.answered callback (.error failure)] ∧ result = .error failure := by
  cases story with
  | nil => cases reaches_nil.mp hreaches
  | cons happening late =>
      rcases reaches_request_bind hreaches with ⟨value, rfl, hlate⟩ | ⟨failure, rfl, rfl, hdone⟩
      · exact Or.inl ⟨value, late, rfl, hlate⟩
      · cases hdone
        exact Or.inr ⟨failure, rfl, rfl⟩

/-- A program that calls no procedure has a chronicle of its own when it has told a story. -/
theorem Straight.reaches (hstraight : program.Straight) (hreaches : program.Reaches story rest) :
    rest.Straight ∧ ∀ late result, rest.Tells late result →
      program.Tells (story ++ late) result := by
  induction hreaches with
  | stay program => exact ⟨hstraight, fun late result htells => htells⟩
  | step hgoes hreaches ih =>
      cases hgoes with
      | act action next answer =>
          obtain ⟨hrest, htells⟩ := ih (hstraight answer trivial).2
          exact ⟨hrest, fun late result hlate => ⟨answer, _, rfl, htells late result hlate⟩⟩
      | emit event next =>
          obtain ⟨hrest, htells⟩ := ih (hstraight trivial).2
          exact ⟨hrest, fun late result hlate => ⟨_, rfl, htells late result hlate⟩⟩
      | choose next choice =>
          obtain ⟨hrest, htells⟩ := ih (hstraight choice trivial).2
          exact ⟨hrest, fun late result hlate => ⟨choice, _, rfl, htells late result hlate⟩⟩
      | ask callback next answer =>
          obtain ⟨hrest, htells⟩ := ih (hstraight answer trivial).2
          exact ⟨hrest, fun late result hlate => ⟨answer, _, rfl, htells late result hlate⟩⟩
      | call procedure next => exact absurd rfl ((hstraight trivial).1 procedure)

theorem Straight.tells {result : Except Failure α} (hstraight : program.Straight)
    (hreaches : program.Reaches story (done result)) : program.Tells story result := by
  simpa using (hstraight.reaches hreaches).2 [] result ⟨rfl, rfl⟩

/-- A program that keeps to a discipline has kept to it in all its chronicles, and goes on so. -/
theorem Ensures.of_reaches {σ : Type} {discipline : Discipline σ} {state : σ}
    {post : σ → Except Failure α → Prop} (hrounds : discipline.Rounds)
    (hpresumes : ∀ state happening, discipline.Presumes state happening)
    (hensures : program.Ensures discipline state post) (hreaches : program.Reaches story rest) :
    discipline.Keeps state story ∧
      rest.Ensures discipline (story.foldl discipline.observe state) post := by
  induction hreaches generalizing state with
  | stay program => exact ⟨trivial, hensures⟩
  | step hgoes hreaches ih =>
      obtain ⟨hallows, hnext⟩ := hensures.goes hrounds hgoes (hpresumes _ _)
      exact (ih hnext).imp_left fun hkeeps => ⟨hallows, hkeeps⟩

/-- What a program does is permitted, if its steps are and the rounds that it calls. -/
theorem Within.of_reaches {Permits : Happening → Prop} (hwithin : program.Within Permits)
    (hcode : ∀ procedure, Permits (.called procedure) → procedure.code.Within Permits)
    (hreaches : program.Reaches story rest) :
    rest.Within Permits ∧ ∀ happening ∈ story, Permits happening := by
  induction hreaches with
  | stay program => exact ⟨hwithin, by simp⟩
  | step hgoes hreaches ih =>
      suffices hstep : Permits _ ∧ _ from
        (ih hstep.2).imp_right fun hstory => List.forall_mem_cons.mpr ⟨hstep.1, hstory⟩
      cases hgoes with
      | act action next answer => exact hwithin answer trivial
      | emit event next => exact hwithin trivial
      | choose next choice => exact hwithin choice trivial
      | ask callback next answer => exact hwithin answer trivial
      | call procedure next =>
          obtain ⟨hpermits, _, hnext⟩ := hwithin trivial
          exact ⟨hpermits, (hcode procedure hpermits).andThen fun result =>
            hnext () result trivial⟩

end Program

/-- What is left of an operation after one of its programs has ended is what came after it. -/
def Teller.Passes {α : Type} (operation : Operation) (made : List Happening) (program : Program α)
    (later : Teller) (result : Except Failure α) : Prop :=
  later.operation = operation ∧ ∀ next,
    operation.program.Reaches made (program.andThen next) →
      operation.program.Reaches later.made (next result)

/-- The discipline of chronicles.  A procedure is entered with its rounds to be done, and left with
what comes after them. -/
def chronicling : Discipline Teller where
  start operation := ⟨operation, []⟩
  observe teller happening := { teller with made := teller.made ++ [happening] }
  Allows teller happening := ∃ rest,
    teller.operation.program.Reaches (teller.made ++ [happening]) rest
  Presumes _ _ := True
  Enters procedure teller := ∃ next,
    teller.operation.program.Reaches teller.made (procedure.code.andThen next)
  Leaves procedure teller later result :=
    Teller.Passes teller.operation teller.made procedure.code later result
  Returns operation teller result := operation.program.Reaches teller.made (.done result)

section
variable {α : Type} {operation : Operation} {made : List Happening}

/-- A step of a program that an operation has come to is a step of the operation. -/
theorem chronicling_step {program after : Program α} {happening : Happening}
    (hgoes : ∀ next : Except Failure α → Program operation.Reply,
      (program.andThen next).Goes happening (after.andThen next))
    (hreached : ∃ next, operation.program.Reaches made (program.andThen next))
    (hafter : (∃ next, operation.program.Reaches (made ++ [happening]) (after.andThen next)) →
      after.Ensures chronicling ⟨operation, made ++ [happening]⟩
        (Teller.Passes operation (made ++ [happening]) after)) :
    chronicling.Allows ⟨operation, made⟩ happening ∧
      after.Ensures chronicling ⟨operation, made ++ [happening]⟩
        (Teller.Passes operation made program) := by
  obtain ⟨next, hreaches⟩ := hreached
  have hstep := hreaches.concat (hgoes next)
  refine ⟨⟨_, hstep⟩, (hafter ⟨next, hstep⟩).mono ?_⟩
  rintro later result ⟨hsame, hpasses⟩
  exact ⟨hsame, fun next hreaches => hpasses next (hreaches.concat (hgoes next))⟩

/-- Every program that an operation has come to leads it on along a chronicle. -/
theorem chronicling_ensures {program : Program α}
    (hreached : ∃ next, operation.program.Reaches made (program.andThen next)) :
    program.Ensures chronicling ⟨operation, made⟩ (Teller.Passes operation made program) := by
  induction program generalizing made with
  | done result => exact ⟨rfl, fun next hreaches => hreaches⟩
  | act action rest ih =>
      exact fun answer _ => chronicling_step (fun next => .act action _ answer) hreached (ih answer)
  | emit event rest ih =>
      exact fun _ => chronicling_step (fun next => .emit event _) hreached ih
  | choose rest ih =>
      exact fun choice _ => chronicling_step (fun next => .choose _ choice) hreached (ih choice)
  | ask callback rest ih =>
      exact fun answer _ =>
        chronicling_step (fun next => .ask callback _ answer) hreached (ih answer)
  | call procedure rest ih =>
      intro _
      have hstep : ∀ next,
          operation.program.Reaches made ((Program.call procedure rest).andThen next) →
            operation.program.Reaches (made ++ [.called procedure])
              (procedure.code.andThen fun result => (rest result).andThen next) :=
        fun next hreaches => hreaches.concat (.call procedure _)
      obtain ⟨next, hreaches⟩ := hreached
      refine ⟨⟨_, hstep next hreaches⟩, ⟨_, hstep next hreaches⟩, ?_⟩
      rintro ⟨_, later⟩ result ⟨rfl, hleaves⟩
      refine (ih result ⟨next, hleaves _ (hstep next hreaches)⟩).mono ?_
      rintro last outcome ⟨hsame, hpasses⟩
      exact ⟨hsame, fun next hreaches => hpasses next (hleaves _ (hstep next hreaches))⟩

theorem chronicling_obeyed : chronicling.Obeyed where
  operations operation := by
    have hstart : operation.program.Reaches [] (operation.program.andThen .done) := by
      rw [Program.andThen_done]
      exact .stay _
    refine (chronicling_ensures ⟨_, hstart⟩).mono ?_
    exact fun later result hlater => hlater.2 _ hstart
  procedures procedure teller henters := chronicling_ensures henters

theorem chronicling_upholds {start : World} : chronicling.Upholds start fun _ _ _ => True where
  idle := trivial
  start _ _ _ _ _ := trivial
  step _ _ _ _ _ _ := ⟨trivial, fun _ => trivial⟩
  finish _ _ _ _ _ _ _ := trivial

theorem chronicling_foldl (teller : Teller) (steps : List Happening) :
    steps.foldl chronicling.observe teller = ⟨teller.operation, teller.made ++ steps⟩ := by
  induction steps generalizing teller with
  | nil => simp
  | cons happening steps ih =>
      rw [List.foldl_cons, ih]
      simp [chronicling]

/-- Whatever an operation has done in keeping with the discipline is a chronicle. -/
theorem reaches_of_keeps {steps : List Happening}
    (hkeeps : chronicling.Keeps ⟨operation, []⟩ steps) :
    ∃ rest, operation.program.Reaches steps rest := by
  rcases List.eq_nil_or_concat steps with rfl | ⟨steps, last, rfl⟩
  · exact ⟨_, .stay _⟩
  · rw [List.concat_eq_append, Discipline.keeps_concat, chronicling_foldl] at hkeeps
    obtain ⟨rest, hreaches⟩ := hkeeps.2
    exact ⟨rest, by simpa using hreaches⟩

end

/-- What an operation has done is a chronicle of its program, and when it has returned, one to the
end. -/
theorem Runs.reaches {start world : World} {history : History} {flows : Nat → Flow} {number : Nat}
    {operation : Operation} {story : List Happening} (hrun : Runs start history world flows)
    (hown : (Journal.ofHistory history).own number = .started operation :: story) :
    (∃ rest, operation.program.Reaches story rest) ∨
      ∃ steps result, story = steps ++ [Happening.finished operation result] ∧
        operation.program.Reaches steps (.done result) := by
  have haccount := (hrun.account chronicling_obeyed chronicling_upholds).1
  obtain ⟨other, steps, _, hkeeps, hown' | ⟨result, hown', hreturns⟩⟩ :=
    haccount.story (Journal.lt_started_of_own haccount.sound hown)
  · cases hown.symm.trans hown'
    exact Or.inl (reaches_of_keeps hkeeps)
  · cases hown.symm.trans hown'
    rw [Discipline.after, chronicling_foldl] at hreturns
    exact Or.inr ⟨steps, result, rfl, hreturns⟩

/-- An operation has made the steps of a chronicle, and has returned if there is nothing left to
do. -/
theorem Runs.reaches_last {start world : World} {history : History} {flows : Nat → Flow}
    {number : Nat} {operation : Operation} {story : List Happening}
    (hrun : Runs start history world flows)
    (hown : (Journal.ofHistory history).own number = .started operation :: story) :
    ∃ (steps : List Happening) (rest : Program operation.Reply) (last : List Happening),
      story = steps ++ last ∧ operation.program.Reaches steps rest ∧
        (last = [] ∨ ∃ result, last = [.finished operation result] ∧ rest = .done result) := by
  rcases hrun.reaches hown with ⟨rest, hreaches⟩ | ⟨steps, result, rfl, hreaches⟩
  · exact ⟨story, rest, [], (List.append_nil _).symm, hreaches, Or.inl rfl⟩
  · exact ⟨steps, _, _, rfl, hreaches, Or.inr ⟨result, rfl, rfl⟩⟩

theorem Program.Reaches.rest_of_finished {operation : Operation} {steps last : List Happening}
    {rest : Program operation.Reply} {result : Except Failure operation.Reply}
    (hreaches : operation.program.Reaches steps rest)
    (hlast : last = [] ∨ ∃ result, last = [.finished operation result] ∧ rest = .done result)
    (hfinished : .finished operation result ∈ steps ++ last) : rest = .done result := by
  rcases List.mem_append.mp hfinished with hmem | hmem
  · cases hreaches.isStep _ hmem
  · obtain rfl | ⟨other, rfl, rfl⟩ := hlast
    · cases hmem
    · cases List.mem_singleton.mp hmem
      rfl

/-- The steps of an operation are those that its program has come through. -/
theorem Runs.reaches_steps {start world : World} {history : History} {flows : Nat → Flow}
    {number : Nat} {operation : Operation} {story : List Happening}
    (hrun : Runs start history world flows)
    (hown : (Journal.ofHistory history).own number = .started operation :: story) :
    ∃ steps rest, operation.program.Reaches steps rest ∧ steps <+: story ∧
      ∀ happening ∈ story, happening.isStep → happening ∈ steps := by
  rcases hrun.reaches hown with ⟨rest, hreaches⟩ | ⟨steps, result, rfl, hreaches⟩
  · exact ⟨story, rest, hreaches, List.prefix_rfl, fun _ hmem _ => hmem⟩
  · refine ⟨steps, _, hreaches, List.prefix_append _ _, fun happening hmem hstep => ?_⟩
    refine (List.mem_append.mp hmem).resolve_right fun hlast => ?_
    rw [List.mem_singleton.mp hlast] at hstep
    cases hstep

/-- An operation has come to each of its steps. -/
theorem Runs.reaches_step {start world : World} {history : History} {flows : Nat → Flow}
    {number : Nat} {operation : Operation} {made after : List Happening} {happening : Happening}
    (hrun : Runs start history world flows)
    (hown : (Journal.ofHistory history).own number =
      .started operation :: (made ++ happening :: after)) (hstep : happening.isStep) :
    ∃ rest, operation.program.Reaches (made ++ [happening]) rest := by
  have hstory : made ++ happening :: after = (made ++ [happening]) ++ after := by simp
  obtain ⟨rest, more, hreaches, hmore⟩ : ∃ rest more,
      operation.program.Reaches ((made ++ [happening]) ++ more) rest ∧ more <+: after := by
    rcases hrun.reaches hown with ⟨rest, hreaches⟩ | ⟨steps, result, hsteps, hreaches⟩
    · exact ⟨rest, after, hstory ▸ hreaches, List.prefix_rfl⟩
    · rcases List.eq_nil_or_concat after with rfl | ⟨more, last, rfl⟩
      · obtain ⟨_, hlast⟩ := List.append_inj' hsteps rfl
        cases hlast
        cases hstep
      · rw [hstory, List.concat_eq_append, ← List.append_assoc] at hsteps
        obtain ⟨rfl, _⟩ := List.append_inj' hsteps rfl
        exact ⟨_, more, hreaches, by simp⟩
  obtain ⟨middle, hmiddle, _⟩ := Program.reaches_append.mp hreaches
  exact ⟨middle, hmiddle⟩

/-- An operation that has returned has come to its end by then. -/
theorem Runs.reaches_of_finished {start world : World} {history : History} {flows : Nat → Flow}
    {number : Nat} {operation : Operation} {story : List Happening}
    {result : Except Failure operation.Reply} (hrun : Runs start history world flows)
    (hown : (Journal.ofHistory history).own number = .started operation :: story)
    (hfinished : .finished operation result ∈ story) :
    ∃ steps, story = steps ++ [.finished operation result] ∧
      operation.program.Reaches steps (.done result) := by
  rcases hrun.reaches hown with ⟨rest, hreaches⟩ | ⟨steps, other, rfl, hreaches⟩
  · cases hreaches.isStep _ hfinished
  · rcases List.mem_append.mp hfinished with hmem | hlast
    · cases hreaches.isStep _ hmem
    · cases List.mem_singleton.mp hlast
      exact ⟨steps, rfl, hreaches⟩

/-- An operation whose chronicle does not go on has come to its end. -/
theorem Runs.done_of_spent {start world : World} {history : History} {flows : Nat → Flow}
    {index number : Nat} {numbers : List Nat} {operation : Operation}
    {rest : Program operation.Reply} {below : Flow} {story : List Happening}
    (hrun : Runs start history world flows) (hflow : flows index = ⟨operation, rest⟩ :: below)
    (hrunning : (Journal.ofHistory history).running index = number :: numbers)
    (hown : (Journal.ofHistory history).own number = .started operation :: story)
    (hspent : ∀ happening rest, ¬ operation.program.Reaches (story ++ [happening]) rest) :
    ∃ result, rest = .done result ∧ operation.program.Reaches story (.done result) := by
  obtain ⟨_, _, hnumbers, ⟨steps, hown', _, _, hensures⟩, _⟩ :=
    (hrun.account chronicling_obeyed chronicling_upholds).1.top hflow
  obtain ⟨rfl, rfl⟩ := List.cons.inj (hrunning.symm.trans hnumbers)
  cases hown.symm.trans hown'
  rw [Discipline.after, chronicling_foldl] at hensures
  apply hensures.done_of_stuck
  exact fun happening => ⟨trivial, not_exists.mpr (hspent happening)⟩

/-- An operation in progress whose chronicle does not go on is about to return, in its flow. -/
theorem Runs.done_of_running {start world : World} {history : History} {flows : Nat → Flow}
    {index number : Nat} {operation : Operation} {story : List Happening}
    (hrun : Runs start history world flows)
    (hrunning : number ∈ (Journal.ofHistory history).running index)
    (hown : (Journal.ofHistory history).own number = .started operation :: story)
    (hspent : ∀ happening rest, ¬ operation.program.Reaches (story ++ [happening]) rest) :
    ∃ result, ⟨operation, .done result⟩ ∈ flows index ∧
      operation.program.Reaches story (.done result) := by
  have haccount := (hrun.account chronicling_obeyed chronicling_upholds).1
  obtain ⟨⟨_, rest⟩, hzip, steps, hown', _, _, hensures⟩ :=
    exists_of_mem_forall₂ (haccount.running index) hrunning
  cases hown.symm.trans hown'
  rw [Discipline.after, chronicling_foldl] at hensures
  obtain ⟨result, hdone, hreaches⟩ := hensures.done_of_stuck fun happening =>
    ⟨trivial, not_exists.mpr (hspent happening)⟩
  replace hdone : rest = .done result := hdone
  exact ⟨result, hdone ▸ (List.of_mem_zip hzip).2, hreaches⟩

/-- An operation that has come to its end is about to return, wherever it runs. -/
theorem Runs.ended {start world : World} {history : History} {flows : Nat → Flow}
    {number : Nat} {operation : Operation} {story : List Happening}
    {result : Except Failure operation.Reply} (hrun : Runs start history world flows)
    (hown : (Journal.ofHistory history).own number = .started operation :: story)
    (hreaches : operation.program.Reaches story (.done result)) :
    ∃ index, ⟨operation, .done result⟩ ∈ flows index := by
  have haccount := (hrun.account chronicling_obeyed chronicling_upholds).1
  rcases haccount.closed number (Journal.lt_started_of_own haccount.sound hown) with
    ⟨index, hrunning⟩ | ⟨other, steps, _, hclosed, _⟩
  · have hspent : ∀ happening rest,
        ¬ operation.program.Reaches (story ++ [happening]) rest := by
      intro happening rest hlonger
      obtain ⟨middle, hmiddle, hmore⟩ := Program.reaches_append.mp hlonger
      rw [hreaches.unique hmiddle] at hmore
      cases (Program.reaches_done.mp hmore).1
    obtain ⟨other, hmem, hother⟩ := hrun.done_of_running hrunning hown hspent
    cases hreaches.unique hother
    exact ⟨index, hmem⟩
  · cases hown.symm.trans hclosed
    cases hreaches.isStep _ (List.mem_append_right _ (List.mem_singleton_self _))

/-- The last step of a run was done by the innermost operation of its flow. -/
theorem Runs.last_step {start world : World} {history : History} {flows : Nat → Flow}
    {index : Nat} {happening : Happening}
    (hrun : Runs start (history ++ [(index, happening)]) world flows) (hstep : happening.isStep) :
    ∃ (number : Nat) (numbers : List Nat) (operation : Operation) (made : List Happening)
      (rest : Program operation.Reply) (below : Flow),
      (Journal.ofHistory history).running index = number :: numbers ∧
        (Journal.ofHistory (history ++ [(index, happening)])).running index = number :: numbers ∧
          (Journal.ofHistory history).own number = .started operation :: made ∧
            (Journal.ofHistory (history ++ [(index, happening)])).own number =
                .started operation :: (made ++ [happening]) ∧
              flows index = ⟨operation, rest⟩ :: below := by
  generalize hhistory : history ++ [(index, happening)] = longer at hrun
  cases hrun with
  | idle => simp at hhistory
  | @move old world later flows place happened flow hpast hmove =>
      obtain ⟨rfl, hlast⟩ := List.append_inj' hhistory rfl
      cases hlast
      rw [Function.update_self, Journal.ofHistory_concat]
      generalize hold : flows index = old at hmove
      cases hmove with
      | start operation => cases hstep
      | finish operation result below => cases hstep
      | @step operation _ rest _ _ below hgoes hafter =>
          obtain ⟨number, numbers, hrunning, ⟨made, hown, _⟩, _⟩ := hpast.coursing.top hold
          refine ⟨number, numbers, operation, made, rest, below, hrunning, ?_, hown, ?_, rfl⟩
          · rw [Journal.running_add_step hgoes.isStep hrunning, hrunning]
          · rw [Journal.own_add_step hgoes.isStep hrunning, Function.update_self, hown]
            rfl

namespace Machine

variable {machine : Machine} {history : History} {start : World} {number : Nat}
  {operation : Operation} {rest : Program operation.Reply}

/-- Whatever an operation in progress does next continues its chronicle. -/
theorem InProgress.chronicle (hprogress : machine.InProgress history number ⟨operation, rest⟩)
    (hrun : Runs start history machine.world machine.flow) :
    ∃ made, (Journal.ofHistory history).own number = .started operation :: made ∧
      (∀ {happening next}, rest.Goes happening next →
        ∃ last, operation.program.Reaches (made ++ [happening]) last) ∧
      ∀ {result}, rest = .done result → operation.program.Reaches made (.done result) := by
  obtain ⟨made, hown, _, _, hensures⟩ :=
    hprogress.accounts (hrun.account chronicling_obeyed chronicling_upholds).1
  rw [Discipline.after, chronicling_foldl] at hensures
  refine ⟨made, hown, fun hgoes => ?_, ?_⟩
  · exact (hensures.goes chronicling_obeyed.procedures hgoes trivial).1
  · rintro result rfl
    exact hensures

theorem flow_of_flows {index : Nat} {flow : Flow} (machine : Machine)
    (hflow : machine.flows[index]? = some flow) : machine.flow index = flow := by
  simp [Machine.flow, hflow]

theorem inProgress_of_flow {index : Nat} {activation : Activation} {below : Flow}
    (hrun : Runs start history machine.world machine.flow)
    (hflow : machine.flow index = activation :: below) :
    ∃ number, machine.InProgress history number activation := by
  obtain ⟨number, numbers, hrunning, _⟩ := hrun.coursing.top hflow
  exact ⟨number, index, by simp [hrunning, hflow]⟩

/-- What has been started and has not returned is in progress. -/
theorem inProgress_of_steps {story : List Happening}
    (hrun : Runs start history machine.world machine.flow)
    (hown : (Journal.ofHistory history).own number = .started operation :: story)
    (hsteps : ∀ happening ∈ story, happening.isStep) :
    ∃ rest, machine.InProgress history number ⟨operation, rest⟩ := by
  obtain ⟨index, hrunning⟩ := hrun.running_of_steps hown hsteps
  obtain ⟨⟨other, rest⟩, hzip, _⟩ := exists_of_mem_forall₂ (hrun.coursing.running index) hrunning
  have hprogress : machine.InProgress history number ⟨other, rest⟩ := ⟨index, hzip⟩
  obtain ⟨_, hother, _⟩ := hprogress.accounts hrun.coursing
  cases hown.symm.trans hother
  exact ⟨rest, hprogress⟩

/-- A flow can go on unless its innermost operation has come to an action that has to wait. -/
theorem move_or_waits {index : Nat} {below : Flow}
    (hflow : machine.flows[index]? = some (⟨operation, rest⟩ :: below)) :
    (∃ move next happening, machine.move? index move = some (next, happening)) ∨
      ∃ action next, rest = .act action next ∧ machine.world.perform? action = none := by
  have hmoves : ∀ move, (Flow.move? machine.world (⟨operation, rest⟩ :: below) move).isSome →
      ∃ move next happening, machine.move? index move = some (next, happening) := by
    intro move hsome
    obtain ⟨⟨world, flow, happening⟩, hmove⟩ := Option.isSome_iff_exists.mp hsome
    refine ⟨move, ⟨world, machine.flows.setIfInBounds index flow⟩, happening, ?_⟩
    rw [Machine.move?, hflow, Option.bind_some, hmove, Option.map_some]
  cases rest with
  | done result => exact Or.inl (hmoves .finish rfl)
  | emit event next => exact Or.inl (hmoves .step rfl)
  | call procedure next => exact Or.inl (hmoves .step rfl)
  | choose next => exact Or.inl (hmoves (.choose false) rfl)
  | ask callback next =>
      exact Or.inl (hmoves (.answer callback (.error .aborted)) (by simp [Flow.move?]))
  | act action next =>
      cases hperform : machine.world.perform? action with
      | none => exact Or.inr ⟨action, next, rfl, hperform⟩
      | some done => exact Or.inl (hmoves .step (by simp [Flow.move?, Program.advance?, hperform]))

end Machine

end CoreEngines
