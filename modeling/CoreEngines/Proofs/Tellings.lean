import CoreEngines.Proofs.Actions
import CoreEngines.Proofs.Moments

/-!
Complete stories.  A program that calls no procedure has a story from beginning to end for every
way through it.  An operation with such a program is always at the beginning of one of its
stories, and has told one to the end when it returns.
-/

namespace CoreEngines

namespace Program

variable {α β : Type}

/-- The program can do this from its beginning to its end, and end so.  Nothing is told of programs
that call procedures. -/
def Tells (program : Program α) (story : List Happening) (result : Except Failure α) : Prop :=
  match program with
  | .done outcome => story = [] ∧ result = outcome
  | .act action next => ∃ answer rest, story = .acted action answer :: rest ∧
      (next answer).Tells rest result
  | .emit event next => ∃ rest, story = .reported event :: rest ∧ next.Tells rest result
  | .choose next => ∃ choice rest, story = .chose choice :: rest ∧
      (next choice).Tells rest result
  | .ask callback next => ∃ answer rest, story = .answered callback answer :: rest ∧
      (next answer).Tells rest result
  | .call _ _ => False

/-- What is told in sequence after a first step is told after it by the first of the two programs,
and then by the second. -/
theorem tells_step {ι : Type} {first : ι → Happening} {rest : ι → Program α}
    {next : Except Failure α → Program β} {result : Except Failure β}
    (hrest : ∀ value story, ((rest value).andThen next).Tells story result ↔
      ∃ early middle late, (rest value).Tells early middle ∧ (next middle).Tells late result ∧
        story = early ++ late) (story : List Happening) :
    (∃ value later, story = first value :: later ∧
        ((rest value).andThen next).Tells later result) ↔
      ∃ early middle late, (∃ value later, early = first value :: later ∧
          (rest value).Tells later middle) ∧ (next middle).Tells late result ∧
        story = early ++ late := by
  constructor
  · rintro ⟨value, later, rfl, htells⟩
    obtain ⟨early, middle, late, hearly, hlate, rfl⟩ := (hrest value later).mp htells
    exact ⟨_ :: early, middle, late, ⟨value, early, rfl, hearly⟩, hlate, rfl⟩
  · rintro ⟨_, middle, late, ⟨value, early, rfl, hearly⟩, hlate, rfl⟩
    exact ⟨value, early ++ late, rfl, (hrest value _).mpr ⟨early, middle, late, hearly, hlate, rfl⟩⟩

theorem tells_andThen (program : Program α) (next : Except Failure α → Program β)
    (story : List Happening) (result : Except Failure β) :
    (program.andThen next).Tells story result ↔
      ∃ early middle late, program.Tells early middle ∧ (next middle).Tells late result ∧
        story = early ++ late := by
  induction program generalizing story with
  | done outcome =>
      constructor
      · exact fun htells => ⟨[], outcome, story, ⟨rfl, rfl⟩, htells, rfl⟩
      · rintro ⟨_, _, _, ⟨rfl, rfl⟩, hnext, rfl⟩
        exact hnext
  | act action rest ih => exact tells_step ih story
  | emit event rest ih =>
      have hstep := @tells_step α β Unit (fun _ => .reported event) (fun _ => rest) next result
        (fun _ => ih) story
      simpa only [exists_const, andThen, Tells] using hstep
  | choose rest ih => exact tells_step ih story
  | ask callback rest ih => exact tells_step ih story
  | call procedure rest ih => simp [andThen, Tells]

@[simp]
theorem tells_done (outcome : Except Failure α) (story : List Happening)
    (result : Except Failure α) :
    (done outcome).Tells story result ↔ story = [] ∧ result = outcome :=
  Iff.rfl

@[simp]
theorem tells_pure (value : α) (story : List Happening) (result : Except Failure α) :
    (pure value : Program α).Tells story result ↔ story = [] ∧ result = .ok value :=
  Iff.rfl

@[simp]
theorem tells_raise (violation : Violation) (story : List Happening)
    (result : Except Failure α) :
    (raise violation : Program α).Tells story result ↔
      story = [] ∧ result = .error (.violation violation) :=
  Iff.rfl

@[simp]
theorem tells_perform (action : Action) (story : List Happening)
    (result : Except Failure action.Answer) :
    Tells (α := no_index action.Answer) (perform action) story result ↔
      ∃ answer, story = [.acted action answer] ∧ result = .ok answer := by
  constructor
  · rintro ⟨answer, rest, rfl, rfl, rfl⟩
    exact ⟨answer, rfl, rfl⟩
  · rintro ⟨answer, rfl, rfl⟩
    exact ⟨answer, [], rfl, rfl, rfl⟩

@[simp]
theorem tells_request (callback : Callback) (story : List Happening)
    (result : Except Failure callback.Answer) :
    Tells (α := no_index callback.Answer) (request callback) story result ↔
      story = [.answered callback result] := by
  constructor
  · rintro ⟨answer, rest, rfl, rfl, rfl⟩
    rfl
  · rintro rfl
    exact ⟨result, [], rfl, rfl, rfl⟩

/-- A sequence tells the story of its first part, and then that of the second unless the first has
failed. -/
theorem tells_bind (program : Program α) (next : α → Program β) (story : List Happening)
    (result : Except Failure β) :
    (program >>= next).Tells story result ↔
      (∃ first value second, program.Tells first (.ok value) ∧ (next value).Tells second result ∧
        story = first ++ second) ∨
      ∃ failure, program.Tells story (.error failure) ∧ result = .error failure := by
  change (program.andThen _).Tells story result ↔ _
  rw [tells_andThen]
  constructor
  · rintro ⟨first, middle, second, hfirst, hnext, rfl⟩
    cases middle with
    | ok value => exact Or.inl ⟨first, value, second, hfirst, hnext, rfl⟩
    | error failure =>
        obtain ⟨rfl, rfl⟩ := hnext
        rw [List.append_nil]
        exact Or.inr ⟨failure, hfirst, rfl⟩
  · rintro (⟨first, value, second, hfirst, hnext, rfl⟩ | ⟨failure, hfails, rfl⟩)
    · exact ⟨first, .ok value, second, hfirst, hnext, rfl⟩
    · exact ⟨story, .error failure, [], hfails, ⟨rfl, rfl⟩, (List.append_nil story).symm⟩

theorem tells_perform_bind (action : Action) (next : action.Answer → Program β)
    (story : List Happening) (result : Except Failure β) :
    (perform action >>= next).Tells story result ↔
      ∃ answer rest, story = .acted action answer :: rest ∧ (next answer).Tells rest result :=
  Iff.rfl

/-- A locked section tells the story of its body between taking and giving back the lock. -/
theorem tells_locked (lock : Lock) (body : Program α) (story : List Happening)
    (result : Except Failure α) :
    (locked lock body).Tells story result ↔
      ∃ inside, body.Tells inside result ∧
        story = .acted (.acquire lock) () :: (inside ++ [.acted (.release lock) ()]) := by
  rw [locked, tells_perform_bind]
  simp only [withCleanup, tells_andThen]
  constructor
  · rintro ⟨_, _, rfl, inside, outcome, _, hbody, ⟨_, released, _, ⟨_, _, rfl, rfl, rfl⟩,
      ⟨rfl, rfl⟩, rfl⟩, rfl⟩
    exact ⟨inside, hbody, rfl⟩
  · rintro ⟨inside, hbody, rfl⟩
    exact ⟨(), _, rfl, inside, result, _, hbody,
      ⟨_, .ok (), [], ⟨(), [], rfl, rfl, rfl⟩, ⟨rfl, rfl⟩, rfl⟩, rfl⟩

/-- A masked section fails if interrupts cannot be masked.  Else it tells the story of its body up
to the answer with which they are restored, and fails if that is a failure. -/
theorem tells_masked {body : Program α} {story : List Happening} {result : Except Failure α}
    (htells : (masked body).Tells story result) :
    (∃ failure, story = [.answered .mask (.error failure)] ∧ result = .error failure) ∨
      ∃ previous inside outcome restoring, body.Tells inside outcome ∧
        story = .answered .mask (.ok previous) ::
            (inside ++ [.answered (.restore previous) restoring]) ∧
          match restoring, outcome with
          | .ok _, _ => result = outcome
          | .error failure, .ok _ => result = .error failure
          | .error _, .error _ => result = .error .aborted := by
  rcases (tells_bind _ _ _ _).mp htells with ⟨_, previous, _, hmask, hbody, rfl⟩ | ⟨_, hmask, rfl⟩
  · obtain rfl := (tells_request _ _ _).mp hmask
    obtain ⟨inside, outcome, _, hinside, hcleanup, rfl⟩ := (tells_andThen _ _ _ _).mp hbody
    obtain ⟨_, restoring, _, hrestore, hends, rfl⟩ := (tells_andThen _ _ _ _).mp hcleanup
    obtain rfl := (tells_request _ _ _).mp hrestore
    refine Or.inr ⟨previous, inside, outcome, restoring, hinside, ?_⟩
    cases restoring with
    | ok _ =>
        obtain ⟨rfl, rfl⟩ := hends
        exact ⟨rfl, rfl⟩
    | error failure =>
        cases outcome <;> (obtain ⟨rfl, rfl⟩ := hends; exact ⟨rfl, rfl⟩)
  · exact Or.inl ⟨_, (tells_request _ _ _).mp hmask, rfl⟩

def Straight (program : Program α) : Prop :=
  program.Within fun happening => ∀ procedure, happening ≠ .called procedure

/-- Every straight program has a story. -/
theorem Straight.told {program : Program α} (hstraight : program.Straight) :
    ∃ story result, program.Tells story result := by
  induction program with
  | done outcome => exact ⟨[], outcome, rfl, rfl⟩
  | act action next ih =>
      obtain ⟨answer⟩ := action.nonempty_answer
      obtain ⟨rest, result, htells⟩ := ih answer (hstraight answer trivial).2
      exact ⟨_, result, answer, rest, rfl, htells⟩
  | emit event next ih =>
      obtain ⟨rest, result, htells⟩ := ih (hstraight trivial).2
      exact ⟨_, result, rest, rfl, htells⟩
  | choose next ih =>
      obtain ⟨rest, result, htells⟩ := ih false (hstraight false trivial).2
      exact ⟨_, result, false, rest, rfl, htells⟩
  | ask callback next ih =>
      obtain ⟨rest, result, htells⟩ := ih (.error .aborted) (hstraight (.error .aborted) trivial).2
      exact ⟨_, result, .error .aborted, rest, rfl, htells⟩
  | call procedure next ih => exact absurd rfl ((hstraight trivial).1 procedure)

end Program

def Operation.Straight (operation : Operation) : Prop :=
  operation.program.Straight

structure Teller where
  operation : Operation
  made : List Happening

/-- The discipline of complete stories. -/
def telling : Discipline Teller where
  start operation := ⟨operation, []⟩
  observe teller happening := { teller with made := teller.made ++ [happening] }
  Allows teller happening := teller.operation.Straight → ∃ rest result,
    teller.operation.program.Tells (teller.made ++ happening :: rest) result
  Presumes _ _ := True
  Enters _ teller := ¬ teller.operation.Straight
  Leaves _ teller later _ := later.operation = teller.operation
  Returns operation teller result :=
    operation.Straight → operation.program.Tells teller.made result

section
variable {operation : Operation} {made : List Happening} {next : Program operation.Reply}
  {happening : Happening}

/-- A step that lies on a story of the whole is allowed, and leads on along it. -/
theorem telling_step (hstraight : next.Straight)
    (htells : ∀ rest result, next.Tells rest result →
      operation.program.Tells (made ++ happening :: rest) result) :
    telling.Allows ⟨operation, made⟩ happening ∧
      ∀ rest result, next.Tells rest result →
        operation.program.Tells ((made ++ [happening]) ++ rest) result := by
  obtain ⟨rest, result, htold⟩ := hstraight.told
  refine ⟨fun _ => ⟨rest, result, htells rest result htold⟩, ?_⟩
  intro rest result htold
  rw [List.append_assoc]
  exact htells rest result htold

/-- What is left of a straight program goes on with one of the stories of the whole. -/
theorem telling_ensures {program : Program operation.Reply} (hstraight : program.Straight)
    (htells : ∀ rest result, program.Tells rest result →
      operation.program.Tells (made ++ rest) result) :
    program.Ensures telling ⟨operation, made⟩ fun teller result =>
      operation.program.Tells teller.made result := by
  induction program generalizing made with
  | done result => simpa using htells [] result ⟨rfl, rfl⟩
  | act action next ih =>
      intro answer _
      have hnext := (hstraight answer trivial).2
      obtain ⟨hallows, hrest⟩ := telling_step hnext fun rest result htold =>
        htells _ result ⟨answer, rest, rfl, htold⟩
      exact ⟨hallows, ih answer hnext hrest⟩
  | emit event next ih =>
      intro _
      have hnext := (hstraight trivial).2
      obtain ⟨hallows, hrest⟩ := telling_step hnext fun rest result htold =>
        htells _ result ⟨rest, rfl, htold⟩
      exact ⟨hallows, ih hnext hrest⟩
  | choose next ih =>
      intro choice _
      have hnext := (hstraight choice trivial).2
      obtain ⟨hallows, hrest⟩ := telling_step hnext fun rest result htold =>
        htells _ result ⟨choice, rest, rfl, htold⟩
      exact ⟨hallows, ih choice hnext hrest⟩
  | ask callback next ih =>
      intro answer _
      have hnext := (hstraight answer trivial).2
      obtain ⟨hallows, hrest⟩ := telling_step hnext fun rest result htold =>
        htells _ result ⟨answer, rest, rfl, htold⟩
      exact ⟨hallows, ih answer hnext hrest⟩
  | call procedure next ih => exact absurd rfl ((hstraight trivial).1 procedure)

theorem telling_aside {α : Type} {program : Program α} {teller : Teller}
    (hnot : ¬ teller.operation.Straight) {Permits : Happening → Prop}
    (hwithin : program.Within Permits) :
    program.Ensures telling teller fun later _ => later.operation = teller.operation := by
  refine hwithin.ensures ?_ ?_ ?_
  · rfl
  · intro later happening hsame _
    exact ⟨fun hstraight => absurd (hsame ▸ hstraight) hnot, hsame⟩
  · intro procedure later hsame _
    exact ⟨fun hstraight => hnot (hsame ▸ hstraight), fun _ _ hleaves => hleaves.trans hsame⟩

theorem telling_obeyed : telling.Obeyed where
  operations operation := by
    by_cases hstraight : operation.Straight
    · have htells : ∀ rest result, operation.program.Tells rest result →
          operation.program.Tells ([] ++ rest) result := fun _ _ htells => htells
      exact (telling_ensures hstraight htells).mono fun teller result htold _ => htold
    · have hnot : ¬ (telling.start operation).operation.Straight := hstraight
      apply (telling_aside hnot operation.program_behaves.shows).mono
      exact fun teller result _ hstraight' => absurd hstraight' hstraight
  procedures procedure teller hnot := telling_aside hnot procedure.code_behaves.shows

theorem telling_upholds {start : World} : telling.Upholds start fun _ _ _ => True where
  idle := trivial
  start _ _ _ _ _ := trivial
  step _ _ _ _ _ _ := ⟨trivial, fun _ => trivial⟩
  finish _ _ _ _ _ _ _ := trivial

theorem telling_foldl (teller : Teller) (steps : List Happening) :
    steps.foldl telling.observe teller = ⟨teller.operation, teller.made ++ steps⟩ := by
  induction steps generalizing teller with
  | nil => simp
  | cons happening steps ih =>
      rw [List.foldl_cons, ih]
      simp [telling]

/-- What a straight operation has done is the beginning of one of its stories. -/
theorem begins_of_telling (hstraight : operation.Straight) {steps : List Happening}
    (hkeeps : telling.Keeps ⟨operation, []⟩ steps) :
    ∃ rest result, operation.program.Tells (steps ++ rest) result := by
  rcases List.eq_nil_or_concat steps with rfl | ⟨steps, last, rfl⟩
  · exact hstraight.told
  · rw [List.concat_eq_append, Discipline.keeps_concat, telling_foldl] at hkeeps
    obtain ⟨rest, result, htells⟩ := hkeeps.2 hstraight
    exact ⟨rest, result, by simpa using htells⟩

end

/-- What a straight operation has done is the beginning of one of its stories, up to the return. -/
theorem Runs.tells {start world : World} {history : History} {flows : Nat → Flow} {number : Nat}
    {operation : Operation} {story : List Happening} (hrun : Runs start history world flows)
    (hstraight : operation.Straight)
    (hown : (Journal.ofHistory history).own number = .started operation :: story) :
    ∃ whole result, operation.program.Tells whole result ∧
      story <+: whole ++ [.finished operation result] := by
  have haccount := (hrun.account telling_obeyed telling_upholds).1
  obtain ⟨other, steps, _, hkeeps, hown' | ⟨result, hown', hreturns⟩⟩ :=
    haccount.story (Journal.lt_started_of_own haccount.sound hown)
  · cases hown.symm.trans hown'
    obtain ⟨rest, result, htells⟩ := begins_of_telling hstraight hkeeps
    refine ⟨_, result, htells, ?_⟩
    rw [List.append_assoc]
    exact List.prefix_append _ _
  · cases hown.symm.trans hown'
    have htells := hreturns hstraight
    rw [Discipline.after, telling_foldl] at htells
    exact ⟨steps, result, htells, List.prefix_rfl⟩

/-- A straight operation that asks a callback is on a story that goes on with an answer. -/
theorem tells_of_asking {journal : Journal} {number : Nat} {activation : Activation}
    {operation : Operation} {story : List Happening}
    (haccounts : telling.Accounts journal number activation) (hasking : activation.isAsking)
    (hstraight : operation.Straight) (hown : journal.own number = .started operation :: story) :
    ∃ callback answer rest result,
      operation.program.Tells (story ++ .answered callback answer :: rest) result := by
  obtain ⟨steps, hsteps, _, _, hensures⟩ := haccounts
  obtain ⟨asker, rest⟩ := activation
  cases hown.symm.trans hsteps
  cases rest with
  | ask callback next =>
      obtain ⟨hallows, _⟩ := hensures (.error .aborted) trivial
      rw [Discipline.after] at hallows
      have hstart : telling.start asker = ⟨asker, []⟩ := rfl
      rw [hstart, telling_foldl] at hallows
      obtain ⟨rest, result, htells⟩ := hallows hstraight
      exact ⟨callback, _, rest, result, by simpa using htells⟩
  | _ => cases hasking

end CoreEngines
