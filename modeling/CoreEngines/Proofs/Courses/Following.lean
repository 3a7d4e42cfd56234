import CoreEngines.Proofs.Courses.Paths

/-!
All operations follow their courses.
-/

namespace CoreEngines

open Program

section
variable {course : Course}

namespace SerialCounter

variable {counter : Ref .counter}

abbrev Claims (counter : Ref .counter) (course later : Course)
    (result : Except Failure UInt64) : Prop :=
  ∃ serial, result = .ok serial ∧ later = course.along [claimed counter serial]

theorem aside_load {α : Type} {next : UInt64 → Program α} {post : Course → Except Failure α → Prop}
    (hleads : course.Leads []) (hnext : ∀ seen, (next seen).Ensures coursing course post) :
    Ensures coursing (perform (.counter counter .load) >>= next) course post :=
  aside_perform_bind
    (fun _ => Operation.not_marks_of_topic rfl course.operation.counter_not_mem_traits) hleads hnext

theorem invoke_coursing (seen : UInt64) (hleads : ∀ serial, course.Leads [claimed counter serial]) :
    (invoke (.claimSerial counter seen)).Ensures coursing course (Claims counter course) := by
  have hmarks : course.operation.marks (.called (.claimSerial counter seen)) = false := rfl
  obtain ⟨hallows, hobserve⟩ := Course.aside hmarks ((hleads 0).mono List.nil_prefix)
  intro _
  rw [hobserve]
  exact ⟨hallows, hleads, fun _ _ hleaves => hleaves⟩

theorem claim_coursing (hleads : ∀ serial, course.Leads [claimed counter serial]) :
    (claim counter).Ensures coursing course (Claims counter course) :=
  aside_load ((hleads 0).mono List.nil_prefix) fun seen => invoke_coursing seen hleads

theorem claimStep_coursing (seen : UInt64)
    (hleads : ∀ serial, course.Leads [claimed counter serial]) :
    (claimStep counter seen).Ensures coursing course (Claims counter course) := by
  have hstay : course.Leads [] := (hleads 0).mono List.nil_prefix
  simp only [claimStep, ensures_bind, ensures_chance]
  intro spurious _
  have hmarks : course.operation.marks (.chose spurious) = false := rfl
  obtain ⟨hallows, hobserve⟩ := Course.aside hmarks hstay
  refine ⟨hallows, ?_⟩
  rw [hobserve]
  split
  · exact aside_load hstay fun found => invoke_coursing found hleads
  · rw [ensures_bind, ensures_perform]
    rintro (_ | found) -
    · obtain ⟨hallows, hobserve⟩ := Course.ahead
        (Operation.marks_of_topic rfl course.operation.claim_mem_traits) (hleads seen)
      exact ⟨hallows, seen, rfl, hobserve⟩
    · have hmarks : course.operation.marks
          (.acted (.counter counter (.exchange seen (Serial.after seen))) (some found)) = false :=
        Operation.not_marks_of_topic rfl course.operation.counter_not_mem_traits
      obtain ⟨hallows, hobserve⟩ := Course.aside hmarks hstay
      refine ⟨hallows, ?_⟩
      rw [hobserve]
      exact invoke_coursing found hleads

end SerialCounter

namespace Registry

theorem make_coursing {core : CoreId} {reserve : Nat}
    (hproceeds : ∀ made, course.operation.Proceeds made)
    (hleads : ∀ counter registry, course.Leads (making core reserve counter registry)) :
    (make core reserve).Ensures coursing course fun later result =>
      ∃ counter registry, result = .ok registry ∧
        later = course.along (making core reserve counter registry) := by
  have hmarks : ∀ {action : Action} (answer : action.Answer),
      Happening.topic? (.acted action answer) = some .outfit →
        course.operation.marks (.acted action answer) = true := fun answer htopic =>
    Operation.marks_of_topic htopic course.operation.outfit_mem_traits
  apply ahead_bind (fun answer => hmarks answer rfl)
  · exact fun counter => (hleads counter ⟨0⟩).mono ⟨_, rfl⟩
  · intro counter
    apply ahead_perform
    · exact fun registry => hmarks registry rfl
    · intro registry
      have hpath := hleads counter registry
      exact hpath.rest (hproceeds _)
    · exact fun registry => ⟨counter, registry, rfl, by simp [making]⟩

/-- Taking the staged threads, where this is marked. -/
theorem takeStagedLocked_coursing {registry : Ref .registry}
    (htraits : .staging ∈ course.operation.traits)
    (hproceeds : ∀ made, course.operation.Proceeds made)
    (hleads : ∀ staged, course.Leads (taking registry staged)) :
    (takeStagedLocked registry).Ensures coursing course fun later result =>
      ∃ staged, result = .ok staged ∧ later = course.along (taking registry staged) := by
  apply ahead_locked htraits ((hleads #[]).mono ⟨_, rfl⟩)
  apply ahead_perform
  · exact fun staged => Operation.marks_of_topic rfl htraits
  · intro staged
    have hpath : course.Leads ([Happening.acted (.acquire (.roster registry)) ()] ++
        [Happening.acted (.registry registry .detach) staged]) := (hleads staged).mono ⟨_, rfl⟩
    exact hpath.rest (hproceeds _)
  · intro staged
    rw [Course.along_along]
    refine ⟨rfl, Course.Leads.rest (hleads staged) (hproceeds _), staged, rfl, ?_⟩
    rw [Course.along_along]
    rfl

theorem takeStaged_coursing (registry : Ref .registry) :
    (takeStaged registry).Ensures coursing ⟨.takeStaged registry, []⟩
      (coursing.Returns (.takeStaged registry)) := by
  have hstaging : Topic.staging ∈ (Operation.takeStaged registry).traits := by
    simp [Operation.traits]
  have hpath : ∀ (count : Nat) (staged : Array (Ref .thread)), count ≠ 0 →
      (Operation.takeStaged registry).Begins
        (.acted (.registry registry .peek) count :: taking registry staged) :=
    fun count staged hcount => ⟨_, Or.inr ⟨count, staged, hcount, rfl⟩, List.prefix_refl _⟩
  apply ahead_bind
  · exact fun count => Operation.marks_of_topic rfl hstaging
  · rintro (count : Nat)
    refine ⟨trivial, ?_⟩
    by_cases hcount : count = 0
    · subst hcount
      exact ⟨_, Or.inl rfl, List.prefix_refl _⟩
    · exact (hpath count #[] hcount).mono ⟨_, rfl⟩
  · rintro (count : Nat)
    by_cases hcount : count = 0
    · subst hcount
      exact ⟨rfl, Or.inl ⟨rfl, rfl⟩⟩
    · rw [if_neg hcount]
      refine (takeStagedLocked_coursing ?_ ?_ ?_).mono ?_
      · exact hstaging
      · exact fun _ => trivial
      · exact fun staged => ⟨trivial, hpath count staged hcount⟩
      · rintro _ _ ⟨staged, rfl, rfl⟩
        exact ⟨rfl, Or.inr ⟨count, hcount, rfl⟩⟩

/-- The section of a creation puts the thread on record and publishes the new length. -/
theorem record_coursing {registry : Ref .registry} {thread : Ref .thread}
    (hoperation : course.operation = .create registry)
    (hleads : ∀ length : Nat, course.Leads
      [.acted (.acquire (.roster registry)) (), .acted (.registry registry (.enroll thread)) length,
       .acted (.registry registry (.publish length)) (),
       .acted (.release (.roster registry)) ()]) :
    (locked (.roster registry) do
      let count : Nat ← perform (.registry registry (.enroll thread))
      perform (.registry registry (.publish count))).Ensures coursing course fun later result =>
        ∃ length : Nat, result = .ok () ∧ later = course.along
          [.acted (.acquire (.roster registry)) (),
           .acted (.registry registry (.enroll thread)) length,
           .acted (.registry registry (.publish length)) (),
           .acted (.release (.roster registry)) ()] := by
  have htraits : Topic.staging ∈ course.operation.traits ∧
      Topic.record ∈ course.operation.traits := by
    simp [hoperation, Operation.traits]
  have hproceeds : ∀ made, course.operation.Proceeds made := by
    intro made
    rw [hoperation]
    trivial
  apply ahead_locked htraits.1 ((hleads 0).mono ⟨_, rfl⟩)
  apply ahead_bind
  · exact fun length => Operation.marks_of_topic rfl htraits.2
  · rintro (length : Nat)
    have hpath : course.Leads ([Happening.acted (.acquire (.roster registry)) ()] ++
        [Happening.acted (.registry registry (.enroll thread)) length]) :=
      (hleads length).mono ⟨_, rfl⟩
    exact hpath.rest (hproceeds _)
  · rintro (length : Nat)
    rw [Course.along_along]
    apply ahead_perform
    · exact fun _ => Operation.marks_of_topic rfl htraits.2
    · rintro ⟨⟩
      have hpath : course.Leads ([Happening.acted (.acquire (.roster registry)) (),
          .acted (.registry registry (.enroll thread)) length] ++
            [Happening.acted (.registry registry (.publish length)) ()]) :=
        (hleads length).mono ⟨_, rfl⟩
      exact hpath.rest (hproceeds _)
    · rintro ⟨⟩
      rw [Course.along_along]
      refine ⟨rfl, Course.Leads.rest (hleads length) (hproceeds _), length, rfl, ?_⟩
      rw [Course.along_along]
      rfl

theorem create_coursing (registry : Ref .registry) :
    (create registry).Ensures coursing ⟨.create registry, []⟩
      (coursing.Returns (.create registry)) := by
  have hpath : ∀ shape serial mailbox thread length path,
      path <+: creation registry shape serial mailbox thread length →
        (Operation.create registry).Begins path :=
    fun shape serial mailbox thread length path hpath =>
      ⟨_, ⟨shape, serial, mailbox, thread, length, rfl⟩, hpath⟩
  have hproceeds : ∀ made, (Operation.create registry).Proceeds made := fun _ => trivial
  apply ahead_bind
  · exact fun shape => Operation.marks_of_topic rfl (by simp [Operation.traits])
  · exact fun shape => ⟨hproceeds _, hpath shape 0 ⟨0⟩ ⟨0⟩ 0 _ ⟨_, rfl⟩⟩
  · rintro (shape : Shape)
    refine (SerialCounter.claim_coursing ?_).bind ?_ ?_
    · exact fun serial => ⟨hproceeds _, hpath shape serial ⟨0⟩ ⟨0⟩ 0 _ ⟨_, rfl⟩⟩
    · rintro _ (serial : UInt64) ⟨_, ⟨⟩, rfl⟩
      apply aside_bind (Mailbox.make_behaves _).shows (by simp)
      · exact ⟨hproceeds _, hpath shape serial ⟨0⟩ ⟨0⟩ 0 _ ⟨_, rfl⟩⟩
      · exact fun failure => ⟨rfl, trivial⟩
      · rintro (mailbox : Ref .mailbox)
        apply ahead_bind
        · exact fun thread =>
            Operation.marks_of_topic rfl (by simp [Course.along, Operation.traits])
        · exact fun thread => ⟨hproceeds _, hpath shape serial mailbox thread 0 _ ⟨_, rfl⟩⟩
        · rintro (thread : Ref .thread)
          refine Ensures.bind (record_coursing rfl ?_) ?_ ?_
          · exact fun length => ⟨hproceeds _, hpath shape serial mailbox thread length _ ⟨[], rfl⟩⟩
          · rintro _ ⟨⟩ ⟨length, _, rfl⟩
            apply aside_report_bind
            · exact ⟨hproceeds _, hpath shape serial mailbox thread length _ ⟨[], rfl⟩⟩
            · exact ⟨rfl, shape, serial, mailbox, length, rfl⟩
          · rintro _ failure ⟨_, hcontra, _⟩
            cases hcontra
    · rintro _ failure ⟨_, hcontra, _⟩
      cases hcontra

end Registry

namespace Table

variable {config : Config}

theorem makeEngine_coursing {core : CoreId} {mode : Mode}
    (hproceeds : ∀ made, course.operation.Proceeds made)
    (hleads : ∀ part : Part, course.Leads (part.making config core mode)) :
    (makeEngine config core mode).Ensures coursing course fun later result =>
      ∃ part : Part, result = .ok part.engine ∧
        later = course.along (part.making config core mode) := by
  refine (Registry.make_coursing hproceeds ?_).bind ?_ ?_
  · exact fun counter registry => (hleads ⟨counter, registry, ⟨0⟩⟩).mono ⟨_, rfl⟩
  · rintro _ registry ⟨counter, _, ⟨⟩, rfl⟩
    apply ahead_perform
    · exact fun engine => Operation.marks_of_topic rfl course.operation.outfit_mem_traits
    · exact fun engine => (hleads ⟨counter, registry, engine⟩).rest (hproceeds _)
    · exact fun engine => ⟨⟨counter, registry, engine⟩, rfl, Course.along_along _ _ _⟩
  · rintro _ failure ⟨_, _, hcontra, _⟩
    cases hcontra

theorem makeEngines_coursing {first : UInt32} {modes : List Mode}
    (hproceeds : ∀ made, course.operation.Proceeds made)
    (hleads : ∀ parts : List Part, parts.length = modes.length →
      course.Leads (making config first modes parts)) :
    (makeEngines config first modes).Ensures coursing course fun later result =>
      ∃ parts : List Part, parts.length = modes.length ∧
        result = .ok (parts.map (·.engine)) ∧
          later = course.along (making config first modes parts) := by
  induction modes generalizing first course with
  | nil => exact ⟨[], rfl, rfl, (Course.along_nil course).symm⟩
  | cons mode modes ih =>
      refine (makeEngine_coursing hproceeds ?_).bind ?_ ?_
      · intro part
        have hparts := hleads (part :: List.replicate modes.length default) (by simp)
        exact hparts.mono ⟨_, rfl⟩
      · rintro _ _ ⟨part, ⟨⟩, rfl⟩
        refine Ensures.bind (ih hproceeds ?_) ?_ ?_
        · intro parts hlength
          have hparts := hleads (part :: parts) (by simp [hlength])
          exact hparts.rest (hproceeds _)
        · rintro _ _ ⟨parts, hlength, ⟨⟩, rfl⟩
          exact ⟨part :: parts, by simp [hlength], rfl, Course.along_along _ _ _⟩
        · rintro _ failure ⟨_, _, hcontra, _⟩
          cases hcontra
      · rintro _ failure ⟨_, hcontra, _⟩
        cases hcontra

theorem build_coursing (config : Config) (modes : List Mode) :
    (build config modes).Ensures coursing ⟨.buildTable config modes, []⟩
      (coursing.Returns (.buildTable config modes)) := by
  have hpath : ∀ parts : List Part, parts.length = modes.length →
      (Operation.buildTable config modes).Begins (making config 0 modes parts) :=
    fun parts hlength => ⟨_, ⟨parts, hlength, rfl⟩, List.prefix_refl _⟩
  unfold build
  split
  · exact ⟨rfl, trivial⟩
  · refine (makeEngines_coursing ?_ ?_).bind ?_ ?_
    · exact fun _ => trivial
    · exact fun parts hlength => ⟨trivial, hpath parts hlength⟩
    · rintro _ _ ⟨parts, hlength, ⟨⟩, rfl⟩
      apply aside_report_bind
      · refine ⟨trivial, ?_⟩
        rw [List.append_nil]
        exact hpath parts hlength
      · exact ⟨rfl, parts, hlength, rfl, rfl⟩
    · rintro _ failure ⟨_, _, hcontra, _⟩
      cases hcontra

end Table

namespace Engine

variable {engine : Ref .engine} {shape : EngineShape}

theorem ends_of_passing {made : List Happening} (hpassed : passing engine shape <+: made)
    (result : Except Failure Unit) : (Operation.enter engine).Ends made result := by
  rintro other rfl
  obtain ⟨rest, hrest⟩ := hpassed
  simp [passing, refusal] at hrest

theorem begins_arrival (engine : Ref .engine) (shape : EngineShape) :
    (Operation.enter engine).Begins (arrival engine shape) := by
  by_cases hmode : shape.mode = .execution
  · exact ⟨_, .served shape ⟨0⟩ hmode, List.prefix_append _ _⟩
  · exact ⟨_, .idle shape hmode, List.prefix_refl _⟩

/-- Where an entry that has passed the flag can end, with nothing more to mark. -/
def Settled (engine : Ref .engine) (shape : EngineShape) (later : Course) : Prop :=
  later.operation = .enter engine ∧ passing engine shape <+: later.made ∧ later.Leads []

theorem settled_of_path {made : List Happening} (hpath : Path engine (arrival engine shape ++ made))
    (hpasses : .acted (.engine engine .enter) true ∉ made) :
    Settled engine shape ⟨.enter engine, arrival engine shape ++ made⟩ := by
  refine ⟨rfl, ⟨.acted (.engine engine .context) none :: _ :: made, by simp [arrival]; rfl⟩, ?_, _,
    hpath, ?_⟩
  · simpa [Operation.Proceeds, arrival, passing] using hpasses
  · simp

theorem leads_of_path {made step : List Happening} (rest : List Happening)
    (hpath : Path engine (arrival engine shape ++ (made ++ (step ++ rest))))
    (hpasses : .acted (.engine engine .enter) true ∉ made) :
    Course.Leads ⟨.enter engine, arrival engine shape ++ made⟩ step where
  proceeds := by simpa [Operation.Proceeds, arrival, passing] using hpasses
  begins := ⟨_, hpath, rest, by simp⟩

abbrev granted (engine : Ref .engine) : Happening :=
  .acted (.engine engine .claimContext) .granted

abbrev builtBy (shape : EngineShape) (manager : ManagerRef) (context : Ref .context) :
    List Happening :=
  [.answered (.createManager shape.core (startsUp shape)) (.ok manager),
   .acted (.newContext (contextShape shape manager)) context]

/-- A context is made for an engine, or its manager is not to be had. -/
theorem make_coursing (hmode : shape.mode = .execution) :
    (Context.make shape.core (startsUp shape) shape.config.admission shape.registry).Ensures
      coursing ⟨.enter engine, arrival engine shape ++ [granted engine]⟩ fun later result =>
          later.operation = .enter engine ∧ match result with
            | .error cause => later.made = arrival engine shape ++
                [granted engine,
                 .answered (.createManager shape.core (startsUp shape)) (.error cause)]
            | .ok context => ∃ manager, later.made = arrival engine shape ++
                (granted engine ::
                  builtBy shape manager context) := by
  have hhost : Topic.host ∈ (Operation.enter engine).traits := by simp [Operation.traits]
  rw [Context.make, ensures_bind, ensures_request]
  rintro (cause | manager) -
  · have hleads : Course.Leads ⟨.enter engine, arrival engine shape ++ [granted engine]⟩
          [.answered (.createManager shape.core (startsUp shape)) (.error cause)] :=
      leads_of_path _ (.failed shape cause hmode) (by simp)
    obtain ⟨hallows, hobserve⟩ := Course.ahead (Operation.marks_of_topic rfl hhost) hleads
    refine ⟨hallows, ?_⟩
    rw [hobserve]
    exact ⟨rfl, by simp [Course.along]⟩
  · have hbuilt : ∀ context, Path engine (arrival engine shape ++
        ([granted engine] ++ (builtBy shape manager context ++
          [Happening.acted (.engine engine (.fillContext context)) ()]))) :=
      fun context => .built shape manager context hmode
    have hleads : ∀ context, Course.Leads ⟨.enter engine, arrival engine shape ++ [granted engine]⟩
        (builtBy shape manager context) :=
      fun context => leads_of_path _ (hbuilt context) (by simp)
    obtain ⟨hallows, hobserve⟩ := Course.ahead (Operation.marks_of_topic rfl hhost)
      ((hleads ⟨0⟩).mono ⟨_, rfl⟩)
    refine ⟨hallows, ?_⟩
    rw [hobserve]
    have hnext : ∀ context, Course.Leads _ [_] := fun context =>
      (show Course.Leads _ ([_] ++ [_]) from hleads context).rest
        (by simp [Operation.Proceeds, arrival, passing])
    apply aside_report_bind ((hnext ⟨0⟩).mono List.nil_prefix)
    apply ahead_perform (fun context => Operation.marks_of_topic rfl hhost) hnext
    exact fun context => ⟨rfl, manager, by simp [Course.along]⟩

/-- The context of an engine is made, or found to be there. -/
theorem makeContext_coursing (hmode : shape.mode = .execution) :
    (makeContext engine shape.core shape).Ensures coursing
      ⟨.enter engine, arrival engine shape⟩ fun later _ => Settled engine shape later := by
  have hentry : Topic.entry ∈ (Operation.enter engine).traits := by simp [Operation.traits]
  have hleads : ∀ {step} rest, Path engine (arrival engine shape ++ (step ++ rest)) →
      Course.Leads ⟨.enter engine, arrival engine shape⟩ step := fun rest hpath => by
    simpa using leads_of_path rest hpath List.not_mem_nil
  rw [makeContext]
  apply ahead_bind
  · exact fun claim => Operation.marks_of_topic rfl hentry
  · rintro (context | _)
    · exact hleads [] (.served shape context hmode)
    · exact hleads _ (.failed shape .aborted hmode)
  rintro (context | _)
  · exact settled_of_path (.served shape context hmode) (by simp)
  dsimp only
  rw [ensures_andThen]
  apply (make_coursing hmode).mono
  rintro ⟨_, made⟩ (cause | context) ⟨rfl, hmade⟩
  · obtain rfl := hmade
    have hpath : Path engine _ := .failed shape cause hmode
    refine ahead_bind (fun answer => Operation.marks_of_topic rfl hentry) ?_ ?_
    · exact fun _ => leads_of_path [] hpath (by simp)
    · rintro ⟨⟩
      simpa [Course.along] using settled_of_path hpath (by simp)
  · obtain ⟨manager, rfl⟩ := hmade
    have hpath : Path engine _ := .built shape manager context hmode
    refine ahead_bind (fun answer => Operation.marks_of_topic rfl hentry) ?_ ?_
    · exact fun _ => leads_of_path [] hpath (by simp)
    · rintro ⟨⟩
      simpa [Course.along] using settled_of_path hpath (by simp)

/-- An entry of the right core ends with nothing more to mark, whatever its mode. -/
theorem operate_coursing :
    (operate engine shape.core shape).Ensures coursing ⟨.enter engine, arrival engine shape⟩
      fun later _ => Settled engine shape later := by
  have harrived : shape.mode ≠ .execution →
      Settled engine shape ⟨.enter engine, arrival engine shape⟩ := fun hmode => by
    have hpath : Path engine (arrival engine shape ++ []) := by simpa using Path.idle shape hmode
    simpa using settled_of_path hpath List.not_mem_nil
  unfold operate
  split
  case h_1 hmode =>
    have hsettled := harrived (by simp [hmode])
    have hhalt : (request .halt).Behaves [] := Behaves.request (by simp)
    apply aside_bind hhalt.shows (by simp) hsettled.2.2
    · exact fun _ => hsettled
    · exact fun never => never.elim
  case h_2 hmode =>
    have hsettled := harrived (by simp [hmode])
    have hidle : (invoke .idle).Behaves [] := Behaves.invoke (by simp)
    apply (aside_coursing hidle.shows (by simp) hsettled.2.2).mono
    rintro _ _ rfl
    exact hsettled
  case h_3 hmode =>
    apply (makeContext_coursing hmode).bind
    · intro later context hsettled
      have htraits : ∀ topic ∈ [Topic.context, .staging, .thread],
          topic ∉ later.operation.traits := by
        simp [hsettled.1, Operation.traits]
      apply (aside_coursing (Context.run_behaves context).shows htraits hsettled.2.2).mono
      rintro _ _ rfl
      exact hsettled
    · exact fun _ _ hsettled => hsettled

theorem enter_coursing (engine : Ref .engine) :
    (enter engine).Ensures coursing ⟨.enter engine, []⟩ (coursing.Returns (.enter engine)) := by
  have hentry : Topic.entry ∈ (Operation.enter engine).traits := by simp [Operation.traits]
  have hengine : Topic.engine ∈ (Operation.enter engine).traits := by simp [Operation.traits]
  have hhost : Topic.host ∈ (Operation.enter engine).traits := by simp [Operation.traits]
  have hpassed : ∀ {shape result} (made : List Happening),
      coursing.Returns (.enter engine) ⟨.enter engine, passing engine shape ++ made⟩ result :=
    fun made => ⟨rfl, ends_of_passing ⟨made, rfl⟩ _⟩
  apply ahead_bind
  · exact fun shape => Operation.marks_of_topic rfl hengine
  · exact fun shape => ⟨List.not_mem_nil, _, .refused shape, ⟨_, rfl⟩⟩
  rintro (shape : EngineShape)
  apply ahead_bind
  · exact fun entered => Operation.marks_of_topic rfl hentry
  · rintro (_ | _)
    · exact ⟨by simp [Operation.Proceeds, Course.along],
        (begins_arrival engine shape).mono ⟨_, rfl⟩⟩
    · exact ⟨by simp [Operation.Proceeds, Course.along], _, .refused shape, List.prefix_refl _⟩
  rintro (_ | _)
  case true =>
    refine ⟨rfl, fun other hsame => ?_⟩
    obtain rfl : shape = other := by simpa [Course.along, refusal] using hsame
    rfl
  have hproceeds : ∀ made : List Happening, .acted (.engine engine .enter) true ∉ made →
      (Operation.enter engine).Proceeds (passing engine shape ++ made) := fun made hmade => by
    simpa [Operation.Proceeds, passing] using hmade
  apply ahead_bind
  · exact fun context => Operation.marks_of_topic rfl hengine
  · rintro (_ | context)
    · exact ⟨hproceeds [] (by simp), (begins_arrival engine shape).mono ⟨_, rfl⟩⟩
    · exact ⟨hproceeds [] (by simp), _, .doubled shape context, List.prefix_refl _⟩
  rintro (_ | context)
  case some => exact hpassed _
  change Ensures coursing (request .currentCore >>= _) ⟨.enter engine,
    passing engine shape ++ [Happening.acted (.engine engine .context) none]⟩ _
  rw [ensures_bind, ensures_request]
  intro located _
  have hleads : Course.Leads ⟨.enter engine,
      passing engine shape ++ [Happening.acted (.engine engine .context) none]⟩
        [.answered .currentCore located] := by
    refine ⟨hproceeds _ (by simp), ?_⟩
    by_cases hlocated : located = .ok shape.core
    · subst hlocated
      exact (begins_arrival engine shape).mono (by simp [arrival])
    · exact ⟨_, .astray shape located hlocated, by simp⟩
  obtain ⟨hallows, hobserve⟩ := Course.ahead (Operation.marks_of_topic rfl hhost) hleads
  refine ⟨hallows, ?_⟩
  rw [hobserve]
  rcases located with cause | core
  · exact hpassed [_, _]
  · dsimp only
    split
    case isFalse => exact hpassed [_, _]
    case isTrue hcore =>
      subst hcore
      have hleads : Course.Leads ⟨.enter engine, arrival engine shape⟩ [] :=
        ⟨hproceeds [_, _] (by simp), by simpa using begins_arrival engine shape⟩
      refine aside_report_bind hleads (operate_coursing.mono ?_)
      exact fun later result hsettled => ⟨hsettled.1, ends_of_passing hsettled.2.1 result⟩

end Engine

/-- An operation without marked steps. -/
theorem quiet_coursing {operation : Operation}
    (htopics : ∀ topic ∈ operation.topics, topic ∉ operation.traits) (hpath : operation.Path [])
    (hends : ∀ result, operation.Ends [] result) :
    operation.program.Ensures coursing ⟨operation, []⟩ (coursing.Returns operation) := by
  have hproceeds : operation.Proceeds [] := by
    cases operation with
    | enter engine => exact List.not_mem_nil
    | _ => trivial
  have hleads : Course.Leads ⟨operation, []⟩ [] := ⟨hproceeds, _, hpath, List.prefix_refl _⟩
  apply (aside_coursing operation.program_behaves.shows htopics hleads).mono
  rintro _ result rfl
  exact ⟨rfl, hends result⟩

/-- All operations and procedures follow their courses. -/
theorem coursing_obeyed : coursing.Obeyed where
  operations operation := by
    cases operation with
    | makeCounter first =>
        apply ahead_perform
        · exact fun counter => Operation.marks_of_topic rfl (Operation.outfit_mem_traits _)
        · exact fun counter => ⟨trivial, _, ⟨counter, rfl⟩, List.prefix_refl _⟩
        · exact fun counter => ⟨rfl, trivial⟩
    | claimSerial counter =>
        apply (SerialCounter.claim_coursing ?_).mono
        · rintro _ _ ⟨serial, rfl, rfl⟩
          exact ⟨rfl, rfl⟩
        · exact fun serial => ⟨trivial, _, ⟨serial, rfl⟩, List.prefix_refl _⟩
    | makeRegistry core reserve =>
        apply (Registry.make_coursing ?_ ?_).mono
        · rintro _ _ ⟨counter, registry, rfl, rfl⟩
          exact ⟨rfl, counter, rfl⟩
        · exact fun _ => trivial
        · exact fun counter registry => ⟨trivial, _, ⟨counter, registry, rfl⟩, List.prefix_refl _⟩
    | create registry => exact Registry.create_coursing registry
    | takeStaged registry => exact Registry.takeStaged_coursing registry
    | takeStagedLocked registry =>
        apply (Registry.takeStagedLocked_coursing ?_ ?_ ?_).mono
        · rintro _ _ ⟨staged, rfl, rfl⟩
          exact ⟨rfl, rfl⟩
        · simp [coursing, Operation.traits]
        · exact fun _ => trivial
        · exact fun staged => ⟨trivial, _, ⟨staged, rfl⟩, List.prefix_refl _⟩
    | buildTable config modes => exact Table.build_coursing config modes
    | enter engine => exact Engine.enter_coursing engine
    | _ => exact quiet_coursing (by simp [Operation.traits]) rfl fun _ => trivial
  procedures procedure state henters := by
    cases procedure with
    | claimSerial counter seen => exact SerialCounter.claimStep_coursing seen henters
    | runLoop context =>
        exact aside_coursing (Procedure.code_behaves _).shows henters.2 henters.1
    | idle => exact aside_coursing (Procedure.code_behaves _).shows henters.2 henters.1

end

end CoreEngines
