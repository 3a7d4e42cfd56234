import CoreEngines.Proofs.Behavior

/-!
Courses.  What an operation does for good, such as making objects, claiming serials, putting
threads on record or entering an engine, it does in a fixed order.  The course of an operation is
all of this that it has done, and a course never leaves the paths that are set out here.
-/

namespace CoreEngines

/-- What the steps are about that are marked in the course of an operation.  Some operations are
told by more of their steps than others. -/
def Operation.traits : Operation → List Topic
  | create _ | takeStaged _ | takeStagedLocked _ =>
      [.claim, .birth, .record, .outfit, .entry, .staging]
  | enter _ => [.claim, .birth, .record, .outfit, .entry, .engine, .host]
  | _ => [.claim, .birth, .record, .outfit, .entry]

def Operation.marks (operation : Operation) (happening : Happening) : Bool :=
  happening.topic?.any fun topic => topic ∈ operation.traits

def Operation.course (operation : Operation) (story : List Happening) : List Happening :=
  story.filter operation.marks

abbrev claimed (counter : Ref .counter) (serial : UInt64) : Happening :=
  .acted (.counter counter (.exchange serial (Serial.after serial))) none

namespace Registry

def making (core : CoreId) (reserve : Nat) (counter : Ref .counter) (registry : Ref .registry) :
    List Happening :=
  [.acted (.newCounter .initial) counter, .acted (.newRegistry core reserve counter) registry]

/-- A thread is created: it gets a serial of the registry's counter and goes on record. -/
def creation (registry : Ref .registry) (shape : Shape) (serial : UInt64)
    (mailbox : Ref .mailbox) (thread : Ref .thread) (length : Nat) : List Happening :=
  [.acted (.registry registry .shape) shape, claimed shape.counter serial,
   .acted (.newThread ⟨shape.core, serial⟩ mailbox) thread,
   .acted (.acquire (.roster registry)) (), .acted (.registry registry (.enroll thread)) length,
   .acted (.registry registry (.publish length)) (), .acted (.release (.roster registry)) ()]

def taking (registry : Ref .registry) (threads : Array (Ref .thread)) : List Happening :=
  [.acted (.acquire (.roster registry)) (), .acted (.registry registry .detach) threads,
   .acted (.release (.roster registry)) ()]

end Registry

namespace Table

/-- What is made for one core. -/
structure Part where
  counter : Ref .counter
  registry : Ref .registry
  engine : Ref .engine
deriving Inhabited

def Part.making (config : Config) (core : CoreId) (mode : Mode) (part : Part) : List Happening :=
  Registry.making core config.mailboxReserve part.counter part.registry ++
    [Happening.acted (.newEngine ⟨core, mode, config, part.registry⟩) part.engine]

def making (config : Config) : UInt32 → List Mode → List Part → List Happening
  | first, mode :: modes, part :: parts =>
      part.making config ⟨first⟩ mode ++ making config (first + 1) modes parts
  | _, _, _ => []

end Table

namespace Engine

variable (engine : Ref .engine)

def refusal (shape : EngineShape) : List Happening :=
  [.acted (.engine engine .shape) shape, .acted (.engine engine .enter) true]

/-- An entry that puts the flag up. -/
def passing (shape : EngineShape) : List Happening :=
  [.acted (.engine engine .shape) shape, .acted (.engine engine .enter) false]

/-- An entry of the right core, up to the point where the mode of the engine matters. -/
def arrival (shape : EngineShape) : List Happening :=
  passing engine shape ++
    [Happening.acted (.engine engine .context) none, .answered .currentCore (.ok shape.core)]

abbrev startsUp (shape : EngineShape) : Bool :=
  decide (shape.core = shape.config.bootstrapCore)

abbrev contextShape (shape : EngineShape) (manager : ManagerRef) : ContextShape :=
  ⟨shape.core, startsUp shape, shape.config.admission, shape.registry, manager⟩

/-- The ways of an entry. -/
inductive Path : List Happening → Prop
  | refused (shape : EngineShape) : Path (refusal engine shape)
  | doubled (shape : EngineShape) (context : Ref .context) :
      Path (passing engine shape ++ [Happening.acted (.engine engine .context) (some context)])
  | astray (shape : EngineShape) (located : Except Failure CoreId)
      (hlocated : located ≠ .ok shape.core) :
      Path (passing engine shape ++
        [Happening.acted (.engine engine .context) none, .answered .currentCore located])
  | idle (shape : EngineShape) (hmode : shape.mode ≠ .execution) : Path (arrival engine shape)
  | served (shape : EngineShape) (context : Ref .context) (hmode : shape.mode = .execution) :
      Path (arrival engine shape ++
        [Happening.acted (.engine engine .claimContext) (.ready context)])
  | failed (shape : EngineShape) (cause : Failure) (hmode : shape.mode = .execution) :
      Path (arrival engine shape ++
        [Happening.acted (.engine engine .claimContext) .granted,
         .answered (.createManager shape.core (startsUp shape)) (.error cause),
         .acted (.engine engine .abandonContext) ()])
  | built (shape : EngineShape) (manager : ManagerRef) (context : Ref .context)
      (hmode : shape.mode = .execution) :
      Path (arrival engine shape ++
        [Happening.acted (.engine engine .claimContext) .granted,
         .answered (.createManager shape.core (startsUp shape)) (.ok manager),
         .acted (.newContext (contextShape shape manager)) context,
         .acted (.engine engine (.fillContext context)) ()])

end Engine

namespace Operation

open Registry Table

/-- The complete courses of an operation. -/
def Path : Operation → List Happening → Prop
  | makeCounter first, path => ∃ counter, path = [.acted (.newCounter ⟨first⟩) counter]
  | claimSerial counter, path => ∃ serial, path = [claimed counter serial]
  | makeRegistry core reserve, path =>
      ∃ counter registry, path = Registry.making core reserve counter registry
  | create registry, path => ∃ shape serial mailbox thread length,
      path = creation registry shape serial mailbox thread length
  | takeStaged registry, path => path = [.acted (.registry registry .peek) (0 : Nat)] ∨
      ∃ (count : Nat) (staged : Array (Ref .thread)), count ≠ 0 ∧
        path = .acted (.registry registry .peek) count :: taking registry staged
  | takeStagedLocked registry, path => ∃ staged, path = taking registry staged
  | buildTable config modes, path => ∃ parts : List Part, parts.length = modes.length ∧
      path = Table.making config 0 modes parts
  | enter engine, path => Engine.Path engine path
  | _, path => path = []

/-- An operation can have come so far. -/
def Begins (operation : Operation) (made : List Happening) : Prop :=
  ∃ path, operation.Path path ∧ made <+: path

/-- An operation that has come so far can go on.  An entry that is refused does nothing more. -/
def Proceeds : Operation → List Happening → Prop
  | enter engine, made => .acted (.engine engine .enter) true ∉ made
  | _, _ => True

/-- How an operation ends that has come so far.  One that returns a value has come to the end of
its path, and has made what it returns. -/
def Ends : (operation : Operation) → List Happening → Except Failure operation.Reply → Prop
  | claimSerial counter, made, .ok serial => made = [claimed counter serial]
  | makeRegistry core reserve, made, .ok registry =>
      ∃ counter, made = Registry.making core reserve counter registry
  | create registry, made, .ok thread => ∃ shape serial mailbox length,
      made = creation registry shape serial mailbox thread length
  | takeStaged registry, made, .ok staged =>
      (made = [.acted (.registry registry .peek) (0 : Nat)] ∧ staged = #[]) ∨
        ∃ count : Nat, count ≠ 0 ∧
          made = .acted (.registry registry .peek) count :: taking registry staged
  | takeStagedLocked registry, made, .ok staged => made = taking registry staged
  | buildTable config modes, made, .ok table => ∃ parts : List Part,
      parts.length = modes.length ∧ made = Table.making config 0 modes parts ∧
        table.engines.toList = parts.map (·.engine)
  | enter engine, made, result => ∀ shape, made = Engine.refusal engine shape →
      result = .error (.violation (.enteredTwice shape.core))
  | _, _, _ => True

variable {operation : Operation} {happening : Happening} {topic : Topic}

theorem marks_of_topic (htopic : happening.topic? = some topic) (hmem : topic ∈ operation.traits) :
    operation.marks happening = true := by
  rw [marks, htopic, Option.any_some, decide_eq_true_eq]
  exact hmem

theorem not_marks_of_topic (htopic : happening.topic? = some topic)
    (hnot : topic ∉ operation.traits) : operation.marks happening = false := by
  rw [marks, htopic, Option.any_some, decide_eq_false_iff_not]
  exact hnot

theorem counter_not_mem_traits (operation : Operation) : .counter ∉ operation.traits := by
  cases operation <;> simp [traits]

theorem claim_mem_traits (operation : Operation) : .claim ∈ operation.traits := by
  cases operation <;> simp [traits]

theorem outfit_mem_traits (operation : Operation) : .outfit ∈ operation.traits := by
  cases operation <;> simp [traits]

theorem record_mem_traits (operation : Operation) : .record ∈ operation.traits := by
  cases operation <;> simp [traits]

theorem entry_mem_traits (operation : Operation) : .entry ∈ operation.traits := by
  cases operation <;> simp [traits]

theorem Begins.mono {made path : List Happening} (hbegins : operation.Begins path)
    (hmade : made <+: path) : operation.Begins made := by
  obtain ⟨complete, hcomplete, hpath⟩ := hbegins
  exact ⟨complete, hcomplete, hmade.trans hpath⟩

end Operation

/-- An operation, and how far it has come. -/
structure Course where
  operation : Operation
  made : List Happening

namespace Course

def along (course : Course) (path : List Happening) : Course :=
  { course with made := course.made ++ path }

def observe (course : Course) (happening : Happening) : Course :=
  course.along ([happening].filter course.operation.marks)

/-- The course can go on along a path. -/
structure Leads (course : Course) (path : List Happening) : Prop where
  proceeds : course.operation.Proceeds course.made
  begins : course.operation.Begins (course.made ++ path)

end Course

/-- The discipline of courses. -/
def coursing : Discipline Course where
  start operation := ⟨operation, []⟩
  observe := Course.observe
  Allows course happening := course.Leads ([happening].filter course.operation.marks)
  Presumes _ _ := True
  Enters procedure course :=
    match procedure with
    | .claimSerial counter _ => ∀ serial, course.Leads [claimed counter serial]
    | _ => course.Leads [] ∧ ∀ topic ∈ procedure.topics, topic ∉ course.operation.traits
  Leaves procedure course later result :=
    match procedure with
    | .claimSerial counter _ =>
        ∃ serial : UInt64, result = .ok serial ∧ later = course.along [claimed counter serial]
    | _ => later = course
  Returns operation course result :=
    course.operation = operation ∧ operation.Ends course.made result

namespace Course

variable {course : Course} {path path' : List Happening} {happening : Happening}

@[simp]
theorem along_nil (course : Course) : course.along [] = course := by
  simp [along]

@[simp]
theorem along_along (course : Course) (path path' : List Happening) :
    (course.along path).along path' = course.along (path ++ path') := by
  simp [along]

theorem Leads.mono (hleads : course.Leads path) (hpath : path' <+: path) : course.Leads path' where
  proceeds := hleads.proceeds
  begins := hleads.begins.mono ((List.prefix_append_right_inj course.made).mpr hpath)

theorem Leads.rest (hleads : course.Leads (path ++ path'))
    (hproceeds : course.operation.Proceeds (course.made ++ path)) :
    (course.along path).Leads path' where
  proceeds := hproceeds
  begins := by
    rw [along, List.append_assoc]
    exact hleads.begins

theorem aside (hmarks : course.operation.marks happening = false) (hleads : course.Leads []) :
    coursing.Allows course happening ∧ coursing.observe course happening = course := by
  simp [coursing, observe, hmarks, hleads]

theorem ahead (hmarks : course.operation.marks happening = true)
    (hleads : course.Leads [happening]) :
    coursing.Allows course happening ∧
      coursing.observe course happening = course.along [happening] := by
  simp [coursing, observe, hmarks, hleads]

end Course

section
variable {α : Type} {course : Course} {topics : List Topic}
  {post : Course → Except Failure α → Prop}

theorem marks_of_shows {happening : Happening} (hshows : happening.Shows topics)
    (htopics : ∀ topic ∈ topics, topic ∉ course.operation.traits) :
    course.operation.marks happening = false := by
  cases happening with
  | called procedure => rfl
  | _ =>
      rw [Operation.marks, Option.any_eq_false]
      intro topic htopic
      simpa using htopics topic (hshows topic htopic)

/-- A program without marked steps leaves the course where it is. -/
theorem aside_coursing {program : Program α} (hprogram : program.Within (Happening.Shows topics))
    (htopics : ∀ topic ∈ topics, topic ∉ course.operation.traits) (hleads : course.Leads []) :
    program.Ensures coursing course fun later _ => later = course := by
  refine hprogram.ensures ?_ ?_ ?_
  · rfl
  · rintro _ happening rfl hshows
    exact Course.aside (marks_of_shows hshows htopics) hleads
  · intro procedure state hstate hshows
    obtain rfl : course = state := hstate.symm
    have htraits : ∀ topic ∈ procedure.topics, topic ∉ course.operation.traits :=
      fun topic htopic => htopics topic (hshows htopic)
    cases procedure with
    | claimSerial counter seen =>
        exact absurd course.operation.claim_mem_traits (htraits _ (by simp))
    | runLoop context => exact ⟨⟨hleads, htraits⟩, fun _ _ hlater => hlater⟩
    | idle => exact ⟨⟨hleads, htraits⟩, fun _ _ hlater => hlater⟩

/-- A program without marked steps, and what follows it. -/
theorem aside_bind {β : Type} {program : Program β} {next : β → Program α}
    (hprogram : program.Within (Happening.Shows topics))
    (htopics : ∀ topic ∈ topics, topic ∉ course.operation.traits) (hleads : course.Leads [])
    (hfails : ∀ failure, post course (.error failure))
    (hnext : ∀ value, (next value).Ensures coursing course post) :
    (program >>= next).Ensures coursing course post := by
  apply (aside_coursing hprogram htopics hleads).bind
  · rintro _ value rfl
    exact hnext value
  · rintro _ failure rfl
    exact hfails failure

theorem aside_perform_bind {action : Action} {next : action.Answer → Program α}
    (hmarks : ∀ answer, course.operation.marks (.acted action answer) = false)
    (hleads : course.Leads []) (hnext : ∀ answer, (next answer).Ensures coursing course post) :
    Program.Ensures coursing (Program.perform action >>= next) course post := by
  rw [Program.ensures_bind]
  intro answer _
  obtain ⟨hallows, hobserve⟩ := Course.aside (hmarks answer) hleads
  refine ⟨hallows, ?_⟩
  rw [hobserve]
  exact hnext answer

theorem aside_report_bind {event : TraceEvent} {next : Unit → Program α} (hleads : course.Leads [])
    (hnext : (next ()).Ensures coursing course post) :
    (Program.report event >>= next).Ensures coursing course post := by
  rw [Program.ensures_bind]
  intro _
  have hmarks : course.operation.marks (.reported event) = false := rfl
  obtain ⟨hallows, hobserve⟩ := Course.aside hmarks hleads
  refine ⟨hallows, ?_⟩
  rw [hobserve]
  exact hnext

/-- A marked action, and what follows it. -/
theorem ahead_bind {action : Action} {next : action.Answer → Program α}
    (hmarks : ∀ answer, course.operation.marks (.acted action answer) = true)
    (hleads : ∀ answer, course.Leads [.acted action answer])
    (hnext : ∀ answer, (next answer).Ensures coursing (course.along [.acted action answer]) post) :
    Program.Ensures coursing (Program.perform action >>= next) course post := by
  rw [Program.ensures_bind]
  intro answer _
  obtain ⟨hallows, hobserve⟩ := Course.ahead (hmarks answer) (hleads answer)
  refine ⟨hallows, ?_⟩
  rw [hobserve]
  exact hnext answer

theorem ahead_perform {action : Action} {post : Course → Except Failure action.Answer → Prop}
    (hmarks : ∀ answer, course.operation.marks (.acted action answer) = true)
    (hleads : ∀ answer, course.Leads [.acted action answer])
    (hpost : ∀ answer, post (course.along [.acted action answer]) (.ok answer)) :
    Program.Ensures coursing (Program.perform action) course post := by
  intro answer _
  obtain ⟨hallows, hobserve⟩ := Course.ahead (hmarks answer) (hleads answer)
  refine ⟨hallows, ?_⟩
  rw [hobserve]
  exact hpost answer

/-- A marked section: the body comes in between the two steps on the lock. -/
theorem ahead_locked {lock : Lock} {body : Program α} (hlock : lock.topic ∈ course.operation.traits)
    (hacquire : course.Leads [.acted (.acquire lock) ()])
    (hbody : body.Ensures coursing (course.along [.acted (.acquire lock) ()]) fun inside result =>
      inside.operation = course.operation ∧ inside.Leads [.acted (.release lock) ()] ∧
        post (inside.along [.acted (.release lock) ()]) result) :
    (Program.locked lock body).Ensures coursing course post := by
  rw [Program.ensures_locked]
  intro _
  obtain ⟨hallows, hobserve⟩ := Course.ahead (Operation.marks_of_topic rfl hlock) hacquire
  refine ⟨hallows, ?_⟩
  rw [hobserve]
  apply hbody.mono
  rintro inside result ⟨hoperation, hrelease, hpost⟩ _
  have hlock' : lock.topic ∈ inside.operation.traits := hoperation ▸ hlock
  obtain ⟨hallows, hobserve⟩ := Course.ahead (Operation.marks_of_topic rfl hlock') hrelease
  refine ⟨hallows, ?_⟩
  rwa [hobserve]

end

end CoreEngines
