import CoreEngines.Proofs.Admission.Intakes

/-!
Laps.  A context that runs its manager admits what is staged, asks whether there is anything to run,
and then goes round: a quantum, and an admission if every quantum is to have one, until the manager
exits.
-/

namespace CoreEngines

def Callback.isCall : Callback → Bool
  | schedule _ _ _ | hasThreads _ | runQuantum _ | currentThread _ => true
  | _ => false

/-- The call of a manager that a step has made, -/
def Happening.call? : Happening → Option Callback
  | .answered callback _ => if callback.isCall then some callback else none
  | _ => none

/-- and how a quantum has ended. -/
def Happening.quantum? : Happening → Option Quantum
  | .answered (.runQuantum _) (.ok quantum) => some quantum
  | _ => none

def Happening.ready? : Happening → Option Bool
  | .answered (.hasThreads _) (.ok ready) => some ready
  | _ => none

/-- What a look at a registry for staged threads has found: none, when no thread was ever published,
and else all that it has drained. -/
def Happening.found? (target : Ref .registry) : Happening → Option (List (Ref .thread))
  | .acted (.registry registry .detach) threads =>
      if registry = target then some threads.toList else none
  | .acted (.registry registry .peek) count =>
      if registry = target ∧ count = (0 : Nat) then some [] else none
  | _ => none

/-- The calls of managers in a story, -/
def callsIn (story : List Happening) : List Callback :=
  story.filterMap Happening.call?

/-- the quanta, -/
def quantaIn (story : List Happening) : List Quantum :=
  story.filterMap Happening.quantum?

/-- what managers have said of their threads, -/
def readyIn (story : List Happening) : List Bool :=
  story.filterMap Happening.ready?

/-- and the looks for staged threads. -/
def looksIn (target : Ref .registry) (story : List Happening) : List (List (Ref .thread)) :=
  story.filterMap (·.found? target)

section
variable (early late : List Happening)

@[simp]
theorem callsIn_append : callsIn (early ++ late) = callsIn early ++ callsIn late :=
  List.filterMap_append

@[simp]
theorem quantaIn_append : quantaIn (early ++ late) = quantaIn early ++ quantaIn late :=
  List.filterMap_append

@[simp]
theorem looksIn_append (target : Ref .registry) :
    looksIn target (early ++ late) = looksIn target early ++ looksIn target late :=
  List.filterMap_append

end

namespace Context

def turn (context : Ref .context) (shape : ContextShape) (quantum : Quantum) : List Happening :=
  [.called (.runLoop context), .acted (.context context .shape) shape,
    .answered (.runQuantum shape.manager) (.ok quantum)]

/-- A quantum after which the manager goes on, with the admission that follows it if there is one:
the threads that it has admitted, and its story. -/
inductive Lap (context : Ref .context) (shape : ContextShape) :
    List (Ref .thread) → List Happening → Prop
  | plain (hadmission : shape.admission = .startup) :
      Lap context shape [] (turn context shape .proceed)
  | admitting {threads : List (Ref .thread)} {story : List Happening} {count : Nat}
      (hadmission : shape.admission = .everyQuantum)
      (hintake : Intake context shape threads story (.ok count)) :
      Lap context shape threads (turn context shape .proceed ++ story)

/-- Laps one after the other. -/
inductive Laps (context : Ref .context) (shape : ContextShape) :
    List (List (Ref .thread)) → List Happening → Prop
  | nil : Laps context shape [] []
  | cons {threads : List (Ref .thread)} {rounds : List (List (Ref .thread))}
      {lap story : List Happening} (hlap : Lap context shape threads lap)
      (hlaps : Laps context shape rounds story) :
      Laps context shape (threads :: rounds) (lap ++ story)

/-- What a loop has done since its last lap: it is on its way to the next quantum, or the quantum
has failed, or it is in the admission after the quantum, and may have failed there. -/
inductive Underway (context : Ref .context) (shape : ContextShape) : List Happening → Prop
  | calling {story : List Happening}
      (hbegun : story <+: [.called (.runLoop context), .acted (.context context .shape) shape]) :
      Underway context shape story
  | failing (failure : Failure) :
      Underway context shape [.called (.runLoop context), .acted (.context context .shape) shape,
        .answered (.runQuantum shape.manager) (.error failure)]
  | admitting {story : List Happening} {left : Program Nat}
      (hadmission : shape.admission = .everyQuantum)
      (hreaches : (admitStaged context).Reaches story left)
      (hleft : ∀ count, left ≠ .done (.ok count)) :
      Underway context shape (turn context shape .proceed ++ story)

/-- What a run of a manager that has threads has done since it was told so, when the manager has
not exited: it has gone through whole laps, and is underway in the next one. -/
inductive Pending (context : Ref .context) (shape : ContextShape) :
    List (List (Ref .thread)) → List Happening → Prop
  | ready : Pending context shape [] []
  | looping {rounds : List (List (Ref .thread))} {laps story : List Happening}
      (hlaps : Laps context shape rounds laps) (hunderway : Underway context shape story) :
      Pending context shape rounds
        (.reported (.loopStarted shape.core shape.admission) :: (laps ++ story))

/-- How a run of a manager begins: what is staged is admitted, and the manager is asked whether it
has threads. -/
def opening (context : Ref .context) (shape : ContextShape) (intake : List Happening)
    (ready : Bool) : List Happening :=
  intake ++ [.acted (.context context .shape) shape,
    .answered (.hasThreads shape.manager) (.ok ready)]

/-- A run of a manager up to its exit: the threads that it has admitted at first and in each lap,
and its story. -/
inductive Session (context : Ref .context) (shape : ContextShape) (first : List (Ref .thread))
    (rounds : List (List (Ref .thread))) : List Happening → Prop
  | intro {intake laps : List Happening} {count : Nat}
      (hintake : Intake context shape first intake (.ok count))
      (hlaps : Laps context shape rounds laps) :
      Session context shape first rounds (opening context shape intake true ++
        (.reported (.loopStarted shape.core shape.admission) ::
          (laps ++ turn context shape .exit)))

end Context

section
variable {manager : ManagerRef} {threads : List (Ref .thread)} {story : List Happening}
  {context : Ref .context} {shape : ContextShape} {count : Nat}

theorem Registry.Looks.told {target : Ref .registry} (hlooks : Looks target story threads) :
    callsIn story = [] ∧ quantaIn story = [] ∧ looksIn target story = [threads] := by
  cases hlooks with
  | unused => exact ⟨rfl, rfl, by simp [looksIn, Happening.found?]⟩
  | drained hcount batch => exact ⟨rfl, rfl, by simp [looksIn, Happening.found?, hcount]⟩

namespace Context

theorem HandsOver.told (target : Ref .registry) (hhandsOver : HandsOver manager threads story) :
    callsIn story = threads.map (.schedule manager "") ∧ quantaIn story = [] ∧
      looksIn target story = [] := by
  induction hhandsOver with
  | nil => exact ⟨rfl, rfl, rfl⟩
  | cons thread sched id hhandsOver ih =>
      obtain ⟨hcalls, hquanta, hlooks⟩ := ih
      rw [callsIn_append, quantaIn_append, looksIn_append, hcalls, hquanta, hlooks]
      exact ⟨rfl, rfl, rfl⟩

/-- An admission looks once, and calls the manager for each thread that it finds. -/
theorem Intake.told (hintake : Intake context shape threads story (.ok count)) :
    callsIn story = threads.map (.schedule shape.manager "") ∧ quantaIn story = [] ∧
      looksIn shape.registry story = [threads] := by
  cases hintake with
  | @idle looking hlooks =>
      obtain ⟨hcalls, hquanta, hlooked⟩ := hlooks.told
      rw [← List.singleton_append, callsIn_append, quantaIn_append, looksIn_append, hcalls, hquanta,
        hlooked]
      exact ⟨rfl, rfl, rfl⟩
  | @whole threads looking handing hlooks hhandsOver =>
      obtain ⟨hcalls, hquanta, hlooked⟩ := hlooks.told
      obtain ⟨hcalls', hquanta', hlooked'⟩ := hhandsOver.told shape.registry
      rw [← List.singleton_append]
      simp only [callsIn_append, quantaIn_append, looksIn_append, hcalls, hquanta, hlooked, hcalls',
        hquanta', hlooked']
      exact ⟨List.append_nil _, rfl, rfl⟩

def lapCalls (shape : ContextShape) (threads : List (Ref .thread)) : List Callback :=
  .runQuantum shape.manager :: threads.map (.schedule shape.manager "")

theorem turn_told (context : Ref .context) (shape : ContextShape) (target : Ref .registry)
    (quantum : Quantum) :
    callsIn (turn context shape quantum) = [.runQuantum shape.manager] ∧
      quantaIn (turn context shape quantum) = [quantum] ∧
        looksIn target (turn context shape quantum) = [] :=
  ⟨rfl, rfl, rfl⟩

/-- A lap is one quantum and, if every quantum is to have one, one admission. -/
theorem Lap.told (hlap : Lap context shape threads story) :
    callsIn story = lapCalls shape threads ∧ quantaIn story = [.proceed] ∧
      (shape.admission = .startup → threads = [] ∧ looksIn shape.registry story = []) ∧
        (shape.admission = .everyQuantum → looksIn shape.registry story = [threads]) := by
  obtain ⟨hcalls, hquanta, hlooks⟩ := turn_told context shape shape.registry .proceed
  cases hlap with
  | plain hadmission =>
      refine ⟨hcalls, hquanta, fun _ => ⟨rfl, hlooks⟩, fun hevery => ?_⟩
      rw [hadmission] at hevery
      cases hevery
  | admitting hadmission hintake =>
      obtain ⟨hcalls', hquanta', hlooks'⟩ := hintake.told
      rw [callsIn_append, quantaIn_append, looksIn_append, hcalls, hquanta, hlooks, hcalls',
        hquanta', hlooks']
      refine ⟨rfl, rfl, fun hstartup => ?_, fun _ => rfl⟩
      rw [hadmission] at hstartup
      cases hstartup

theorem Lap.length_pos (hlap : Lap context shape threads story) : 0 < story.length := by
  cases hlap <;> simp [turn]

theorem Laps.told {rounds : List (List (Ref .thread))} (hlaps : Laps context shape rounds story) :
    callsIn story = rounds.flatMap (lapCalls shape) ∧
      quantaIn story = List.replicate rounds.length .proceed ∧
        (shape.admission = .startup →
          (∀ threads ∈ rounds, threads = []) ∧ looksIn shape.registry story = []) ∧
          (shape.admission = .everyQuantum → looksIn shape.registry story = rounds) := by
  induction hlaps with
  | nil => exact ⟨rfl, rfl, fun _ => ⟨by simp, rfl⟩, fun _ => rfl⟩
  | cons hlap hlaps ih =>
      obtain ⟨hcalls, hquanta, hstartup, hevery⟩ := hlap.told
      obtain ⟨hcalls', hquanta', hstartup', hevery'⟩ := ih
      rw [callsIn_append, quantaIn_append, looksIn_append, hcalls, hquanta, hcalls', hquanta']
      refine ⟨rfl, rfl, fun hadmission => ?_, fun hadmission => ?_⟩
      · obtain ⟨hnone, hlooks⟩ := hstartup hadmission
        obtain ⟨hnone', hlooks'⟩ := hstartup' hadmission
        rw [hlooks, hlooks']
        exact ⟨List.forall_mem_cons.mpr ⟨hnone, hnone'⟩, rfl⟩
      · rw [hevery hadmission, hevery' hadmission]
        rfl

/-- The calls of a session: an admission, the question whether there are threads, and then quanta
with an admission between any two. -/
def sessionCalls (shape : ContextShape) (first : List (Ref .thread))
    (rounds : List (List (Ref .thread))) : List Callback :=
  first.map (.schedule shape.manager "") ++ .hasThreads shape.manager ::
    (rounds.flatMap (lapCalls shape) ++ [.runQuantum shape.manager])

theorem opening_told {first : List (Ref .thread)} (ready : Bool)
    (hintake : Intake context shape first story (.ok count)) :
    callsIn (opening context shape story ready) =
        first.map (.schedule shape.manager "") ++ [.hasThreads shape.manager] ∧
      quantaIn (opening context shape story ready) = [] ∧
        looksIn shape.registry (opening context shape story ready) = [first] := by
  obtain ⟨hcalls, hquanta, hlooks⟩ := hintake.told
  rw [opening, callsIn_append, quantaIn_append, looksIn_append, hcalls, hquanta, hlooks]
  exact ⟨rfl, rfl, rfl⟩

theorem Session.told {first : List (Ref .thread)} {rounds : List (List (Ref .thread))}
    (hsession : Session context shape first rounds story) :
    callsIn story = sessionCalls shape first rounds ∧
      quantaIn story = List.replicate rounds.length .proceed ++ [.exit] ∧
        (shape.admission = .startup →
          (∀ threads ∈ rounds, threads = []) ∧ looksIn shape.registry story = [first]) ∧
          (shape.admission = .everyQuantum → looksIn shape.registry story = first :: rounds) := by
  cases hsession with
  | @intro intake laps _ hintake hlaps =>
      obtain ⟨hcalls, hquanta, hlooks⟩ := opening_told true hintake
      obtain ⟨hcalls', hquanta', hstartup, hevery⟩ := hlaps.told
      obtain ⟨hlateCalls, hlateQuanta, hlateLooks⟩ := turn_told context shape shape.registry .exit
      rw [← List.singleton_append]
      simp only [callsIn_append, quantaIn_append, looksIn_append, hcalls, hquanta, hlooks, hcalls',
        hquanta', hlateCalls, hlateQuanta, hlateLooks]
      refine ⟨by simp [sessionCalls, callsIn, Happening.call?], rfl, fun hadmission => ?_,
        fun hadmission => ?_⟩
      · obtain ⟨hnone, hlaps⟩ := hstartup hadmission
        rw [hlaps]
        exact ⟨hnone, rfl⟩
      · rw [hevery hadmission, List.append_nil]
        rfl

end Context

end

open Program

namespace Context

variable {context : Ref .context} {shape : ContextShape} {story : List Happening}

theorem Admissive.quantum? {happening : Happening} (hadmissive : Admissive happening) :
    happening.quantum? = none := by
  unfold Happening.quantum?
  split
  · obtain ⟨_, _, _, hschedule⟩ := hadmissive
    cases hschedule
  · rfl

theorem Admissive.ready? {happening : Happening} (hadmissive : Admissive happening) :
    happening.ready? = none := by
  unfold Happening.ready?
  split
  · obtain ⟨_, _, _, hschedule⟩ := hadmissive
    cases hschedule
  · rfl

theorem intake_of_reaches {count : Nat}
    (hshape : ∀ seen, .acted (.context context .shape) seen ∈ story → seen = shape)
    (hreaches : (admitStaged context).Reaches story (.done (.ok count))) :
    ∃ threads, Intake context shape threads story (.ok count) := by
  obtain ⟨seen, threads, hintake⟩ :=
    intake_of_tells ((admitStaged_straight context).tells hreaches)
  obtain rfl := hshape seen hintake.shape_mem
  exact ⟨threads, hintake⟩

/-- A loop goes through a whole lap, or through its last quantum, or is underway in one of them. -/
theorem lap_of_reaches {β : Type} {next : Unit → Program β} {rest : Program β}
    (hshape : ∀ seen, .acted (.context context .shape) seen ∈ story → seen = shape)
    (hreaches : (invoke (.runLoop context) >>= next).Reaches story rest) :
    (∃ late, story = turn context shape .exit ++ late ∧ (next ()).Reaches late rest) ∨
      (∃ threads lap late, Lap context shape threads lap ∧ story = lap ++ late ∧
        (invoke (.runLoop context) >>= next).Reaches late rest) ∨
        Underway context shape story ∧ ∀ value, rest ≠ .done (.ok value) := by
  rcases story with _ | ⟨first, story⟩
  · obtain rfl := reaches_nil.mp hreaches
    exact Or.inr (Or.inr ⟨.calling List.nil_prefix, nofun⟩)
  obtain ⟨rfl, hcode⟩ := reaches_invoke_bind hreaches
  change (loopStep context >>= next).Reaches _ _ at hcode
  rw [loopStep, bind_bind] at hcode
  rcases story with _ | ⟨first, story⟩
  · obtain rfl := reaches_nil.mp hcode
    exact Or.inr (Or.inr ⟨.calling (by simp), nofun⟩)
  obtain ⟨seen, rfl, hquanta⟩ := reaches_perform_bind hcode
  obtain rfl := hshape seen (by simp)
  rw [bind_bind] at hquanta
  rcases story with _ | ⟨first, story⟩
  · obtain rfl := reaches_nil.mp hquanta
    exact Or.inr (Or.inr ⟨.calling List.prefix_rfl, nofun⟩)
  rcases reaches_request_bind hquanta with ⟨quantum, rfl, hrest⟩ | ⟨failure, rfl, rfl, rfl⟩
  swap
  · exact Or.inr (Or.inr ⟨.failing failure, nofun⟩)
  cases quantum with
  | exit => exact Or.inl ⟨story, rfl, hrest⟩
  | proceed =>
      right
      cases hadmission : seen.admission with
      | startup =>
          simp only [hadmission] at hrest
          exact Or.inl ⟨[], turn context seen .proceed, story, .plain hadmission, rfl, hrest⟩
      | everyQuantum =>
          simp only [hadmission, bind_bind] at hrest
          have hlap : ∀ {count early late},
              (admitStaged context).Reaches early (.done (.ok count)) →
                story = early ++ late → ∃ threads, Lap context seen threads
                  (turn context seen .proceed ++ early) := by
            rintro count early late hearly rfl
            obtain ⟨threads, hintake⟩ := intake_of_reaches
              (fun shape hread => hshape shape (by simp [hread])) hearly
            exact ⟨threads, .admitting hadmission hintake⟩
          rcases reaches_bind hrest with
            ⟨left, hleft, rfl⟩ | ⟨early, count, late, hearly, hlate, rfl⟩
          · by_cases hwhole : ∃ count, left = .done (.ok count)
            · obtain ⟨count, rfl⟩ := hwhole
              obtain ⟨threads, hlap⟩ := hlap hleft (List.append_nil _).symm
              exact Or.inl ⟨threads, _, [], hlap, (List.append_nil _).symm, .stay _⟩
            · refine Or.inr
                ⟨.admitting hadmission hleft fun count hdone => hwhole ⟨count, hdone⟩, ?_⟩
              rintro value hdone
              cases left with
              | done result =>
                  cases result with
                  | ok count => exact hwhole ⟨count, rfl⟩
                  | error failure => cases hdone
              | _ => cases hdone
          · obtain ⟨threads, hlap⟩ := hlap hearly rfl
            exact Or.inl ⟨threads, _, late, hlap, by simp [turn], hlate⟩

/-- A loop has made whole laps, until its manager has exited or it is underway.  The induction is on
the length of the story, since each lap ends with a call of the next one. -/
theorem laps_of_reaches {β : Type} {next : Unit → Program β} {rest : Program β}
    (hshape : ∀ seen, .acted (.context context .shape) seen ∈ story → seen = shape)
    (hreaches : (invoke (.runLoop context) >>= next).Reaches story rest) :
    ∃ rounds laps late, Laps context shape rounds laps ∧ story = laps ++ late ∧
      ((∃ last, late = turn context shape .exit ++ last ∧ (next ()).Reaches last rest) ∨
        Underway context shape late ∧ ∀ value, rest ≠ .done (.ok value)) := by
  induction hlength : story.length using Nat.strongRecOn generalizing story with
  | _ length ih =>
      rcases lap_of_reaches hshape hreaches with
        hlast | ⟨threads, lap, story, hlap, rfl, hmore⟩ | hunderway
      · exact ⟨[], [], story, .nil, rfl, Or.inl hlast⟩
      · have hshorter : story.length < length := by
          rw [← hlength, List.length_append]
          exact Nat.lt_add_of_pos_left hlap.length_pos
        obtain ⟨rounds, laps, late, hlaps, rfl, hlate⟩ := ih story.length hshorter
          (fun seen hread => hshape seen (List.mem_append_right _ hread)) hmore rfl
        exact ⟨threads :: rounds, lap ++ laps, late, .cons hlap hlaps,
          (List.append_assoc ..).symm, hlate⟩
      · exact ⟨[], [], story, .nil, rfl, Or.inr hunderway⟩

/-- A run that has heard from its manager whether it has threads has made its admission before, and
goes on as it was told. -/
theorem opening_of_reaches {rest : Program Unit}
    (hshape : ∀ seen, .acted (.context context .shape) seen ∈ story → seen = shape)
    (hreaches : (run context).Reaches story rest)
    (hsaid : ∃ happening ∈ story, happening.ready?.isSome ∨ happening.quantum?.isSome) :
    ∃ (first : List (Ref .thread)) (intake late : List Happening) (count : Nat) (ready : Bool),
      Intake context shape first intake (.ok count) ∧ (∀ happening ∈ intake, Admissive happening) ∧
        story = opening context shape intake ready ++ late ∧
          (if ready then do
            report (.loopStarted shape.core shape.admission)
            invoke (.runLoop context)
            report (.loopFinished shape.core)
          else raise (.nothingToRun shape.core) : Program Unit).Reaches late rest := by
  obtain ⟨happening, hmem, hheard⟩ := hsaid
  have hnot : ¬ Admissive happening := by
    intro hadmissive
    rw [hadmissive.ready?, hadmissive.quantum?] at hheard
    simp at hheard
  rw [run] at hreaches
  rcases reaches_bind hreaches with ⟨left, hleft, _⟩ | ⟨intake, count, late, hintake, hlate, rfl⟩
  · exact absurd (admissive_of_reaches hleft happening hmem) hnot
  have hmem := (List.mem_append.mp hmem).resolve_left fun hmem =>
    hnot (admissive_of_reaches hintake happening hmem)
  obtain ⟨threads, hthreads⟩ := intake_of_reaches
    (fun seen hread => hshape seen (List.mem_append_left _ hread)) hintake
  obtain ⟨looked, late, rfl⟩ := List.exists_cons_of_ne_nil (List.ne_nil_of_mem hmem)
  obtain ⟨seen, rfl, hasks⟩ := reaches_perform_bind hlate
  obtain rfl := hshape seen (by simp)
  rcases List.mem_cons.mp hmem with rfl | hmem
  · simp [Happening.ready?, Happening.quantum?] at hheard
  obtain ⟨answered, late, rfl⟩ := List.exists_cons_of_ne_nil (List.ne_nil_of_mem hmem)
  rcases reaches_request_bind hasks with ⟨ready, rfl, hrest⟩ | ⟨failure, rfl, rfl, _⟩
  · exact ⟨threads, intake, late, count, ready, hthreads, admissive_of_reaches hintake,
      by simp [opening], hrest⟩
  · obtain rfl := List.mem_singleton.mp hmem
    simp [Happening.ready?, Happening.quantum?] at hheard

theorem Underway.quanta (hunderway : Underway context shape story) :
    ∀ quantum ∈ quantaIn story, quantum = .proceed := by
  cases hunderway with
  | calling hbegun =>
      have hnone : quantaIn story = [] :=
        List.sublist_nil.mp (hbegun.sublist.filterMap Happening.quantum?)
      simp [hnone]
  | failing failure => simp [quantaIn, Happening.quantum?]
  | @admitting story _ _ hreaches _ =>
      have hnone : quantaIn story = [] := List.filterMap_eq_nil_iff.mpr fun happening hmem =>
        (admissive_of_reaches hreaches happening hmem).quantum?
      rw [quantaIn_append, hnone, (turn_told context shape shape.registry .proceed).2.1]
      simp

theorem Pending.quanta {rounds : List (List (Ref .thread))}
    (hpending : Pending context shape rounds story) :
    ∀ quantum ∈ quantaIn story, quantum = .proceed := by
  cases hpending with
  | ready => simp [quantaIn]
  | @looping _ laps story hlaps hunderway =>
      intro quantum hmem
      rw [← List.singleton_append, quantaIn_append, quantaIn_append, hlaps.told.2.1] at hmem
      rcases List.mem_append.mp hmem with hmem | hmem
      · cases hmem
      · exact (List.mem_append.mp hmem).elim List.eq_of_mem_replicate (hunderway.quanta quantum)

/-- A run whose manager has threads is pending, and has not come to its end otherwise than by a
failure, or its manager has exited. -/
theorem pending_of_reaches {rest : Program Unit}
    (hshape : ∀ seen, .acted (.context context .shape) seen ∈ story → seen = shape)
    (hreaches : (do
      report (.loopStarted shape.core shape.admission)
      invoke (.runLoop context)
      report (.loopFinished shape.core) : Program Unit).Reaches story rest) :
    (∃ rounds laps last, Laps context shape rounds laps ∧
      story = .reported (.loopStarted shape.core shape.admission) ::
        (laps ++ (turn context shape .exit ++ last)) ∧
          (report (.loopFinished shape.core)).Reaches last rest) ∨
      (∃ rounds, Pending context shape rounds story) ∧ ∀ value, rest ≠ .done (.ok value) := by
  rcases story with _ | ⟨first, story⟩
  · obtain rfl := reaches_nil.mp hreaches
    exact Or.inr ⟨⟨[], .ready⟩, nofun⟩
  obtain ⟨rfl, hloop⟩ := reaches_report_bind hreaches
  obtain ⟨rounds, laps, late, hlaps, rfl, ⟨last, rfl, hlast⟩ | ⟨hunderway, hrest⟩⟩ :=
    laps_of_reaches (fun seen hread => hshape seen (List.mem_cons_of_mem _ hread)) hloop
  · exact Or.inl ⟨rounds, laps, last, hlaps, rfl, hlast⟩
  · exact Or.inr ⟨⟨rounds, .looping hlaps hunderway⟩, hrest⟩

/-- A run whose manager has exited has told a session, and says at most that it is over. -/
theorem session_of_reaches {rest : Program Unit}
    (hshape : ∀ seen, .acted (.context context .shape) seen ∈ story → seen = shape)
    (hreaches : (run context).Reaches story rest)
    (hexit : ∃ happening ∈ story, happening.quantum? = some .exit) :
    ∃ first rounds session late, Session context shape first rounds session ∧
      story = session ++ late ∧ (report (.loopFinished shape.core)).Reaches late rest := by
  obtain ⟨happening, hmem, hquantum⟩ := hexit
  obtain ⟨first, intake, late, count, ready, hintake, _, rfl, hlate⟩ :=
    opening_of_reaches hshape hreaches ⟨happening, hmem, Or.inr (by simp [hquantum])⟩
  have hlater := (List.mem_append.mp hmem).resolve_left fun hmem => by
    have hnone := (opening_told ready hintake).2.1
    have hquantum' := List.filterMap_eq_nil_iff.mp hnone happening hmem
    rw [hquantum] at hquantum'
    cases hquantum'
  cases ready with
  | false =>
      obtain ⟨rfl, _⟩ := reaches_done.mp hlate
      cases hlater
  | true =>
      rcases
          pending_of_reaches (fun seen hread => hshape seen (List.mem_append_right _ hread)) hlate
        with ⟨rounds, laps, last, hlaps, rfl, hlast⟩ | ⟨⟨rounds, hpending⟩, _⟩
      · exact ⟨first, rounds, _, last, .intro hintake hlaps, by simp, hlast⟩
      · cases hpending.quanta .exit (List.mem_filterMap.mpr ⟨happening, hlater, hquantum⟩)

/-- In the loop nobody asks whether there are threads. -/
def Looping : Happening → Prop
  | .called procedure => ∃ context, procedure = .runLoop context
  | happening => happening.ready? = none

theorem Admissive.looping {happening : Happening} (hadmissive : Admissive happening) :
    Looping happening := by
  unfold Looping
  split
  · exact hadmissive.elim
  · exact hadmissive.ready?

theorem runLoop_looping (context : Ref .context) : (invoke (.runLoop context)).Within Looping :=
  Within.invoke ⟨context, rfl⟩

theorem loopStep_looping (context : Ref .context) : (loopStep context).Within Looping := by
  refine Within.bind (Within.perform fun _ => rfl) fun (shape : ContextShape) => ?_
  refine Within.bind (Within.request fun _ => rfl) fun quantum => ?_
  cases quantum with
  | exit => exact Within.pure _
  | proceed =>
      dsimp only
      split
      · exact runLoop_looping context
      · have hadmits := (admitStaged_admissive context).mono fun _ => Admissive.looping
        exact Within.bind hadmits fun _ => runLoop_looping context

/-- A run that was told whether there are threads does not ask again. -/
theorem unasked_of_reaches {ready : Bool} {rest : Program Unit}
    (hreaches : (if ready then do
        report (.loopStarted shape.core shape.admission)
        invoke (.runLoop context)
        report (.loopFinished shape.core)
      else raise (.nothingToRun shape.core) : Program Unit).Reaches story rest) :
    readyIn story = [] := by
  refine List.filterMap_eq_nil_iff.mpr fun happening hmem => ?_
  cases ready with
  | false =>
      obtain ⟨rfl, _⟩ := reaches_done.mp hreaches
      cases hmem
  | true =>
      have hloop : (do
          report (.loopStarted shape.core shape.admission)
          invoke (.runLoop context)
          report (.loopFinished shape.core) : Program Unit).Within Looping :=
        Within.bind (Within.report rfl) fun _ =>
          Within.bind (runLoop_looping context) fun _ => Within.report rfl
      have hcode : ∀ procedure, Looping (.called procedure) → procedure.code.Within Looping := by
        rintro _ ⟨context, rfl⟩
        exact loopStep_looping context
      have hlooping := (hloop.of_reaches hcode hreaches).2 happening hmem
      unfold Looping at hlooping
      split at hlooping
      · rfl
      · exact hlooping

theorem opening_ready {intake : List Happening} (ready : Bool)
    (hadmissive : ∀ happening ∈ intake, Admissive happening) :
    readyIn (opening context shape intake ready) = [ready] := by
  have hnone : readyIn intake = [] :=
    List.filterMap_eq_nil_iff.mpr fun happening hmem => (hadmissive happening hmem).ready?
  rw [readyIn] at hnone ⊢
  rw [opening, List.filterMap_append, hnone]
  rfl

/-- A run that was told whether there are threads was told it at the end of its opening. -/
theorem opening_of_ready {ready : Bool} {rest : Program Unit}
    (hshape : ∀ seen, .acted (.context context .shape) seen ∈ story → seen = shape)
    (hreaches : (run context).Reaches story rest) (hready : ready ∈ readyIn story) :
    ∃ (first : List (Ref .thread)) (intake late : List Happening) (count : Nat),
      Intake context shape first intake (.ok count) ∧
        story = opening context shape intake ready ++ late ∧ readyIn story = [ready] ∧
          (if ready then do
            report (.loopStarted shape.core shape.admission)
            invoke (.runLoop context)
            report (.loopFinished shape.core)
          else raise (.nothingToRun shape.core) : Program Unit).Reaches late rest := by
  obtain ⟨happening, hmem, hheard⟩ := List.mem_filterMap.mp hready
  obtain ⟨first, intake, late, count, told, hintake, hadmissive, rfl, hlate⟩ :=
    opening_of_reaches hshape hreaches ⟨happening, hmem, Or.inl (by simp [hheard])⟩
  have hone : readyIn (opening context shape intake told ++ late) = [told] := by
    rw [readyIn, List.filterMap_append, ← readyIn, ← readyIn, opening_ready told hadmissive,
      unasked_of_reaches hlate, List.append_nil]
  rw [hone] at hready
  obtain rfl := List.mem_singleton.mp hready
  exact ⟨first, intake, late, count, hintake, rfl, hone, hlate⟩

/-- A run whose manager has no threads unwinds, and has called nothing since. -/
theorem turned_of_reaches {rest : Program Unit}
    (hshape : ∀ seen, .acted (.context context .shape) seen ∈ story → seen = shape)
    (hreaches : (run context).Reaches story rest) (hnone : false ∈ readyIn story) :
    ∃ (first : List (Ref .thread)) (intake : List Happening) (count : Nat),
      Intake context shape first intake (.ok count) ∧
        story = opening context shape intake false ∧
          rest = .done (.error (.violation (.nothingToRun shape.core))) := by
  obtain ⟨first, intake, late, count, hintake, rfl, _, hlate⟩ :=
    opening_of_ready hshape hreaches hnone
  obtain ⟨rfl, rfl⟩ := reaches_done.mp hlate
  exact ⟨first, intake, count, hintake, List.append_nil _, rfl⟩

end Context

end CoreEngines
