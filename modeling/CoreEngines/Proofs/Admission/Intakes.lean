import CoreEngines.Proofs.Chronicles

/-!
Intakes.  One admission step of a context looks at its registry, hands what it finds to the manager
and binds each thread to the answer, before the next one; there is nothing else that it can do.
-/

namespace CoreEngines

/-- A look at a registry, and the threads that it finds: none, while no thread was ever published
there, and else those that it drains. -/
inductive Registry.Looks (target : Ref .registry) : List Happening → List (Ref .thread) → Prop
  | unused : Looks target [.acted (.registry target .peek) (0 : Nat)] []
  | drained {count : Nat} (hcount : count ≠ 0) (threads : Array (Ref .thread)) :
      Looks target
        [.acted (.registry target .peek) count, .acted (.acquire (.roster target)) (),
          .acted (.registry target .detach) threads, .acted (.release (.roster target)) ()]
        threads.toList

namespace Context

/-- Handing one thread over: the manager answers a name, which the thread is bound to. -/
def handOver (manager : ManagerRef) (thread : Ref .thread) (sched : SchedRef) (id : ThreadId) :
    List Happening :=
  [.answered (.schedule manager "" thread) (.ok sched), .acted (.thread thread .id) id,
    .reported (.threadAdmitted id sched), .acted (.thread thread (.bind sched)) true]

/-- Handing threads over, one after the other. -/
inductive HandsOver (manager : ManagerRef) : List (Ref .thread) → List Happening → Prop
  | nil : HandsOver manager [] []
  | cons {threads : List (Ref .thread)} {story : List Happening} (thread : Ref .thread)
      (sched : SchedRef) (id : ThreadId) (hhandsOver : HandsOver manager threads story) :
      HandsOver manager (thread :: threads) (handOver manager thread sched id ++ story)

/-- How handing over a list of threads ends: with all of them, or with the first on which the
manager fails or that has a name already. -/
inductive Handing (manager : ManagerRef) :
    List (Ref .thread) → List Happening → Except Failure Unit → Prop
  | all {threads : List (Ref .thread)} {story : List Happening}
      (hhandsOver : HandsOver manager threads story) : Handing manager threads story (.ok ())
  | spoiled {admitted rest : List (Ref .thread)} {thread : Ref .thread} {story : List Happening}
      (failure : Failure) (hhandsOver : HandsOver manager admitted story) :
      Handing manager (admitted ++ thread :: rest)
        (story ++ [.answered (.schedule manager "" thread) (.error failure)]) (.error failure)
  | refused {admitted rest : List (Ref .thread)} {thread : Ref .thread} {story : List Happening}
      (sched : SchedRef) (id seen : ThreadId) (hhandsOver : HandsOver manager admitted story) :
      Handing manager (admitted ++ thread :: rest)
        (story ++ [.answered (.schedule manager "" thread) (.ok sched),
          .acted (.thread thread .id) id, .reported (.threadAdmitted id sched),
          .acted (.thread thread (.bind sched)) false, .acted (.thread thread .id) seen])
        (.error (.violation (.admittedTwice seen)))

/-- An admission step of a context: what it finds, what it does, and how it ends. -/
inductive Intake (context : Ref .context) (shape : ContextShape) :
    List (Ref .thread) → List Happening → Except Failure Nat → Prop
  | idle {looking : List Happening} (hlooks : Registry.Looks shape.registry looking []) :
      Intake context shape [] (.acted (.context context .shape) shape :: looking) (.ok 0)
  | whole {threads : List (Ref .thread)} {looking handing : List Happening}
      (hlooks : Registry.Looks shape.registry looking threads)
      (hhandsOver : HandsOver shape.manager threads handing) :
      Intake context shape threads
        (.acted (.context context .shape) shape :: (looking ++ (handing ++
          [.reported (.batchAdmitted shape.core threads.length)]))) (.ok threads.length)
  | broken {threads : List (Ref .thread)} {looking handing : List Happening} {failure : Failure}
      (hlooks : Registry.Looks shape.registry looking threads)
      (hhanding : Handing shape.manager threads handing (.error failure)) :
      Intake context shape threads
        (.acted (.context context .shape) shape :: (looking ++ handing)) (.error failure)

end Context

open Program

section
variable {story : List Happening}

theorem Registry.looks_of_tells {target : Ref .registry}
    {result : Except Failure (Array (Ref .thread))}
    (htells : (takeStaged target).Tells story result) :
    ∃ threads, result = .ok threads ∧ Looks target story threads.toList := by
  rw [takeStaged, tells_perform_bind] at htells
  obtain ⟨count, rest, rfl, htells⟩ := htells
  split at htells
  case isTrue hcount =>
    obtain ⟨rfl, rfl⟩ := (tells_pure _ _ _).mp htells
    cases hcount
    exact ⟨#[], rfl, .unused⟩
  case isFalse hcount =>
    rw [takeStagedLocked, tells_locked] at htells
    obtain ⟨inside, htells, rfl⟩ := htells
    obtain ⟨threads, rfl, rfl⟩ := (tells_perform _ _ _).mp htells
    exact ⟨threads, rfl, .drained hcount threads⟩

namespace Context

variable {manager : ManagerRef} {threads : List (Ref .thread)}

theorem Handing.cons {result : Except Failure Unit} (thread : Ref .thread) (sched : SchedRef)
    (id : ThreadId) (hhanding : Handing manager threads story result) :
    Handing manager (thread :: threads) (handOver manager thread sched id ++ story) result := by
  cases hhanding with
  | all hhandsOver => exact .all (.cons thread sched id hhandsOver)
  | spoiled failure hhandsOver =>
      rw [← List.append_assoc]
      exact .spoiled failure (.cons thread sched id hhandsOver)
  | refused sched' id' seen hhandsOver =>
      rw [← List.append_assoc]
      exact .refused sched' id' seen (.cons thread sched id hhandsOver)

theorem handing_of_tells {result : Except Failure Unit}
    (htells : (admitEach manager threads).Tells story result) :
    Handing manager threads story result := by
  induction threads generalizing story with
  | nil =>
      obtain ⟨rfl, rfl⟩ := (tells_pure _ _ _).mp htells
      exact .all .nil
  | cons thread threads ih =>
      obtain ⟨answer, rest, rfl, htells⟩ := htells
      cases answer with
      | error failure =>
          obtain ⟨rfl, rfl⟩ := htells
          exact .spoiled failure .nil
      | ok sched =>
          obtain ⟨id, rest, rfl, rest, rfl, first, rest, rfl, htells⟩ := htells
          cases first with
          | true => exact (ih htells).cons thread sched id
          | false =>
              obtain ⟨seen, rest, rfl, rfl, rfl⟩ := htells
              exact .refused sched id seen .nil

theorem handsOver_of_tells (htells : (admitEach manager threads).Tells story (.ok ())) :
    HandsOver manager threads story := by
  have hhanding := handing_of_tells htells
  generalize hresult : (Except.ok () : Except Failure Unit) = result at hhanding
  cases hhanding with
  | all hhandsOver => exact hhandsOver
  | _ => cases hresult

theorem Intake.shape_mem {context : Ref .context} {shape : ContextShape}
    {result : Except Failure Nat} (hintake : Intake context shape threads story result) :
    .acted (.context context .shape) shape ∈ story := by
  cases hintake <;> exact List.mem_cons_self

/-- Every story of an admission is that of one intake. -/
theorem intake_of_tells {context : Ref .context} {result : Except Failure Nat}
    (htells : (admitStaged context).Tells story result) :
    ∃ shape threads, Intake context shape threads story result := by
  rw [admitStaged, tells_perform_bind] at htells
  obtain ⟨shape, rest, rfl, htells⟩ := htells
  rw [tells_bind] at htells
  rcases htells with ⟨looking, found, rest, hlooks, htells, rfl⟩ | ⟨failure, hfails, _⟩
  · obtain ⟨_, ⟨⟩, hlooks⟩ := Registry.looks_of_tells hlooks
    split at htells
    case isTrue hempty =>
      obtain rfl : found = #[] := Array.isEmpty_iff.mp hempty
      obtain ⟨rfl, rfl⟩ := (tells_pure _ _ _).mp htells
      rw [List.append_nil]
      exact ⟨shape, [], .idle hlooks⟩
    case isFalse =>
      refine ⟨shape, found.toList, ?_⟩
      rw [tells_bind] at htells
      rcases htells with ⟨handing, _, rest, hhanding, htells, rfl⟩ | ⟨failure, hfails, rfl⟩
      · obtain ⟨rest, rfl, rfl, rfl⟩ := htells
        exact .whole hlooks (handsOver_of_tells hhanding)
      · exact .broken hlooks (handing_of_tells hfails)
  · obtain ⟨_, hok, _⟩ := Registry.looks_of_tells hfails
    cases hok

/-- Whether a step can be one of an admission: it calls no procedure, and no callback but to hand a
thread over. -/
def Admissive : Happening → Prop
  | .called _ => False
  | .answered callback _ => ∃ manager name thread, callback = .schedule manager name thread
  | _ => True

theorem admitEach_admissive (manager : ManagerRef) (threads : List (Ref .thread)) :
    (admitEach manager threads).Within Admissive := by
  induction threads with
  | nil => exact Within.pure _
  | cons thread threads ih =>
      apply Within.bind (Within.request fun _ => ⟨_, _, _, rfl⟩)
      intro sched
      apply Within.bind (Within.perform fun _ => trivial)
      intro id
      apply Within.bind (Within.report trivial)
      intro _
      refine Within.bind (Within.bind (Within.perform fun _ => trivial) fun first => ?_) fun _ => ih
      cases first with
      | true => exact Within.pure _
      | false => exact Within.bind (Within.perform fun _ => trivial) fun _ => Within.raise _

theorem admitStaged_admissive (context : Ref .context) :
    (admitStaged context).Within Admissive := by
  apply Within.bind (Within.perform fun _ => trivial)
  intro shape
  have htake : (Registry.takeStaged shape.registry).Within Admissive := by
    apply Within.bind (Within.perform fun _ => trivial)
    intro count
    split
    · exact Within.pure _
    · exact Within.locked (Within.perform fun _ => trivial) trivial trivial
  apply Within.bind htake
  intro threads
  split
  · exact Within.pure _
  · apply Within.bind (admitEach_admissive _ _)
    exact fun _ => Within.bind (Within.report trivial) fun _ => Within.pure _

theorem admitStaged_straight (context : Ref .context) : (admitStaged context).Straight := by
  apply (admitStaged_admissive context).mono
  rintro happening hadmissive procedure rfl
  exact hadmissive

theorem admissive_of_reaches {context : Ref .context} {rest : Program Nat}
    (hreaches : (admitStaged context).Reaches story rest) :
    ∀ happening ∈ story, Admissive happening :=
  ((admitStaged_admissive context).of_reaches (fun _ hcalled => hcalled.elim) hreaches).2

end Context

end

end CoreEngines
