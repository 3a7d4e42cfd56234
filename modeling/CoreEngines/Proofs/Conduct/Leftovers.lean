import CoreEngines.Proofs.Conduct.Sessions

/-!
Leftovers.  A context that admits threads after every quantum does not do so after the last one,
with which its manager exits.  What is staged then is what was put on record since the admission
before the last quantum.
-/

namespace CoreEngines

namespace Context

section
variable {context : Ref .context} {shape : ContextShape} {threads : List (Ref .thread)}
  {story : List Happening} {count : Nat}

/-- The story goes through a look, after which there are none, and ends with these quanta. -/
def LooksLast (target : Ref .registry) (quanta : List Quantum) (story : List Happening) : Prop :=
  ∃ early happening late found, story = early ++ happening :: late ∧
    happening.found? target = some found ∧ looksIn target late = [] ∧ quantaIn late = quanta

theorem LooksLast.append {target : Ref .registry} {quanta : List Quantum} {late : List Happening}
    (hlast : LooksLast target quanta story) (hlooks : looksIn target late = []) :
    LooksLast target (quanta ++ quantaIn late) (story ++ late) := by
  obtain ⟨early, happening, rest, found, rfl, hfound, hnone, rfl⟩ := hlast
  exact ⟨early, happening, rest ++ late, found, by simp, hfound, by simp [hnone, hlooks], by simp⟩

theorem LooksLast.prepend {target : Ref .registry} {quanta : List Quantum}
    (made : List Happening) (hlast : LooksLast target quanta story) :
    LooksLast target quanta (made ++ story) := by
  obtain ⟨early, happening, late, found, rfl, hlast⟩ := hlast
  exact ⟨made ++ early, happening, late, found, by simp, hlast⟩

theorem Intake.looksLast (hintake : Intake context shape threads story (.ok count)) :
    LooksLast shape.registry [] story := by
  obtain ⟨_, hquanta, hlooks⟩ := hintake.told
  obtain ⟨early, happening, late, rfl, _, hfound, hnone⟩ := List.filterMap_eq_cons_iff.mp hlooks
  rw [quantaIn_append] at hquanta
  have hlate := (List.append_eq_nil_iff.mp hquanta).2
  refine ⟨early, happening, late, threads, rfl, hfound, hnone, ?_⟩
  exact (List.append_eq_nil_iff.mp (quantaIn_append [happening] late ▸ hlate)).2

/-- Laps with admissions end with one. -/
theorem Laps.looksLast {rounds : List (List (Ref .thread))}
    (hlaps : Laps context shape rounds story) (hadmission : shape.admission = .everyQuantum) :
    story = [] ∨ LooksLast shape.registry [] story := by
  induction hlaps with
  | nil => exact Or.inl rfl
  | cons hlap hlaps ih =>
      right
      obtain rfl | hlast := ih
      · rw [List.append_nil]
        cases hlap with
        | plain hstartup =>
            rw [hadmission] at hstartup
            cases hstartup
        | admitting _ hintake => exact hintake.looksLast.prepend _
      · exact hlast.prepend _

/-- After the last look in a session there is only the last quantum. -/
theorem Session.looksLast {first : List (Ref .thread)} {rounds : List (List (Ref .thread))}
    (hsession : Session context shape first rounds story)
    (hadmission : shape.admission = .everyQuantum) :
    LooksLast shape.registry [.exit] story := by
  cases hsession with
  | @intro intake laps _ hintake hlaps =>
      obtain ⟨_, hquanta, hlooks⟩ := turn_told context shape shape.registry .exit
      obtain rfl | hlast := hlaps.looksLast hadmission
      · rw [opening, List.append_assoc]
        exact hintake.looksLast.append rfl
      · have hend := hlast.append hlooks
        rw [hquanta] at hend
        exact (hend.prepend [.reported (.loopStarted shape.core shape.admission)]).prepend _

end

/-- What a context leaves staged that admits threads after every quantum: `look` is the last look
of its operation, which has done `late` since. -/
structure Leaves (shape : ContextShape) (number : Nat) (history : History)
    (look : Registry.Look shape.registry number history) (late : List Happening) : Prop where
  own : (Journal.ofHistory history).own number =
    (Journal.ofHistory look.before).own number ++ look.happening :: late
  looks : looksIn shape.registry late = []
  /-- Only the last quantum comes after the last look. -/
  quanta : quantaIn late = [.exit]
  /-- All that was put on record since is staged, if nobody else has drained the registry, -/
  staged : Registry.DrainedBy shape.registry number history →
    stagedIn shape.registry (history.map Prod.snd) =
      look.missed ++ enrolledIn shape.registry (look.since.map Prod.snd)
  /-- so also the threads that were created meanwhile. -/
  created : Registry.DrainedBy shape.registry number history →
    ∀ {creator made thread}, (Journal.ofHistory look.before).started ≤ creator →
      (Journal.ofHistory history).own creator = .started (.create shape.registry) :: made →
        .finished (.create shape.registry) (.ok thread) ∈ made →
          thread ∈ stagedIn shape.registry (history.map Prod.snd)

theorem leaves_of_run? {count : Nat} {moves : List (Nat × Move)} {machine : Machine}
    {history : History} {number : Nat} {operation : Operation} {story : List Happening}
    (hrun : (Machine.idle {} count).run? moves = some (machine, history))
    (hruns : operation.runsContext)
    (hown : (Journal.ofHistory history).own number = .started operation :: story)
    (hexit : .exit ∈ quantaIn story) :
    ∃ context shape first rounds, machine.world.contextShape? context = some shape ∧
      Conducted context shape first rounds number story history ∧
        (shape.admission = .everyQuantum → ∃ look late, Leaves shape number history look late) := by
  obtain ⟨context, shape, first, rounds, hshape, hconducted⟩ :=
    conducted_of_exit hrun hruns hown hexit
  refine ⟨context, shape, first, rounds, hshape, hconducted, fun hadmission => ?_⟩
  obtain ⟨made, told, late, rfl, hsession, hquiet⟩ := hconducted.session
  obtain ⟨_, hquanta, hlooks⟩ := told_of_preliminary (List.forall_mem_append.mp hquiet).2
  have hlast := ((hsession.looksLast hadmission).append (hlooks shape.registry)).prepend
    (.started operation :: made)
  rw [hquanta, List.append_nil, List.cons_append, ← hown] at hlast
  obtain ⟨early, happening, late, found, hstory, hfinds, hnone, hquanta⟩ := hlast
  obtain ⟨look, hearly, rfl⟩ := hconducted.watched.looked hstory hfinds
  have hend : look.Last := ⟨late, by rw [hearly, hstory], hnone⟩
  refine ⟨look, late, by rw [hearly, hstory], hnone, hquanta, ?_, ?_⟩
  · exact fun hdrained => hconducted.watched.kept look (List.append_nil _).symm hend hdrained
  · intro hdrained creator made thread hcreator hcreates hfinished
    exact (hconducted.watched.next look (List.append_nil _).symm hend hdrained hcreator hcreates
      hfinished).2.1

open Schedule

/-- A context admits one thread.  Another one is created in the quantum with which the manager
exits. -/
def creationBeforeExit : List (Nat × Move) :=
  inFlow 0 (along (.makeRegistry ⟨0⟩ 1) 2 ++ makingContext ⟨0⟩ .everyQuantum ⟨0⟩ ⟨0⟩ ++
    creating ⟨0⟩ ++ [Move.start (.run ⟨0⟩)] ++ steps 5 ++
    [Move.answer (.schedule ⟨0⟩ "" ⟨0⟩) (.ok ⟨5⟩)] ++ steps 5 ++
    [Move.answer (.hasThreads ⟨0⟩) (.ok true)] ++ steps 3 ++ creating ⟨0⟩ ++
    [Move.answer (.runQuantum ⟨0⟩) (.ok .exit)] ++ steps 1 ++ [Move.finish])

theorem leaves_creationBeforeExit : ∃ machine history operation story,
    (Machine.idle {} 1).run? creationBeforeExit = some (machine, history) ∧ machine.flow 0 = [] ∧
      (Journal.ofHistory history).own 3 = .started operation :: story ∧
        .exit ∈ quantaIn story ∧ Registry.DrainedBy ⟨0⟩ 3 history ∧
          stagedIn ⟨0⟩ (history.map Prod.snd) = [⟨1⟩] ∧
            ∃ context shape first rounds, machine.world.contextShape? context = some shape ∧
              Conducted context shape first rounds 3 story history ∧
                (shape.admission = .everyQuantum →
                  ∃ look late, Leaves shape 3 history look late) := by
  have hsome : ((Machine.idle {} 1).run? creationBeforeExit).isSome := by decide +kernel
  obtain ⟨⟨machine, history⟩, hrun⟩ := Option.isSome_iff_exists.mp hsome
  have hstarts : (((Machine.idle {} 1).run? creationBeforeExit).map fun outcome =>
      (outcome.1.flow 0).isEmpty && ((Journal.ofHistory outcome.2).own 3).head?.any startsRun) =
        some true := by decide +kernel
  have hends : (((Machine.idle {} 1).run? creationBeforeExit).map fun outcome =>
      (quantaIn ((Journal.ofHistory outcome.2).own 3), decide (Registry.DrainedBy ⟨0⟩ 3 outcome.2),
        stagedIn ⟨0⟩ (outcome.2.map Prod.snd))) = some ([.exit], true, [⟨1⟩]) := by decide +kernel
  rw [hrun] at hstarts hends
  obtain ⟨hidle, hstarted⟩ := Bool.and_eq_true_iff.mp (Option.some.inj hstarts)
  obtain ⟨operation, story, hown, hruns⟩ := started_of_startsRun hstarted
  obtain ⟨hquanta, hdrained, hstaged⟩ := by simpa only [Prod.mk.injEq] using Option.some.inj hends
  rw [hown] at hquanta
  have hexit : .exit ∈ quantaIn story := by
    rw [show quantaIn story = [.exit] from hquanta]
    exact List.mem_cons_self
  exact ⟨machine, history, operation, story, hrun, List.isEmpty_iff.mp hidle, hown, hexit,
    of_decide_eq_true hdrained, hstaged, leaves_of_run? hrun hruns hown hexit⟩

end Context

end CoreEngines
