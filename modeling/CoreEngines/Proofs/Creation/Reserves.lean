import CoreEngines.Proofs.Conduct.Aftermath
import CoreEngines.Proofs.Creation.Provision
import CoreEngines.Proofs.Mailbox.Agreement
import CoreEngines.Proofs.Mailbox.Arrivals
import CoreEngines.Proofs.Mailbox.Delivery
import CoreEngines.Proofs.Mailbox.Independence
import CoreEngines.Proofs.Mailbox.Owners
import CoreEngines.Proofs.Mailbox.Passages

/-!
Reserves.  What the mailboxes of a registry are to reserve decides for good whether threads can be
created in it.  If it is too much, every creator fails, for the price of one serial, and nothing
else ever changes; if it is not, no creator fails, and neither does any drain of one of the
mailboxes for want of slots.
-/

namespace CoreEngines

open Program

section
variable {history : History} {world : World} {flows : Nat → Flow} {target : Ref .registry}
  {shape : Registry.Shape}

/-- Everybody who has started to draw a serial has returned. -/
def Registry.Drawn (target : Ref .registry) (counter : Ref .counter) (history : History) : Prop :=
  ∀ {number operation story}, (Journal.ofHistory history).own number = .started operation :: story →
    (Happening.started operation).draws target counter →
      ∃ result, .finished operation result ∈ story

namespace Runs

/-- Whoever has returned after it has started to draw a serial has claimed one. -/
theorem serial_of_drawn {number : Nat} {operation : Operation} {story : List Happening}
    {result : Except Failure operation.Reply} (hrun : Runs {} history world flows)
    (hshape : world.registryShape? target = some shape)
    (hown : (Journal.ofHistory history).own number = .started operation :: story)
    (hdraws : (Happening.started operation).draws target shape.counter)
    (hfinished : .finished operation result ∈ story) :
    ∃ serial, serial ∈ serialsIn shape.counter story := by
  cases operation with
  | create registry =>
      obtain rfl : registry = target := of_decide_eq_true hdraws
      obtain ⟨steps, rfl, hreaches⟩ := hrun.reaches_of_finished hown hfinished
      obtain ⟨seen, serial, hseen, hserial⟩ := (Registry.provision_of_reaches hreaches).claimed
      obtain rfl := hrun.shape_of_create hshape hown (List.mem_append_left _ hseen)
      refine ⟨serial, ?_⟩
      rw [serialsIn, List.filterMap_append]
      exact List.mem_append_left _ hserial
  | claimSerial counter =>
      obtain rfl : counter = shape.counter := of_decide_eq_true hdraws
      rcases SerialCounter.attempt_of_own hrun hown with
        ⟨rest, hreaches, _⟩ | ⟨_, serial, _, _, hserials⟩
      · cases hreaches.isStep _ hfinished
      · exact ⟨serial, by simp [hserials]⟩
  | _ => cases hdraws

/-- An operation draws when it starts, or not at all. -/
theorem countP_draws {number : Nat} {operation : Operation} {story : List Happening}
    (hrun : Runs {} history world flows) (counter : Ref .counter)
    (hown : (Journal.ofHistory history).own number = .started operation :: story) :
    ((Journal.ofHistory history).own number).countP (·.draws target counter) =
      if (Happening.started operation).draws target counter then 1 else 0 := by
  obtain ⟨steps, _, last, rfl, hreaches, hlast⟩ := hrun.reaches_last hown
  have hquiet : ∀ happening ∈ steps ++ last, ¬ happening.draws target counter := by
    intro happening hmem hdraws
    rcases List.mem_append.mp hmem with hmem | hmem
    · have hstep := hreaches.isStep happening hmem
      cases happening <;> cases hstep <;> cases hdraws
    · obtain rfl | ⟨result, rfl, _⟩ := hlast
      · cases hmem
      · cases List.mem_singleton.mp hmem
        cases hdraws
  rw [hown, List.countP_cons, List.countP_eq_zero.mpr hquiet, Nat.zero_add]

/-- Once all who draw have returned, the counter of a registry has gone on from one by as many
places as there were draws. -/
theorem counter_of_drawn (hrun : Runs {} history world flows)
    (hshape : world.registryShape? target = some shape)
    (hdrawn : Registry.Drawn target shape.counter history) :
    world.counterAt? shape.counter = some ⟨Serial.after^[(history.map Prod.snd).countP
      (·.draws target shape.counter)] 1⟩ := by
  have hmore : (history.map Prod.snd).countP (·.draws target shape.counter) ≤
      (serialsIn shape.counter (history.map Prod.snd)).length := by
    rw [List.countP_eq_length_filter, ← List.filterMap_eq_filter]
    refine hrun.length_le fun number => ?_
    rw [List.filterMap_eq_filter, ← List.countP_eq_length_filter]
    rcases hrun.own_cases number with hown | ⟨operation, story, hown⟩
    · simp [hown]
    · rw [hrun.countP_draws shape.counter hown]
      split
      · next hdraws =>
        obtain ⟨result, hfinished⟩ := hdrawn hown hdraws
        obtain ⟨serial, hserial⟩ := hrun.serial_of_drawn hshape hown hdraws hfinished
        rw [hown]
        exact List.length_pos_of_mem hserial
      · exact Nat.zero_le _
  obtain ⟨count, hcounter, hserials, _⟩ :=
    SerialCounter.turned_of_runs hrun (hrun.initial_of_registry hshape)
  have hlength : count = (history.map Prod.snd).countP (·.draws target shape.counter) :=
    Nat.le_antisymm (by simpa [hserials, Serial.row] using hrun.serials_le hshape)
      (by simpa [hserials, Serial.row] using hmore)
  rw [hcounter, hlength]

section
variable (hrun : Runs {} history world flows) (hshape : world.registryShape? target = some shape)
  (hroom : Slots.allocatable shape.reserve = false)
include hrun hshape hroom

/-- From a registry whose threads can have no mailbox nothing is ever taken. -/
theorem taken_createsNone {happening : Happening} (hmem : happening ∈ history.map Prod.snd) :
    happening.taken target = [] := by
  have htaken := hrun.taken target
  rw [hrun.roster, hrun.enrolledIn_createsNone hshape hroom] at htaken
  exact List.flatMap_eq_nil_iff.mp (List.append_eq_nil_iff.mp htaken).1 happening hmem

theorem keptFor_createsNone (number : Nat) : Registry.KeptFor target number history := by
  intro place _ _ entry hentry htakes
  have hmem : entry.2 ∈ history.map Prod.snd := by
    rw [← hrun.journal.2]
    exact List.mem_map_of_mem (List.mem_of_mem_take hentry)
  exact absurd (hrun.taken_createsNone hshape hroom hmem) (Happening.takesFrom_iff.mp htakes)

theorem found_createsNone {number : Nat} (look : Registry.Look target number history) :
    look.found = [] := by
  have hmem : look.happening ∈ history.map Prod.snd :=
    List.mem_map.mpr ⟨(look.place, look.happening), by simp [look.moment], rfl⟩
  rw [← look.taken, hrun.taken_createsNone hshape hroom hmem]

theorem undrainedEntry_createsNone {place : Ref .engine} {seen : EngineShape} {number : Nat}
    {story : List Happening} {machine : Machine} (hregistry : seen.registry = target)
    (hfirst : Engine.FirstEntry place seen number story machine history) :
    Engine.UndrainedEntry place seen number story machine history :=
  ⟨hfirst, hregistry ▸ hrun.keptFor_createsNone hshape hroom number⟩

/-- Whoever reads a list through the lock returns what the registry was made with. -/
theorem read_createsNone {access : Registry.Access} {story : List Happening}
    {result : Except Failure access.Answer}
    (hreaches : (locked (.roster target) (perform (.registry target access))).Reaches story
      (.done result))
    (hmade : ∀ happening ∈ story, happening ∈ history.map Prod.snd) :
    result = .ok ((Registry.new shape.core shape.reserve shape.counter).access access).1 := by
  have hstraight : (locked (.roster target) (perform (.registry target access))).Straight :=
    .locked (.perform nofun) nofun nofun
  obtain ⟨inside, hinside, rfl⟩ := (tells_locked _ _ _ _).mp (hstraight.tells hreaches)
  obtain ⟨answer, rfl, rfl⟩ := (tells_perform _ _ _).mp hinside
  have hmem : .acted (.registry target access) answer ∈ history.map Prod.snd := hmade _ (by simp)
  rw [hrun.answer_createsNone hshape hroom hmem]

end

end Runs

end

namespace Mailbox

/-- A mailbox that can always be given its slots. -/
structure Replenishes (place : Ref .mailbox) (machine : Machine) (history : History) : Prop where
  /-- Whoever asks for the slots gets them, -/
  ready : ∀ {mailbox}, machine.world.mailboxAt? place = some mailbox →
    (mailbox.access .replenish).1 = true
  /-- and whoever has asked has got them. -/
  given : .acted (.mailbox place .replenish) false ∉ history.map Prod.snd
  /-- Whoever has taken the messages gets the slots as soon as it goes on, and then publishes that
  there are no messages. -/
  resets : ∀ {number operation early messages late},
    (Journal.ofHistory history).own number = .started operation ::
        (early ++ .acted (.mailbox place .detach) messages :: late) →
      late.take 2 <+: [.acted (.mailbox place .replenish) true,
        .acted (.mailbox place (.publish 0)) ()]
  /-- A drain fails only if a callback does. -/
  fails : ∀ {number operation story failure}, operation.Drains place →
    (Journal.ofHistory history).own number = .started operation :: story →
      .finished operation (.error failure) ∈ story →
        ∃ callback cause, .answered callback (.error cause) ∈ story

end Mailbox

open Mailbox

theorem Mailbox.defers_of_empties {place : Ref .mailbox} {operation : Operation}
    (hempties : (Request.of? place operation).any Request.empties) : operation.Defers place := by
  cases hrequest : Request.of? place operation with
  | none =>
      rw [hrequest] at hempties
      cases hempties
  | some request =>
      rw [hrequest] at hempties
      obtain rfl := Request.of?_eq_some.mp hrequest
      cases request with
      | drain => exact ⟨rfl, rfl⟩
      | drainLocked => exact ⟨rfl, rfl⟩
      | _ => cases hempties

theorem Runs.replenishes {history : History} {machine : Machine} {flows : Nat → Flow}
    (hrun : Runs {} history machine.world flows) (place : Ref .mailbox) :
    Replenishes place machine history := by
  have haccount := (hrun.account (sections_obeyed place) (upkeep_upholds place)).1
  refine ⟨hrun.replenish_ready, hrun.replenish_given place, ?_, ?_⟩
  · intro number operation early messages late hown
    have hmade : (Journal.ofHistory history).own number = (.started operation :: early) ++
        .acted (.mailbox place .detach) messages :: late := hown
    obtain ⟨_, _, hstarted, hallots, _⟩ := hrun.before_access hmade
    cases hstarted
    have hdefers := defers_of_empties (empties_of_allotted hallots (Or.inr rfl))
    obtain ⟨whole, result, hcourse, hstory⟩ := course_of_runs hrun hdefers hown
    refine resets_of_course hcourse hstory fun hmem => hrun.replenish_given place ?_
    exact hrun.mem_history hown (by simp [hmem])
  · intro number operation story failure hdrains hown hfinished
    have hmailbox : operation.mailbox? = some place := by
      cases operation <;> first | exact congrArg some hdrains | cases hdrains
    exact (dealings_of_own haccount hown).failed hmailbox failure hfinished

namespace Registry

/-- A creator that can get no mailbox fails in a flow of its own. -/
theorem run?_overflow {machine : Machine} {index : Nat} {flow : Flow} {target : Ref .registry}
    {registry : Registry} {counter : SerialCounter}
    (hregistry : machine.world.registryAt? target = some registry)
    (hcounter : machine.world.counterAt? registry.counter = some counter)
    (hroom : Slots.allocatable registry.reserve = false)
    (hflow : machine.flows[index]? = some flow) (hasking : flow.all (·.isAsking)) :
    ∃ moves later steps, machine.run? moves = some (⟨later, machine.flows⟩,
      (Happening.started (.create target) ::
        (steps ++ [.finished (.create target) (.error .capacityOverflow)])).map
          fun happening => (index, happening)) := by
  have hat : machine.world.counters[registry.counter.index]? = some counter := hcounter
  have hload : machine.world.perform? (.counter registry.counter .load) =
      some (counter.word, machine.world) := by
    simp [World.perform?, World.accessAt?_eq, hat, SerialCounter.access, setIfInBounds_self hat]
  let claimed : World := { machine.world with
    counters := machine.world.counters.setIfInBounds registry.counter.index
      ⟨Serial.after counter.word⟩ }
  have hexchange : machine.world.perform?
      (.counter registry.counter (.exchange counter.word (Serial.after counter.word))) =
        some (none, claimed) := by
    simp [World.perform?, World.accessAt?_eq, hat, SerialCounter.access, claimed]
  have hnone : claimed.perform? (.newMailbox registry.reserve) = some (none, claimed) := by
    simp [World.perform?, hroom]
  have hsolo : flow.run? machine.world
      [.start (.create target), .step, .step, .step, .choose false, .step, .step, .finish] =
        some (claimed, flow, .started (.create target) ::
          ([.acted (.registry target .shape) registry.shape,
            .acted (.counter registry.counter .load) counter.word,
            .called (.claimSerial registry.counter counter.word), .chose false,
            .acted (.counter registry.counter
              (.exchange counter.word (Serial.after counter.word))) none,
            .acted (.newMailbox registry.reserve) none] ++
              [.finished (.create target) (.error .capacityOverflow)])) :=
    Flow.run?_start hasking rfl (Flow.run?_act (World.perform?_registryShape hregistry)
      (Flow.run?_act hload (Flow.run?_call (Flow.run?_choose (Flow.run?_act hexchange
        (Flow.run?_act hnone rfl))))))
  exact ⟨_, claimed, _, Machine.run?_flow_back hflow hsolo⟩

/-- A registry whose mailboxes are to reserve more than can be had. -/
structure CreatesNone (target : Ref .registry) (shape : Shape) (count : Nat) (machine : Machine)
    (history : History) : Prop where
  /-- A creator touches nothing but the counter. -/
  spends : ∀ {number story},
    (Journal.ofHistory history).own number = .started (.create target) :: story →
      ∀ happening ∈ story, happening.isStep → happening.Spends target shape.counter
  /-- When it returns it has failed, for the price of one serial, -/
  fails : ∀ {number story result},
    (Journal.ofHistory history).own number = .started (.create target) :: story →
      .finished (.create target) result ∈ story → result = .error .capacityOverflow ∧
        ∃ serial, serialsIn shape.counter story = [serial]
  /-- and this it does if it is let alone. -/
  overflows : ∀ {index flow}, machine.flows[index]? = some flow → flow.all (·.isAsking) →
    ∃ moves later steps, machine.run? moves = some (⟨later, machine.flows⟩,
      (Happening.started (.create target) ::
        (steps ++ [.finished (.create target) (.error .capacityOverflow)])).map
          fun happening => (index, happening))
  /-- So the registry stays as it was made, -/
  kept : machine.world.registryAt? target = some (.new shape.core shape.reserve shape.counter)
  /-- and whoever takes threads gets none, -/
  took : ∀ {number story result},
    (Journal.ofHistory history).own number = .started (.takeStaged target) :: story →
      .finished (.takeStaged target) result ∈ story → result = .ok #[]
  /-- also if it always goes through the lock. -/
  tookLocked : ∀ {number story result},
    (Journal.ofHistory history).own number = .started (.takeStagedLocked target) :: story →
      .finished (.takeStagedLocked target) result ∈ story → result = .ok #[]
  /-- The list of all threads is empty. -/
  listed : ∀ {number story result},
    (Journal.ofHistory history).own number = .started (.threads target) :: story →
      .finished (.threads target) result ∈ story → result = .ok #[]
  /-- After so many creators the next serial is the one behind theirs. -/
  next : Drawn target shape.counter history → ∃ word,
    machine.world.counterAt? shape.counter = some ⟨word⟩ ∧
      word.toNat =
        (history.map Prod.snd).countP (·.draws target shape.counter) % (2 ^ 64 - 1) + 1
  /-- An engine on the registry whose manager has no threads of its own hears that there are
  none, -/
  told : ∀ {place engine number story ready}, machine.world.engineAt? place = some engine →
    engine.shape.registry = target →
      Engine.FirstEntry place engine.shape number story machine history → ready ∈ readyIn story →
        ready = false
  /-- and its entry fails. -/
  starved : ∀ {place engine number story result}, machine.world.engineAt? place = some engine →
    engine.shape.registry = target → engine.shape.mode = .execution →
      Engine.FirstEntry place engine.shape number story machine history →
        .finished (.enter place) result ∈ story → result = .error engine.starved
  /-- It does fail if it is let alone. -/
  starves : ∀ {place engine index flow}, machine.world.engineAt? place = some engine →
    engine.shape.registry = target → engine.shape.mode = .execution → engine.entered = false →
      engine.context = .vacant → machine.flows[index]? = some flow → flow.all (·.isAsking) →
        ∃ moves later steps, machine.run? moves = some (⟨later, machine.flows⟩,
          (Happening.started (.enter place) ::
            (steps ++ [.finished (.enter place) (.error engine.starved)])).map
              fun happening => (index, happening))

section
variable {count : Nat} {moves : List (Nat × Move)} {machine : Machine} {history : History}
  {target : Ref .registry} {shape : Shape}

theorem createsNone_of_run? (hrun : (Machine.idle {} count).run? moves = some (machine, history))
    (hshape : machine.world.registryShape? target = some shape)
    (hroom : Slots.allocatable shape.reserve = false) :
    CreatesNone target shape count machine history := by
  have hruns := Machine.runs_of_run? hrun
  have hkept := hruns.registryAt?_createsNone hshape hroom
  constructor
  · exact fun hown => hruns.spends_of_create hshape hown hroom
  · exact fun hown => hruns.overflow_of_create hshape hown hroom
  · intro index flow hflow hasking
    obtain ⟨_, count, hcounter, _⟩ := hruns.counter_of_registry hshape
    exact run?_overflow hkept hcounter hroom hflow hasking
  · exact hkept
  · intro number story result hown hfinished
    obtain ⟨steps, rfl, hreaches⟩ := hruns.reaches_of_finished hown hfinished
    obtain ⟨length, late, rfl, hlate⟩ := reaches_perform_bind_done hreaches
    obtain rfl : length = 0 :=
      hruns.answer_createsNone hshape hroom (hruns.mem_history hown List.mem_cons_self)
    cases (reaches_done.mp hlate).2
    rfl
  · intro number story result hown hfinished
    obtain ⟨steps, rfl, hreaches⟩ := hruns.reaches_of_finished hown hfinished
    exact hruns.read_createsNone hshape hroom hreaches fun happening hmem =>
      hruns.mem_history hown (List.mem_append_left _ hmem)
  · intro number story result hown hfinished
    obtain ⟨steps, rfl, hreaches⟩ := hruns.reaches_of_finished hown hfinished
    exact hruns.read_createsNone hshape hroom hreaches fun happening hmem =>
      hruns.mem_history hown (List.mem_append_left _ hmem)
  · intro hdrawn
    refine ⟨_, hruns.counter_of_drawn hshape hdrawn, ?_⟩
    rw [Serial.toNat_iterate_after (by decide)]
    simp
  · intro place engine number story ready hengine hregistry hfirst hready
    have hundrained := hruns.undrainedEntry_createsNone hshape hroom hregistry hfirst
    obtain ⟨look, _, _, hiff⟩ := Engine.told_of_ready hrun hengine hundrained hready
    exact hiff.mpr (hruns.found_createsNone (hregistry ▸ hshape) hroom look)
  · intro place engine number story result hengine hregistry hmode hfirst hfinished
    have hundrained := hruns.undrainedEntry_createsNone hshape hroom hregistry hfirst
    obtain ⟨look, _, hiff, _⟩ := Engine.told_of_finished hrun hengine hmode hundrained hfinished
    exact hiff.mpr (hruns.found_createsNone (hregistry ▸ hshape) hroom look)
  · rintro place engine index flow hengine rfl hmode hentered hvacant hflow hasking
    refine Engine.starves_of_flow hengine hmode hentered hvacant ?_ hflow hasking
    rw [World.threadCount?, hkept]
    rfl

end

/-- A registry whose mailboxes are to reserve no more than can be had. -/
structure CreatesFreely (target : Ref .registry) (shape : Shape) (machine : Machine)
    (history : History) : Prop where
  /-- Creators do not fail. -/
  returns : ∀ {number story result},
    (Journal.ofHistory history).own number = .started (.create target) :: story →
      .finished (.create target) result ∈ story → ∃ thread, result = .ok thread
  /-- Every thread has a mailbox that can always be given its slots. -/
  replenishes : ∀ {registry thread}, machine.world.registryAt? target = some registry →
    thread ∈ registry.roster → ∃ place mailbox, machine.world.mailboxOf? thread = some place ∧
      machine.world.mailboxAt? place = some mailbox ∧ mailbox.reserve = shape.reserve ∧
        Mailbox.Replenishes place machine history

theorem createsFreely_of_run? {count : Nat} {moves : List (Nat × Move)} {machine : Machine}
    {history : History} {target : Ref .registry} {shape : Shape}
    (hrun : (Machine.idle {} count).run? moves = some (machine, history))
    (hshape : machine.world.registryShape? target = some shape)
    (hroom : Slots.allocatable shape.reserve = true) :
    CreatesFreely target shape machine history := by
  have hruns := Machine.runs_of_run? hrun
  refine ⟨fun hown => hruns.ok_of_create hshape hown hroom, fun hregistry hthread => ?_⟩
  obtain ⟨place, mailbox, howner, hmailbox, hreserve⟩ :=
    hruns.mailbox_of_roster hregistry hthread
  have hsame : _ = shape :=
    Option.some.inj ((congrArg (Option.map Registry.shape) hregistry).symm.trans hshape)
  exact ⟨place, mailbox, howner, hmailbox, hreserve.trans (congrArg Shape.reserve hsame),
    hruns.replenishes place⟩

/-- What a registry is to reserve for the mailbox of each thread decides whether it can have any. -/
structure Provides (target : Ref .registry) (shape : Shape) (count : Nat) (machine : Machine)
    (history : History) : Prop where
  createsNone : 2 ^ 63 - 1 < shape.reserve * 56 → CreatesNone target shape count machine history
  createsFreely : shape.reserve * 56 ≤ 2 ^ 63 - 1 → CreatesFreely target shape machine history

theorem provides_of_run? {count : Nat} {moves : List (Nat × Move)} {machine : Machine}
    {history : History} {target : Ref .registry} {shape : Shape}
    (hrun : (Machine.idle {} count).run? moves = some (machine, history))
    (hshape : machine.world.registryShape? target = some shape) :
    Provides target shape count machine history where
  createsNone hbytes := createsNone_of_run? hrun hshape (decide_eq_false (Nat.not_le.mpr hbytes))
  createsFreely hbytes := createsFreely_of_run? hrun hshape (decide_eq_true hbytes)

open Schedule

/-- The only engine of a table is to reserve more than can be had.  A thread is to be created in its
registry, which fails; a take finds nothing, and the entry of the engine fails.  In another registry
a thread is created, and its mailbox is drained. -/
def excessiveReserve : List (Nat × Move) :=
  inFlow 0 (along (.buildTable { bootstrapCore := ⟨0⟩, mailboxReserve := 2 ^ 63 } [.execution]) 4 ++
    [Move.start (.create ⟨0⟩)] ++ steps 3 ++ [Move.choose false] ++ steps 2 ++ [Move.finish] ++
    along (.takeStaged ⟨0⟩) 1 ++ entering ⟨0⟩ ⟨0⟩ ++
    [Move.answer (.createManager ⟨0⟩ true) (.ok ⟨0⟩)] ++ steps 6 ++
    [Move.answer (.hasThreads ⟨0⟩) (.ok false), .finish] ++
    along (.makeRegistry ⟨0⟩ 1) 2 ++ creating ⟨1⟩ ++
    around (.push ⟨0⟩ (.notification .timeoutEvent 1)) 0 4 0 ++ around (.drain ⟨0⟩) 1 6 1)

theorem provides_excessiveReserve : ∃ machine history shape shape',
    (Machine.idle {} 1).run? excessiveReserve = some (machine, history) ∧
      machine.world.registryShape? ⟨0⟩ = some shape ∧ 2 ^ 63 - 1 < shape.reserve * 56 ∧
        machine.world.counterAt? ⟨0⟩ = some ⟨2⟩ ∧ Provides ⟨0⟩ shape 1 machine history ∧
          machine.world.registryShape? ⟨1⟩ = some shape' ∧ shape'.reserve * 56 ≤ 2 ^ 63 - 1 ∧
            Provides ⟨1⟩ shape' 1 machine history := by
  have hsome : ((Machine.idle {} 1).run? excessiveReserve).isSome := by rfl
  obtain ⟨⟨machine, history⟩, hrun⟩ := Option.isSome_iff_exists.mp hsome
  have hshapes : (((Machine.idle {} 1).run? excessiveReserve).map fun outcome =>
      (outcome.1.world.registryShape? ⟨0⟩, outcome.1.world.registryShape? ⟨1⟩)) =
        some (some ⟨⟨0⟩, 2 ^ 63, ⟨0⟩⟩, some ⟨⟨0⟩, 1, ⟨1⟩⟩) := by rfl
  have hcounter : ((Machine.idle {} 1).run? excessiveReserve).bind
      (fun outcome => outcome.1.world.counterAt? ⟨0⟩) = some ⟨2⟩ := by rfl
  rw [hrun] at hshapes hcounter
  obtain ⟨hshape, hshape'⟩ := Prod.mk.inj (Option.some.inj hshapes)
  exact ⟨machine, history, _, _, hrun, hshape, by decide, hcounter, provides_of_run? hrun hshape,
    hshape', by decide, provides_of_run? hrun hshape'⟩

end Registry

end CoreEngines
