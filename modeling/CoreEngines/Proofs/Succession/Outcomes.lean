import CoreEngines.Proofs.Admission.Resumption
import CoreEngines.Proofs.Mailbox.Failures
import CoreEngines.Proofs.Succession.Settings

/-!
What operations on mailboxes and registries come to that nobody disturbs, as a function of what they
find.  A drain of a mailbox comes to the same with or without its look at the published length, and
so does the taking of staged threads, because both lengths are right whenever the locks are free.
-/

namespace CoreEngines

open Program

def World.withRegistry (world : World) (target : Ref .registry) (registry : Registry) : World :=
  { world with registries := world.registries.setIfInBounds target.index registry }

def World.withCounter (world : World) (target : Ref .counter) (counter : SerialCounter) : World :=
  { world with counters := world.counters.setIfInBounds target.index counter }

/-- A registry whose lock is free: the length that is published is right, and all that wait for
admission are on record. -/
structure Registry.Orderly (registry : Registry) : Prop where
  published : registry.count = registry.roster.size
  staged : registry.pending.size ≤ registry.roster.size

/-- A world in which no operation is going on. -/
structure World.Quiescent (world : World) : Prop where
  free : world.held = []
  mailboxes : ∀ {target mailbox}, world.mailboxAt? target = some mailbox → mailbox.Orderly
  registries : ∀ {target registry}, world.registryAt? target = some registry → registry.Orderly

namespace Setting

variable (setting : Setting)

/-- The processor was asked to mask interrupts, and to put back what it had answered. -/
def masked : Setting :=
  { setting with
    asked := setting.asked ++
      [.answered .mask (.ok setting.flag), .answered (.restore setting.flag) (.ok ())] }

/-- The mailbox was there, and has served a request. -/
def serving (target : Ref .mailbox) (mailbox : Mailbox) (request : Mailbox.Request) : Setting :=
  { setting with world := setting.world.withMailbox target (request.serve mailbox) }

def surfacing (happenings : List Happening) : Setting :=
  { setting with surfaced := setting.surfaced ++ happenings }

/-- The messages of a mailbox were taken out of it, if there were any. -/
def draining (target : Ref .mailbox) (mailbox : Mailbox) : Setting :=
  if mailbox.queue = #[] then setting
  else (setting.serving target mailbox .drain).surfacing
    [.acted (.mailbox target .replenish) true, .reported (.mailboxDrained mailbox.queue.size)]

/-- A serial was claimed, and a thread created if a mailbox could be had for it. -/
def creating (target : Ref .registry) (registry : Registry) (serial : UInt64) :
    Except Failure (Ref .thread) × Setting :=
  let world := setting.world.withCounter registry.counter ⟨Serial.after serial⟩
  if Slots.allocatable registry.reserve then
    let id : ThreadId := ⟨registry.core, serial⟩
    let thread : Ref .thread := ⟨world.threads.size⟩
    let world := { world with
      mailboxes := world.mailboxes.push (.new registry.reserve)
      threads := world.threads.push (.new id ⟨world.mailboxes.size⟩) }
    let registry := { registry with
      roster := registry.roster.push thread
      pending := registry.pending.push thread
      count := registry.roster.size + 1 }
    (.ok thread,
      Setting.surfacing { setting with world := world.withRegistry target registry }
        [.reported (.threadCreated id)])
  else (.error .capacityOverflow, { setting with world })

end Setting

/-- What an operation on mailboxes and registries comes to that nobody disturbs: what it returns,
and the setting that it leaves.  It comes to nothing if what it works on is not there. -/
def Operation.outcome? (setting : Setting) :
    (operation : Operation) → Option (Except Failure operation.Reply × Setting)
  | .makeMailbox reserve =>
      if Slots.allocatable reserve then
        some (.ok ⟨setting.world.mailboxes.size⟩, { setting with world := { setting.world with
          mailboxes := setting.world.mailboxes.push (.new reserve) } })
      else some (.error .capacityOverflow, setting)
  | .push target message =>
      (setting.world.mailboxAt? target).map fun mailbox =>
        (.ok (), (setting.serving target mailbox (.push message)).masked)
  | .pushFromInterrupt target message =>
      (setting.world.mailboxAt? target).map fun mailbox =>
        (.ok (), (setting.serving target mailbox (.offer message)).surfacing
          [.acted (.mailbox target (.offer message)) (mailbox.access (.offer message)).1])
  | .drain target =>
      (setting.world.mailboxAt? target).map fun mailbox =>
        (.ok mailbox.queue,
          if mailbox.queue = #[] then setting else (setting.draining target mailbox).masked)
  | .drainLocked target =>
      (setting.world.mailboxAt? target).map fun mailbox =>
        (.ok mailbox.queue, (setting.draining target mailbox).masked)
  | .capacity target =>
      (setting.world.mailboxAt? target).map fun mailbox => (.ok mailbox.slots, setting.masked)
  | .makeRegistry core reserve =>
      some (.ok ⟨setting.world.registries.size⟩, { setting with world := { setting.world with
        counters := setting.world.counters.push .initial
        registries := setting.world.registries.push
          (.new core reserve ⟨setting.world.counters.size⟩) } })
  | .create target =>
      (setting.world.registryAt? target).bind fun registry =>
        (setting.world.counterAt? registry.counter).map fun counter =>
          setting.creating target registry counter.word
  | .takeStaged target | .takeStagedLocked target =>
      (setting.world.registryAt? target).map fun registry =>
        (.ok registry.pending, { setting with
          world := setting.world.withRegistry target { registry with pending := #[] } })
  | .threads target =>
      (setting.world.registryAt? target).map fun registry => (.ok registry.roster, setting)
  | _ => none

/-- What comes to the surface with a happening. -/
def Happening.surface (happening : Happening) : List Happening :=
  if happening.surfaces then [happening] else []

section
variable {ready : Prop} {world : World} {flag : Bool} {asked surfaced : List Happening}
  {held : List Lock} {α : Type}

/-- An access to the mailbox in this place is done at once. -/
theorem undisturbed_access {target : Ref .mailbox} {mailbox : Mailbox} {access : Mailbox.Access}
    {post : Setting → Except Failure access.Answer → Prop}
    (hinside : target.index < world.mailboxes.size) :
    Ensures (α := no_index access.Answer) (undisturbed ready) (perform (.mailbox target access))
        ⟨{ world.withMailbox target mailbox with held := held }, flag, asked, surfaced⟩ post ↔
      post ⟨{ world.withMailbox target (mailbox.access access).2 with held := held }, flag, asked,
          surfaced ++
            (Happening.acted (.mailbox target access) (mailbox.access access).1).surface⟩
        (.ok (mailbox.access access).1) := by
  have hperform := Mailbox.perform?_withMailbox hinside mailbox access held
  rw [undisturbed_perform hperform, Setting.observe_acted hperform]
  refine iff_of_eq (congrArg (post · _) ?_)
  unfold Happening.surface
  split <;> simp

/-- An access to the registry in this place is done at once. -/
theorem undisturbed_consult {target : Ref .registry} {registry : Registry}
    {access : Registry.Access} {post : Setting → Except Failure access.Answer → Prop}
    (hinside : target.index < world.registries.size) :
    Ensures (α := no_index access.Answer) (undisturbed ready) (perform (.registry target access))
        ⟨{ world.withRegistry target registry with held := held }, flag, asked, surfaced⟩ post ↔
      post ⟨{ world.withRegistry target (registry.access access).2 with held := held }, flag, asked,
          surfaced⟩
        (.ok (registry.access access).1) := by
  have hperform : World.perform? { world.withRegistry target registry with held := held }
      (.registry target access) =
        some ((registry.access access).1,
          { world.withRegistry target (registry.access access).2 with held := held }) := by
    simp [World.perform?, World.accessAt?_eq, World.withRegistry, hinside]
  rw [undisturbed_perform hperform, Setting.observe_acted hperform]
  rfl

theorem World.withRegistry_self {target : Ref .registry} {registry : Registry}
    (hregistry : world.registryAt? target = some registry) :
    world.withRegistry target registry = world := by
  rw [World.withRegistry, setIfInBounds_self hregistry]

end

/-- The operation comes to its outcome if nobody disturbs it. -/
def Operation.Succeeds (operation : Operation) (ready : Prop) (setting : Setting) : Prop :=
  operation.program.Ensures (undisturbed ready) setting fun later result =>
    operation.outcome? setting = some (result, later)

section
variable {ready : Prop} {world : World} {target : Ref .mailbox} {mailbox : Mailbox} {flag : Bool}
  {asked surfaced : List Happening} (hinside : target.index < world.mailboxes.size)
  (hfree : world.held = [])

theorem World.mailboxAt?_withMailbox (hinside : target.index < world.mailboxes.size) :
    (world.withMailbox target mailbox).mailboxAt? target = some mailbox := by
  simp [World.mailboxAt?, World.withMailbox, hinside]

theorem World.withMailbox_withMailbox (first second : Mailbox) :
    (world.withMailbox target first).withMailbox target second =
      world.withMailbox target second := by
  simp [World.withMailbox]

theorem World.withMailbox_free (hfree : world.held = []) (held : List Lock) (hheld : held = []) :
    { world.withMailbox target mailbox with held := held } = world.withMailbox target mailbox := by
  simp [World.withMailbox, hfree, hheld]

/-- A section under the lock of a mailbox starts with the lock taken, and ends with it given
back. -/
theorem undisturbed_queue {α : Type} {body : Program α} {post : Setting → Except Failure α → Prop}
    (hfree : world.held = []) :
    (locked (.queue target) body).Ensures (undisturbed ready)
        ⟨world.withMailbox target mailbox, flag, asked, surfaced⟩ post ↔
      body.Ensures (undisturbed ready)
        ⟨{ world.withMailbox target mailbox with held := [.queue target] }, flag, asked, surfaced⟩
        fun inside result =>
          post { inside with
            world := { inside.world with held := inside.world.held.erase (.queue target) } }
            result :=
  @undisturbed_locked ready ⟨world.withMailbox target mailbox, flag, asked, surfaced⟩ α _ body post
    hfree

include hinside hfree

theorem succeeds_push (message : Message) :
    (Operation.push target message).Succeeds ready
      ⟨world.withMailbox target mailbox, flag, asked, surfaced⟩ := by
  rw [Operation.Succeeds, Operation.program, Mailbox.push, undisturbed_masked,
    undisturbed_queue hfree, ensures_bind]
  simp only [undisturbed_access hinside]
  simp [Operation.outcome?, World.mailboxAt?_withMailbox hinside, Setting.serving, Setting.masked,
    World.withMailbox_withMailbox, World.withMailbox_free hfree, Mailbox.access, Happening.surface,
    Happening.surfaces, Mailbox.Request.serve]

theorem succeeds_pushFromInterrupt (message : Message) :
    (Operation.pushFromInterrupt target message).Succeeds ready
      ⟨world.withMailbox target mailbox, flag, asked, surfaced⟩ := by
  rw [Operation.Succeeds, Operation.program, Mailbox.pushFromInterrupt,
    undisturbed_queue hfree, ensures_bind]
  simp only [undisturbed_access hinside]
  by_cases hroom : mailbox.queue.size < mailbox.slots <;>
    simp [-ensures_perform, hroom, undisturbed_access hinside, Operation.outcome?,
      World.mailboxAt?_withMailbox hinside, Setting.serving, Setting.surfacing,
      World.withMailbox_withMailbox, World.withMailbox_free hfree, Mailbox.access,
      Happening.surface, Happening.surfaces, Mailbox.Request.serve]

theorem succeeds_capacity :
    (Operation.capacity target).Succeeds ready
      ⟨world.withMailbox target mailbox, flag, asked, surfaced⟩ := by
  rw [Operation.Succeeds, Operation.program, Mailbox.capacity, undisturbed_masked,
    undisturbed_queue hfree, undisturbed_access hinside]
  simp [Operation.outcome?, World.mailboxAt?_withMailbox hinside, Setting.masked,
    World.withMailbox_free hfree, Mailbox.access, Happening.surface, Happening.surfaces]

theorem succeeds_drainLocked (horderly : mailbox.Orderly) :
    (Operation.drainLocked target).Succeeds ready
      ⟨world.withMailbox target mailbox, flag, asked, surfaced⟩ := by
  have hroom := Slots.allocatable_replenished horderly.allocatable
  rw [Operation.Succeeds, Operation.program, Mailbox.drainLocked, ensures_bind, undisturbed_masked,
    undisturbed_queue hfree, Mailbox.detachAll, ensures_bind, undisturbed_access hinside]
  by_cases hempty : mailbox.queue = #[]
  · simp [hempty, Operation.outcome?, World.mailboxAt?_withMailbox hinside, Setting.draining,
      Setting.masked, World.withMailbox_free hfree, Mailbox.access, Happening.surface,
      Happening.surfaces]
  · simp [-ensures_perform, -ensures_report, hempty, hroom, undisturbed_access hinside,
      undisturbed_report, Operation.outcome?, World.mailboxAt?_withMailbox hinside,
      Setting.draining, Setting.serving, Setting.surfacing, Setting.masked,
      World.withMailbox_withMailbox, World.withMailbox_free hfree, Mailbox.access,
      Happening.surface, Happening.surfaces, Mailbox.Request.serve]

theorem succeeds_drain (horderly : mailbox.Orderly) :
    (Operation.drain target).Succeeds ready
      ⟨world.withMailbox target mailbox, flag, asked, surfaced⟩ := by
  rw [Operation.Succeeds, Operation.program, Mailbox.drain, ensures_bind,
    undisturbed_access hinside]
  have hpublished := horderly.published
  by_cases hempty : mailbox.queue = #[]
  · simp [hempty, hpublished, Operation.outcome?, World.mailboxAt?_withMailbox hinside,
      Mailbox.access, Happening.surface, Happening.surfaces]
  · have hqueued : mailbox.queued ≠ 0 := by simp [hpublished, hempty]
    have hlocked : (Operation.drainLocked target).Succeeds ready
        ⟨world.withMailbox target mailbox, flag, asked, surfaced⟩ :=
      succeeds_drainLocked hinside hfree horderly
    simpa [Operation.Succeeds, Operation.program, Operation.outcome?, Mailbox.access, hqueued,
      Happening.surface, Happening.surfaces, hempty,
      World.mailboxAt?_withMailbox hinside] using hlocked

end

section
variable {ready : Prop} {world : World} {target : Ref .registry} {registry : Registry} {flag : Bool}
  {asked surfaced : List Happening} (hinside : target.index < world.registries.size)
  (hfree : world.held = [])

theorem World.registryAt?_withRegistry (hinside : target.index < world.registries.size) :
    (world.withRegistry target registry).registryAt? target = some registry := by
  simp [World.registryAt?, World.withRegistry, hinside]

theorem World.withRegistry_withRegistry (first second : Registry) :
    (world.withRegistry target first).withRegistry target second =
      world.withRegistry target second := by
  simp [World.withRegistry]

theorem World.withRegistry_free (hfree : world.held = []) (held : List Lock) (hheld : held = []) :
    { world.withRegistry target registry with held := held } =
      world.withRegistry target registry := by
  simp [World.withRegistry, hfree, hheld]

theorem undisturbed_roster {α : Type} {body : Program α} {post : Setting → Except Failure α → Prop}
    (hfree : world.held = []) :
    (locked (.roster target) body).Ensures (undisturbed ready)
        ⟨world.withRegistry target registry, flag, asked, surfaced⟩ post ↔
      body.Ensures (undisturbed ready)
        ⟨{ world.withRegistry target registry with held := [.roster target] }, flag, asked,
          surfaced⟩
        fun inside result =>
          post { inside with
            world := { inside.world with held := inside.world.held.erase (.roster target) } }
            result :=
  @undisturbed_locked ready ⟨world.withRegistry target registry, flag, asked, surfaced⟩ α _ body
    post hfree

include hinside hfree

theorem succeeds_takeStagedLocked :
    (Operation.takeStagedLocked target).Succeeds ready
      ⟨world.withRegistry target registry, flag, asked, surfaced⟩ := by
  rw [Operation.Succeeds, Operation.program, Registry.takeStagedLocked, undisturbed_roster hfree,
    undisturbed_consult hinside]
  simp [Operation.outcome?, World.registryAt?_withRegistry hinside,
    World.withRegistry_withRegistry, World.withRegistry_free hfree, Registry.access]

theorem succeeds_takeStaged (horderly : registry.Orderly) :
    (Operation.takeStaged target).Succeeds ready
      ⟨world.withRegistry target registry, flag, asked, surfaced⟩ := by
  rw [Operation.Succeeds, Operation.program, Registry.takeStaged, ensures_bind,
    undisturbed_consult hinside]
  by_cases hcount : registry.count = 0
  · have hpending : registry.pending = #[] := by
      have hstaged := horderly.staged
      rw [← horderly.published, hcount] at hstaged
      exact Array.eq_empty_of_size_eq_zero (Nat.le_zero.mp hstaged)
    obtain ⟨core, reserve, counter, count, roster, pending⟩ := registry
    obtain rfl : count = 0 := hcount
    obtain rfl : pending = #[] := hpending
    simp [Operation.outcome?, World.registryAt?_withRegistry hinside,
      World.withRegistry_withRegistry, Registry.access]
  · have hlocked : (Operation.takeStagedLocked target).Succeeds ready
        ⟨world.withRegistry target registry, flag, asked, surfaced⟩ :=
      succeeds_takeStagedLocked hinside hfree
    simpa [Operation.Succeeds, Operation.program, Operation.outcome?, Registry.access, hcount,
      World.registryAt?_withRegistry hinside] using hlocked

theorem succeeds_threads :
    (Operation.threads target).Succeeds ready
      ⟨world.withRegistry target registry, flag, asked, surfaced⟩ := by
  rw [Operation.Succeeds, Operation.program, Registry.threads, undisturbed_roster hfree,
    undisturbed_consult hinside]
  simp [Operation.outcome?, World.registryAt?_withRegistry hinside, World.withRegistry_free hfree,
    Registry.access]

end

section
variable {ready : Prop} {setting : Setting}

theorem undisturbed_does {action : Action} {answer : action.Answer} {later : World}
    {post : Setting → Except Failure action.Answer → Prop}
    (hperform : setting.world.perform? action = some (answer, later))
    (hquiet : (Happening.acted action answer).surfaces = false) :
    Ensures (α := no_index action.Answer) (undisturbed ready) (perform action) setting post ↔
      post { setting with world := later } (.ok answer) := by
  rw [undisturbed_perform hperform, Setting.observe_acted hperform, hquiet]
  rfl

theorem succeeds_makeMailbox (reserve : Nat) :
    (Operation.makeMailbox reserve).Succeeds ready setting := by
  rw [Operation.Succeeds, Operation.program, Mailbox.make, ensures_bind]
  by_cases hroom : Slots.allocatable reserve
  · have hperform : setting.world.perform? (.newMailbox reserve) =
        some (some ⟨setting.world.mailboxes.size⟩,
          { setting.world with mailboxes := setting.world.mailboxes.push (.new reserve) }) := by
      simp [World.perform?, hroom]
    rw [undisturbed_does hperform rfl]
    simp [Operation.outcome?, hroom]
  · have hperform : setting.world.perform? (.newMailbox reserve) = some (none, setting.world) := by
      simp [World.perform?, hroom]
    rw [undisturbed_does hperform rfl]
    simp [Operation.outcome?, hroom]

theorem succeeds_makeRegistry (core : CoreId) (reserve : Nat) :
    (Operation.makeRegistry core reserve).Succeeds ready setting := by
  rw [Operation.Succeeds, Operation.program, Registry.make, ensures_bind, undisturbed_does rfl rfl]
  dsimp only
  rw [undisturbed_does rfl rfl]
  simp [Operation.outcome?]

theorem World.perform?_mailbox_of_none {world : World} {target : Ref .mailbox}
    {access : Mailbox.Access} (hmissing : world.mailboxAt? target = none) :
    world.perform? (.mailbox target access) = none := by
  rw [mailboxAt?] at hmissing
  simp [perform?, accessAt?_eq, hmissing]

theorem World.perform?_registry_of_none {world : World} {target : Ref .registry}
    {access : Registry.Access} (hmissing : world.registryAt? target = none) :
    world.perform? (.registry target access) = none := by
  rw [registryAt?] at hmissing
  simp [perform?, accessAt?_eq, hmissing]

theorem World.perform?_counter_of_none {world : World} {target : Ref .counter}
    {access : SerialCounter.Access} (hmissing : world.counterAt? target = none) :
    world.perform? (.counter target access) = none := by
  rw [counterAt?] at hmissing
  simp [perform?, accessAt?_eq, hmissing]

theorem load_of_counterAt? {world : World} {target : Ref .counter} {counter : SerialCounter}
    (hcounter : world.counterAt? target = some counter) :
    world.perform? (.counter target .load) = some (counter.word, world) := by
  rw [World.counterAt?] at hcounter
  simp [World.perform?, World.accessAt?_eq, hcounter, SerialCounter.access,
    setIfInBounds_self hcounter]

theorem exchange_of_counterAt? {world : World} {target : Ref .counter} {seen : UInt64}
    (hcounter : world.counterAt? target = some ⟨seen⟩) :
    world.perform? (.counter target (.exchange seen (Serial.after seen))) =
      some (none, world.withCounter target ⟨Serial.after seen⟩) := by
  rw [World.counterAt?] at hcounter
  simp [World.perform?, World.accessAt?_eq, hcounter, SerialCounter.access, World.withCounter]

/-- A claim hands out what the counter holds. -/
theorem undisturbed_claim {target : Ref .counter} {counter : SerialCounter}
    (hcounter : setting.world.counterAt? target = some counter) :
    (SerialCounter.claim target).Ensures (undisturbed ready) setting fun later result =>
      result = .ok counter.word ∧
        later = { setting with
          world := setting.world.withCounter target ⟨Serial.after counter.word⟩ } := by
  rw [SerialCounter.claim, ensures_bind, undisturbed_does (load_of_counterAt? hcounter) rfl]
  exact fun _ => ⟨trivial, hcounter, fun later result hleaves => hleaves⟩

/-- A thread is put on both lists of its registry at once. -/
theorem undisturbed_enroll {target : Ref .registry} {registry : Registry} {thread : Ref .thread}
    {world : World} {flag : Bool} {asked surfaced : List Happening}
    (hregistry : world.registryAt? target = some registry) (hfree : world.held = [])
    {post : Setting → Except Failure Unit → Prop} :
    (locked (.roster target) do
        let count : Nat ← perform (.registry target (.enroll thread))
        perform (.registry target (.publish count))).Ensures (undisturbed ready)
          ⟨world, flag, asked, surfaced⟩ post ↔
      post ⟨world.withRegistry target { registry with
          roster := registry.roster.push thread
          pending := registry.pending.push thread
          count := registry.roster.size + 1 }, flag, asked, surfaced⟩ (.ok ()) := by
  have hinside := (Array.getElem?_eq_some_iff.mp hregistry).1
  have hheld : (world.withRegistry target registry).held = [] := hfree
  rw [← World.withRegistry_self hregistry, undisturbed_roster hfree, ensures_bind]
  simp only [undisturbed_consult hinside]
  simp [World.withRegistry_withRegistry, World.withRegistry_free hfree, Registry.access]

/-- A thread is created if there is room for its mailbox; a serial is claimed for it in any case. -/
theorem succeeds_create {target : Ref .registry} {registry : Registry} {counter : SerialCounter}
    (hregistry : setting.world.registryAt? target = some registry)
    (hcounter : setting.world.counterAt? registry.counter = some counter)
    (hfree : setting.world.held = []) :
    (Operation.create target).Succeeds ready setting := by
  rw [Operation.Succeeds, Operation.program, Registry.create, ensures_bind,
    undisturbed_does (World.perform?_registryShape hregistry) rfl]
  refine (undisturbed_claim hcounter).bind ?_ (by simp)
  rintro later serial ⟨hserial, rfl⟩
  obtain rfl : serial = counter.word := by simpa using hserial
  have hroster : ∀ {world : World},
      world.registries = setting.world.registries → world.registryAt? target = some registry := by
    intro world hsame
    rw [World.registryAt?, hsame]
    exact hregistry
  refine (succeeds_makeMailbox registry.reserve).bind ?_ ?_
  · intro later mailbox hmade
    by_cases hroom : Slots.allocatable registry.reserve
    · simp only [Operation.outcome?, hroom, if_true, Option.some.injEq, Prod.mk.injEq,
        Except.ok.injEq] at hmade
      obtain ⟨rfl, rfl⟩ := hmade
      rw [ensures_bind, undisturbed_does rfl rfl]
      dsimp only
      rw [ensures_bind, undisturbed_enroll (hroster (by rfl)) (by exact hfree)]
      dsimp only
      rw [ensures_bind, undisturbed_report]
      simp [Operation.outcome?, hregistry, hcounter, Setting.creating, hroom, Setting.surfacing,
        World.withRegistry, World.withCounter, Registry.shape]
    · simp [Operation.outcome?, hroom] at hmade
  · intro later failure hmade
    by_cases hroom : Slots.allocatable registry.reserve
    · simp [Operation.outcome?, hroom] at hmade
    · simp only [Operation.outcome?, hroom] at hmade
      simp at hmade
      obtain ⟨rfl, rfl⟩ := hmade
      simp [Operation.outcome?, hregistry, hcounter, Setting.creating, hroom]

/-- A claim that fails by chance finds the same serial again. -/
theorem undisturbed_rounds : (undisturbed ready).Rounds := by
  intro procedure setting henters
  cases procedure with
  | claimSerial target seen =>
      have hcounter : setting.world.counterAt? target = some ⟨seen⟩ := henters
      have hload := load_of_counterAt? hcounter
      have hexchange := exchange_of_counterAt? hcounter
      rw [Procedure.code, SerialCounter.claimStep, ensures_bind, ensures_chance]
      rintro (_ | _) _
      · refine ⟨trivial, ?_⟩
        change Ensures _ (perform (.counter target (.exchange seen _)) >>= _) setting _
        rw [ensures_bind, undisturbed_does hexchange rfl]
        exact ⟨rfl, rfl⟩
      · refine ⟨trivial, ?_⟩
        change Ensures _ (perform (.counter target .load) >>= _) setting _
        rw [ensures_bind, undisturbed_does hload rfl]
        exact fun _ => ⟨trivial, hcounter, fun later result hleaves => hleaves⟩
  | runLoop context => exact henters.elim
  | idle => exact henters.elim

def Operation.isTraffic : Operation → Bool
  | .makeMailbox _ | .push _ _ | .pushFromInterrupt _ _ | .drain _ | .drainLocked _ | .capacity _
  | .makeRegistry _ _ | .create _ | .takeStaged _ | .takeStagedLocked _ | .threads _ => true
  | _ => false

/-- An operation that comes to nothing waits for what is not there. -/
theorem undisturbed_starves {operation : Operation}
    {post : Setting → Except Failure operation.Reply → Prop} (hready : ¬ ready)
    (htraffic : operation.isTraffic) (hfree : setting.world.held = [])
    (hnothing : operation.outcome? setting = none) :
    operation.program.Ensures (undisturbed ready) setting post := by
  -- What is missing at first is still missing when the lock is held.
  have hmailbox : ∀ {target : Ref .mailbox} {access : Mailbox.Access} {held : List Lock},
      setting.world.mailboxAt? target = none →
        World.perform? { setting.world with held := held } (.mailbox target access) = none :=
    fun hmissing => World.perform?_mailbox_of_none hmissing
  have hregistry : ∀ {target : Ref .registry} {access : Registry.Access} {held : List Lock},
      setting.world.registryAt? target = none →
        World.perform? { setting.world with held := held } (.registry target access) = none :=
    fun hmissing => World.perform?_registry_of_none hmissing
  cases operation with
  | push target message =>
      rw [Operation.program, Mailbox.push, undisturbed_masked, undisturbed_locked (by exact hfree)]
      exact undisturbed_waits (hmailbox (Option.map_eq_none_iff.mp hnothing)) hready
  | pushFromInterrupt target message =>
      rw [Operation.program, Mailbox.pushFromInterrupt, undisturbed_locked (by exact hfree)]
      exact undisturbed_waits (hmailbox (Option.map_eq_none_iff.mp hnothing)) hready
  | drain target =>
      exact undisturbed_waits (hmailbox (Option.map_eq_none_iff.mp hnothing)) hready
  | drainLocked target =>
      rw [Operation.program, Mailbox.drainLocked, ensures_bind, undisturbed_masked,
        undisturbed_locked (by exact hfree)]
      exact undisturbed_waits (hmailbox (Option.map_eq_none_iff.mp hnothing)) hready
  | capacity target =>
      rw [Operation.program, Mailbox.capacity, undisturbed_masked,
        undisturbed_locked (by exact hfree)]
      exact undisturbed_waits (hmailbox (Option.map_eq_none_iff.mp hnothing)) hready
  | create target =>
      simp only [Operation.outcome?, Option.bind_eq_none_iff, Option.map_eq_none_iff] at hnothing
      cases hfound : setting.world.registryAt? target with
      | none => exact undisturbed_waits (hregistry hfound) hready
      | some registry =>
          have hmissing := hnothing registry hfound
          rw [Operation.program, Registry.create, ensures_bind,
            undisturbed_does (World.perform?_registryShape hfound) rfl]
          exact undisturbed_waits (World.perform?_counter_of_none hmissing) hready
  | takeStaged target =>
      exact undisturbed_waits (hregistry (Option.map_eq_none_iff.mp hnothing)) hready
  | takeStagedLocked target =>
      rw [Operation.program, Registry.takeStagedLocked, undisturbed_locked (by exact hfree)]
      exact undisturbed_waits (hregistry (Option.map_eq_none_iff.mp hnothing)) hready
  | threads target =>
      rw [Operation.program, Registry.threads, undisturbed_locked (by exact hfree)]
      exact undisturbed_waits (hregistry (Option.map_eq_none_iff.mp hnothing)) hready
  | makeMailbox reserve =>
      simp only [Operation.outcome?] at hnothing
      split at hnothing <;> cases hnothing
  | makeRegistry core reserve => cases hnothing
  | _ => cases htraffic

theorem succeeds_of_mailbox {operation : Operation} {target : Ref .mailbox} {mailbox : Mailbox}
    (hworld : setting.world.Quiescent) (hfound : setting.world.mailboxAt? target = some mailbox)
    (hsucceeds : target.index < setting.world.mailboxes.size → setting.world.held = [] →
      mailbox.Orderly → operation.Succeeds ready
        ⟨setting.world.withMailbox target mailbox, setting.flag, setting.asked, setting.surfaced⟩) :
    operation.Succeeds ready setting := by
  have hinside := (Array.getElem?_eq_some_iff.mp hfound).1
  have hplaced := hsucceeds hinside hworld.free (hworld.mailboxes hfound)
  rwa [World.withMailbox_self hfound] at hplaced

theorem succeeds_of_registry {operation : Operation} {target : Ref .registry} {registry : Registry}
    (hworld : setting.world.Quiescent) (hfound : setting.world.registryAt? target = some registry)
    (hsucceeds : target.index < setting.world.registries.size → setting.world.held = [] →
      registry.Orderly → operation.Succeeds ready
        ⟨setting.world.withRegistry target registry, setting.flag, setting.asked,
          setting.surfaced⟩) :
    operation.Succeeds ready setting := by
  have hinside := (Array.getElem?_eq_some_iff.mp hfound).1
  have hplaced := hsucceeds hinside hworld.free (hworld.registries hfound)
  rwa [World.withRegistry_self hfound] at hplaced

/-- Every operation on mailboxes and registries comes to its outcome, when no other is going on. -/
theorem Operation.succeeds {operation : Operation} (htraffic : operation.isTraffic)
    (hworld : setting.world.Quiescent) (hready : ready → (operation.outcome? setting).isSome) :
    operation.Succeeds ready setting := by
  cases hsome : operation.outcome? setting with
  | none =>
      refine undisturbed_starves (fun hnow => ?_) htraffic hworld.free hsome
      simp [hsome] at hready
      exact hready hnow
  | some outcome =>
      cases operation with
      | makeMailbox reserve => exact succeeds_makeMailbox reserve
      | push target message =>
          obtain ⟨mailbox, hfound, -⟩ := Option.map_eq_some_iff.mp hsome
          exact succeeds_of_mailbox hworld hfound fun hinside hfree _ =>
            succeeds_push hinside hfree message
      | pushFromInterrupt target message =>
          obtain ⟨mailbox, hfound, -⟩ := Option.map_eq_some_iff.mp hsome
          exact succeeds_of_mailbox hworld hfound fun hinside hfree _ =>
            succeeds_pushFromInterrupt hinside hfree message
      | drain target =>
          obtain ⟨mailbox, hfound, -⟩ := Option.map_eq_some_iff.mp hsome
          exact succeeds_of_mailbox hworld hfound succeeds_drain
      | drainLocked target =>
          obtain ⟨mailbox, hfound, -⟩ := Option.map_eq_some_iff.mp hsome
          exact succeeds_of_mailbox hworld hfound succeeds_drainLocked
      | capacity target =>
          obtain ⟨mailbox, hfound, -⟩ := Option.map_eq_some_iff.mp hsome
          exact succeeds_of_mailbox hworld hfound fun hinside hfree _ =>
            succeeds_capacity hinside hfree
      | makeRegistry core reserve => exact succeeds_makeRegistry core reserve
      | create target =>
          obtain ⟨registry, hfound, hcreated⟩ := Option.bind_eq_some_iff.mp hsome
          obtain ⟨counter, hcounter, -⟩ := Option.map_eq_some_iff.mp hcreated
          exact succeeds_create hfound hcounter hworld.free
      | takeStaged target =>
          obtain ⟨registry, hfound, -⟩ := Option.map_eq_some_iff.mp hsome
          exact succeeds_of_registry hworld hfound succeeds_takeStaged
      | takeStagedLocked target =>
          obtain ⟨registry, hfound, -⟩ := Option.map_eq_some_iff.mp hsome
          exact succeeds_of_registry hworld hfound fun hinside hfree _ =>
            succeeds_takeStagedLocked hinside hfree
      | threads target =>
          obtain ⟨registry, hfound, -⟩ := Option.map_eq_some_iff.mp hsome
          exact succeeds_of_registry hworld hfound fun hinside hfree _ =>
            succeeds_threads hinside hfree
      | _ => cases htraffic

end

end CoreEngines
