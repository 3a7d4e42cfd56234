import CoreEngines.Inspection
import CoreEngines.Proofs.Actions
import CoreEngines.Proofs.Runs

/-!
Permanence.  Objects are never removed, and the parts of them that are given when they are made
never change; so whatever a run was told of these is true ever after.
-/

namespace CoreEngines

namespace World

/-- The parts of an engine that never change, -/
def engineShape? (world : World) (target : Ref .engine) : Option EngineShape :=
  (world.engineAt? target).map (·.shape)

/-- those of a context, -/
def contextShape? (world : World) (target : Ref .context) : Option ContextShape :=
  (world.contextAt? target).map (·.shape)

/-- the reserve of a mailbox, -/
def reserveOf? (world : World) (target : Ref .mailbox) : Option Nat :=
  (world.mailboxAt? target).map (·.reserve)

/-- and those of a registry. -/
def registryShape? (world : World) (target : Ref .registry) : Option Registry.Shape :=
  (world.registryAt? target).map (·.shape)

/-- All that is there in a world is there later, and is what it was. -/
structure Outlasts (world later : World) : Prop where
  engines : ∀ {target shape}, world.engineShape? target = some shape →
    later.engineShape? target = some shape
  contexts : ∀ {target shape}, world.contextShape? target = some shape →
    later.contextShape? target = some shape
  registries : ∀ {target shape}, world.registryShape? target = some shape →
    later.registryShape? target = some shape
  threads : ∀ {target id}, world.threadId? target = some id → later.threadId? target = some id
  owners : ∀ {target mailbox}, world.mailboxOf? target = some mailbox →
    later.mailboxOf? target = some mailbox
  reserves : ∀ {target reserve}, world.reserveOf? target = some reserve →
    later.reserveOf? target = some reserve

theorem Outlasts.refl (world : World) : world.Outlasts world where
  engines hshape := hshape
  contexts hshape := hshape
  registries hshape := hshape
  threads hid := hid
  owners hmailbox := hmailbox
  reserves hreserve := hreserve

theorem Outlasts.trans {world middle later : World} (hfirst : world.Outlasts middle)
    (hsecond : middle.Outlasts later) : world.Outlasts later where
  engines hshape := hsecond.engines (hfirst.engines hshape)
  contexts hshape := hsecond.contexts (hfirst.contexts hshape)
  registries hshape := hsecond.registries (hfirst.registries hshape)
  threads hid := hsecond.threads (hfirst.threads hid)
  owners hmailbox := hsecond.owners (hfirst.owners hmailbox)
  reserves hreserve := hsecond.reserves (hfirst.reserves hreserve)

section
variable {σ τ : Type} {objects : Array σ} {kind : Kind} {tell : σ → τ} {told : τ}

/-- What is told of all objects stays when one of them changes in other ways, -/
theorem map_setIfInBounds {place : Ref kind} {old : σ} (hold : objects[place.index]? = some old)
    {value : σ} (hvalue : tell value = tell old) (other : Ref kind) :
    (objects.setIfInBounds place.index value)[other.index]?.map tell =
      objects[other.index]?.map tell := by
  by_cases hother : other = place
  · subst hother
    rw [getElem?_setIfInBounds_self hold, hold, Option.map_some, Option.map_some, hvalue]
  · rw [getElem?_setIfInBounds_of_ne hother]

/-- and when another one is made. -/
theorem map_push {value : σ} {other : Ref kind}
    (htold : objects[other.index]?.map tell = some told) :
    (objects.push value)[other.index]?.map tell = some told := by
  obtain ⟨object, hobject, rfl⟩ := Option.map_eq_some_iff.mp htold
  have hinside : other.index < objects.size := (Array.getElem?_eq_some_iff.mp hobject).1
  rw [Array.getElem?_push, if_neg (Nat.ne_of_lt hinside), hobject, Option.map_some]

end

variable {world later : World}

theorem engine_access_shape {object object' : Engine} {access : Engine.Access}
    {answer : access.Answer} (haccess : object.access? access = some (answer, object')) :
    object'.shape = object.shape := by
  cases access with
  | claimContext =>
      simp only [Engine.access?, Option.map_eq_some_iff] at haccess
      obtain ⟨_, _, heq⟩ := haccess
      cases heq
      rfl
  | _ => cases haccess; rfl

theorem context_access_shape {object object' : Context} {access : Context.Access}
    {answer : access.Answer} (haccess : object.access? access = some (answer, object')) :
    object'.shape = object.shape := by
  cases access with
  | claimCache =>
      simp only [Context.access?, Option.map_eq_some_iff] at haccess
      obtain ⟨_, _, heq⟩ := haccess
      cases heq
      rfl
  | _ => cases haccess; rfl

theorem thread_access_id (thread : Thread) (access : Thread.Access) :
    (thread.access access).2.id = thread.id := by
  cases access with
  | bind sched => cases hsched : thread.sched <;> simp [Thread.access, hsched]
  | _ => rfl

theorem thread_access_mailbox (thread : Thread) (access : Thread.Access) :
    (thread.access access).2.mailbox = thread.mailbox := by
  cases access with
  | bind sched => cases hsched : thread.sched <;> simp [Thread.access, hsched]
  | _ => rfl

theorem mailbox_access_reserve (mailbox : Mailbox) (access : Mailbox.Access) :
    (mailbox.access access).2.reserve = mailbox.reserve := by
  cases access with
  | offer message => simp only [Mailbox.access]; split <;> rfl
  | replenish => simp only [Mailbox.access]; split <;> rfl
  | _ => rfl

theorem registry_access_shape (registry : Registry) (access : Registry.Access) :
    (registry.access access).2.shape = registry.shape := by
  cases access <;> rfl

/-- Nothing that happens removes an object or changes what it was made with. -/
theorem outlasts_after {happening : Happening} (hafter : world.After happening later) :
    world.Outlasts later := by
  cases happening with
  | acted action answer =>
      cases effect_of_perform? hafter with
      | engine hobject haccess =>
          refine { Outlasts.refl world with engines := fun hshape => ?_ }
          exact (map_setIfInBounds hobject (engine_access_shape haccess) _).trans hshape
      | context hobject haccess =>
          refine { Outlasts.refl world with contexts := fun hshape => ?_ }
          exact (map_setIfInBounds hobject (context_access_shape haccess) _).trans hshape
      | registry access hobject =>
          refine { Outlasts.refl world with registries := fun hshape => ?_ }
          exact (map_setIfInBounds hobject (registry_access_shape _ access) _).trans hshape
      | thread access hobject =>
          refine { Outlasts.refl world with threads := fun hid => ?_, owners := fun howner => ?_ }
          · exact (map_setIfInBounds hobject (thread_access_id _ access) _).trans hid
          · exact (map_setIfInBounds hobject (thread_access_mailbox _ access) _).trans howner
      | mailbox access hobject =>
          refine { Outlasts.refl world with reserves := fun hreserve => ?_ }
          exact (map_setIfInBounds hobject (mailbox_access_reserve _ access) _).trans hreserve
      | newEngine shape => exact { Outlasts.refl world with engines := map_push }
      | newContext shape => exact { Outlasts.refl world with contexts := map_push }
      | newRegistry core reserve counter =>
          exact { Outlasts.refl world with registries := map_push }
      | newThread id mailbox =>
          exact { Outlasts.refl world with threads := map_push, owners := map_push }
      | newMailbox hroom => exact { Outlasts.refl world with reserves := map_push }
      | _ => exact ⟨id, id, id, id, id, id⟩
  | _ =>
      obtain rfl : later = world := hafter
      exact Outlasts.refl later

/-- The world is as a step was told that it is, or as the step has made it. -/
def Bears (world : World) : Happening → Prop
  | .acted (.engine target .shape) shape => world.engineShape? target = some shape
  | .acted (.registry target .shape) shape => world.registryShape? target = some shape
  | .acted (.newThread id mailbox) thread =>
      world.threadId? thread = some id ∧ world.mailboxOf? thread = some mailbox
  | .acted (.newMailbox reserve) (some mailbox) => world.reserveOf? mailbox = some reserve
  | .acted (.newRegistry core reserve counter) registry =>
      world.registryShape? registry = some ⟨core, reserve, counter⟩
  | .acted (.newContext shape) context => world.contextShape? context = some shape
  | .acted (.newEngine shape) engine => world.engineShape? engine = some shape
  | _ => True

theorem Outlasts.bears {happening : Happening} (houtlasts : world.Outlasts later)
    (hbears : world.Bears happening) : later.Bears happening := by
  unfold Bears at hbears ⊢
  split
  · exact houtlasts.engines hbears
  · exact houtlasts.registries hbears
  · exact hbears.imp houtlasts.threads houtlasts.owners
  · exact houtlasts.reserves hbears
  · exact houtlasts.registries hbears
  · exact houtlasts.contexts hbears
  · exact houtlasts.engines hbears
  · trivial

theorem bears_after {happening : Happening} (hafter : world.After happening later) :
    later.Bears happening := by
  cases happening with
  | acted action answer =>
      cases effect_of_perform? hafter with
      | @engine target object object' access answer hobject haccess =>
          cases access with
          | shape =>
              cases haccess
              exact (map_setIfInBounds hobject rfl _).trans (congrArg (Option.map _) hobject)
          | _ => trivial
      | @registry target object access hobject =>
          cases access with
          | shape => exact (map_setIfInBounds hobject rfl _).trans (congrArg (Option.map _) hobject)
          | _ => trivial
      | newEngine shape => simp [Bears, engineShape?, engineAt?, Engine.new]
      | newContext shape => simp [Bears, contextShape?, contextAt?, Context.new]
      | newRegistry core reserve counter =>
          simp [Bears, registryShape?, registryAt?, Registry.new, Registry.shape]
      | newThread id mailbox => simp [Bears, threadId?, mailboxOf?, threadAt?, Thread.new]
      | newMailbox hroom => simp [Bears, reserveOf?, mailboxAt?, Mailbox.new]
      | _ => trivial
  | _ => trivial

/-- A registry that is there was there before, or was made just now. -/
theorem registryShape?_after {happening : Happening} {target : Ref .registry}
    {shape : Registry.Shape} (hafter : world.After happening later)
    (hshape : later.registryShape? target = some shape) :
    world.registryShape? target = some shape ∨
      happening = .acted (.newRegistry shape.core shape.reserve shape.counter) target := by
  cases happening with
  | acted action answer =>
      cases effect_of_perform? hafter with
      | registry access hobject =>
          exact Or.inl
            ((map_setIfInBounds hobject (registry_access_shape _ access) _).symm.trans hshape)
      | newRegistry core reserve counter =>
          by_cases htarget : target.index = world.registries.size
          · obtain rfl : target = ⟨world.registries.size⟩ := congrArg Ref.mk htarget
            simp only [registryShape?, registryAt?, Array.getElem?_push_size] at hshape
            cases hshape
            exact Or.inr rfl
          · rw [registryShape?, registryAt?, Array.getElem?_push, if_neg htarget] at hshape
            exact Or.inl hshape
      | _ => exact Or.inl hshape
  | _ =>
      obtain rfl : later = world := hafter
      exact Or.inl hshape

end World

/-- Whatever is there when a run has come so far is there at its end. -/
theorem Runs.outlasts {start world : World} {before after : History} {flows : Nat → Flow}
    (hrun : Runs start (before ++ after) world flows) :
    ∃ past pastFlows, Runs start before past pastFlows ∧ past.Outlasts world := by
  generalize hhistory : before ++ after = history at hrun
  induction hrun generalizing after with
  | idle =>
      obtain ⟨rfl, _⟩ := List.append_eq_nil_iff.mp hhistory
      exact ⟨start, _, .idle, .refl start⟩
  | move hrun hmove ih =>
      rcases List.eq_nil_or_concat after with rfl | ⟨rest, last, rfl⟩
      · rw [List.append_nil] at hhistory
        subst hhistory
        exact ⟨_, _, .move hrun hmove, .refl _⟩
      · rw [List.concat_eq_append, ← List.append_assoc] at hhistory
        obtain ⟨past, pastFlows, hpast, houtlasts⟩ := ih (List.append_inj' hhistory rfl).1
        exact ⟨past, pastFlows, hpast, houtlasts.trans (World.outlasts_after hmove.after)⟩

/-- Whatever happened in a run led from one state to the next, and what was there then is there at
the end. -/
theorem Runs.turn {start world : World} {before after : History} {flows : Nat → Flow} {index : Nat}
    {happening : Happening}
    (hrun : Runs start (before ++ (index, happening) :: after) world flows) :
    ∃ past pastFlows later laterFlows, Runs start before past pastFlows ∧
      Runs start (before ++ [(index, happening)]) later laterFlows ∧
        past.After happening later ∧ later.Outlasts world := by
  rw [List.append_cons] at hrun
  obtain ⟨later, laterFlows, hnext, houtlasts⟩ := hrun.outlasts
  have hmoment := hnext
  generalize hhistory : before ++ [(index, happening)] = history at hmoment
  cases hmoment with
  | idle => simp at hhistory
  | move hpast hmove =>
      obtain ⟨rfl, hlast⟩ := List.append_inj' hhistory rfl
      cases hlast
      exact ⟨_, _, _, _, hpast, hnext, hmove.after, houtlasts⟩

/-- Whatever a run was told of objects is true ever after. -/
theorem Runs.bears {start world : World} {history : History} {flows : Nat → Flow}
    (hrun : Runs start history world flows) :
    ∀ happening ∈ history.map Prod.snd, world.Bears happening := by
  refine hrun.keeps (fun history world =>
    ∀ happening ∈ history.map Prod.snd, world.Bears happening) ?_ ?_
  · simp
  · intro history world happening later index hbears hafter other hmem
    rw [List.map_append, List.map_singleton, List.mem_append, List.mem_singleton] at hmem
    rcases hmem with hold | rfl
    · exact (World.outlasts_after hafter).bears (hbears other hold)
    · exact World.bears_after hafter

/-- Every registry that is there was made in the run. -/
theorem Runs.registry_made {history : History} {world : World} {flows : Nat → Flow}
    {target : Ref .registry} {shape : Registry.Shape} (hrun : Runs {} history world flows)
    (hshape : world.registryShape? target = some shape) :
    .acted (.newRegistry shape.core shape.reserve shape.counter) target ∈
      history.map Prod.snd := by
  revert hshape
  refine hrun.keeps (fun history world => world.registryShape? target = some shape →
    .acted (.newRegistry shape.core shape.reserve shape.counter) target ∈
      history.map Prod.snd) ?_ ?_
  · intro hshape
    simp [World.registryShape?, World.registryAt?] at hshape
  · intro history world happening later index hmade hafter hshape
    rw [List.map_append, List.map_singleton, List.mem_append, List.mem_singleton]
    exact (World.registryShape?_after hafter hshape).imp hmade Eq.symm

/-- Who looks at a context sees what it has always been. -/
theorem Runs.contextShape_of_read {start world : World} {history : History} {flows : Nat → Flow}
    {place : Ref .context} {shape : ContextShape} (hrun : Runs start history world flows)
    (hread : .acted (.context place .shape) shape ∈ history.map Prod.snd) :
    world.contextShape? place = some shape := by
  revert hread
  refine hrun.keeps (fun history world => .acted (.context place .shape) shape ∈
    history.map Prod.snd → world.contextShape? place = some shape) (by simp) ?_
  intro history world happening later index hholds hafter hread
  rw [List.map_append, List.mem_append, List.map_singleton, List.mem_singleton] at hread
  rcases hread with hread | rfl
  · exact (World.outlasts_after hafter).contexts (hholds hread)
  · cases World.effect_of_perform? hafter with
    | context hobject haccess =>
        cases haccess
        exact (World.map_setIfInBounds hobject rfl _).trans (congrArg (Option.map _) hobject)

end CoreEngines
