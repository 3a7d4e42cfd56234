import CoreEngines.Proofs.Courses.Stories
import CoreEngines.Proofs.Permanence

/-!
Tables as they are built.  The engine at each place of a table is that of the core with the number
of the place, and so are its registry and the threads in it; so the core of a thread tells which
engine of the table it belongs to.
-/

namespace CoreEngines

theorem World.registryOf?_of_shape {world : World} {engine : Ref .engine} {shape : EngineShape}
    (hshape : world.engineShape? engine = some shape) :
    world.registryOf? engine = some shape.registry := by
  obtain ⟨object, hobject, rfl⟩ := Option.map_eq_some_iff.mp hshape
  rw [World.registryOf?, hobject]
  rfl

namespace Table

/-- An engine sits at the place of its core, on a registry of the same core. -/
structure Seats (table : Table) (world : World) (engine : Ref .engine) (shape : EngineShape)
    (threads : Registry.Shape) : Prop where
  place : table.engines[shape.core.index]? = some engine
  engine : world.engineShape? engine = some shape
  registry : world.registryShape? shape.registry = some threads
  core : threads.core = shape.core

section
variable {table : Table} {world : World} {engine engine' : Ref .engine}
  {shape shape' : EngineShape} {threads threads' : Registry.Shape}

theorem Seats.registryOf? (hseats : table.Seats world engine shape threads) :
    world.registryOf? engine = some shape.registry :=
  World.registryOf?_of_shape hseats.engine

/-- The core tells where in the table an engine sits, -/
theorem Seats.engine_eq (hseats : table.Seats world engine shape threads)
    (hseats' : table.Seats world engine' shape' threads') (hcore : threads.core = threads'.core) :
    engine = engine' := by
  have hsame : shape.core = shape'.core := by rw [← hseats.core, ← hseats'.core, hcore]
  have hplace := hseats.place
  rw [hsame, hseats'.place] at hplace
  exact (Option.some.inj hplace).symm

/-- and an engine is made once, on one registry. -/
theorem Seats.shape_eq (hseats : table.Seats world engine shape threads)
    (hseats' : table.Seats world engine shape' threads') : shape = shape' ∧ threads = threads' := by
  obtain rfl : shape = shape' := Option.some.inj (hseats.engine.symm.trans hseats'.engine)
  exact ⟨rfl, Option.some.inj (hseats.registry.symm.trans hseats'.registry)⟩

end

/-- What is made for one core of a table is made. -/
theorem mem_making (config : Config) (first : UInt32) {modes : List Mode} {parts : List Part}
    {place : Nat} {mode : Mode} {part : Part} (hmode : modes[place]? = some mode)
    (hpart : parts[place]? = some part) :
    part.making config ⟨first + .ofNat place⟩ mode ⊆ making config first modes parts := by
  induction modes generalizing first parts place with
  | nil => cases hmode
  | cons head modes ih =>
      cases parts with
      | nil => cases hpart
      | cons made parts =>
          intro happening hmem
          rw [making, List.mem_append]
          cases place with
          | zero =>
              cases hmode
              cases hpart
              exact Or.inl (by simpa using hmem)
          | succ place =>
              have hcore : first + 1 + .ofNat place = first + .ofNat (place + 1) := by
                rw [UInt32.ofNat_add, UInt32.add_assoc, UInt32.add_comm 1]
                rfl
              refine Or.inr (ih (first + 1) hmode hpart ?_)
              rwa [hcore]

end Table

section
variable {history : History} {world : World} {flows : Nat → Flow} {index : Nat} {config : Config}
  {modes : List Mode} {table : Table} {engine : Ref .engine}

/-- Every engine of a table that was built is one of the parts that were made for it. -/
theorem Runs.part (hrun : Runs {} history world flows)
    (htable : (index, .finished (.buildTable config modes) (.ok table)) ∈ history)
    (hengine : engine ∈ table.engines) :
    ∃ (place : Nat) (mode : Mode) (part : Table.Part), place < modes.length ∧
      table.engines[place]? = some engine ∧
        world.engineShape? engine = some ⟨⟨.ofNat place⟩, mode, config, part.registry⟩ ∧
          world.registryShape? part.registry =
              some ⟨⟨.ofNat place⟩, config.mailboxReserve, part.counter⟩ ∧
            .acted (.newCounter .initial) part.counter ∈ history.map Prod.snd := by
  obtain ⟨number, story, hown, hfinished⟩ := hrun.returner htable
  obtain ⟨parts, hlength, hcourse, hengines⟩ := hrun.ends hown hfinished
  obtain ⟨place, hplace⟩ := List.mem_iff_getElem?.mp (Array.mem_toList_iff.mpr hengine)
  have hseat := hplace
  rw [hengines, List.getElem?_map, Option.map_eq_some_iff] at hplace
  obtain ⟨part, hpart, rfl⟩ := hplace
  have hinside : place < modes.length := by
    rw [← hlength]
    exact (List.getElem?_eq_some_iff.mp hpart).1
  have hmade : ∀ happening ∈ part.making config ⟨.ofNat place⟩ modes[place],
      happening ∈ history.map Prod.snd := by
    intro happening hmem
    have hall := Table.mem_making config 0 (List.getElem?_eq_getElem hinside) hpart
    rw [UInt32.zero_add, ← hcourse] at hall
    exact hrun.mem_history hown (Operation.mem_course.mp (hall hmem)).1
  refine ⟨place, modes[place], part, hinside, by rwa [← Array.getElem?_toList], ?_, ?_, ?_⟩
  · exact hrun.bears _ (hmade (.acted (.newEngine _) part.engine) (by simp [Table.Part.making]))
  · exact hrun.bears _ (hmade (.acted (.newRegistry _ _ part.counter) part.registry)
      (by simp [Table.Part.making, Registry.making]))
  · exact hmade _ (by simp [Table.Part.making, Registry.making])

/-- Every engine of a table that was built has its seat, and a counter that started at one. -/
theorem Runs.seats (hrun : Runs {} history world flows)
    (htable : (index, .finished (.buildTable config modes) (.ok table)) ∈ history)
    (hmodes : modes.length < UInt32.size) (hengine : engine ∈ table.engines) :
    ∃ shape threads, table.Seats world engine shape threads ∧
      .acted (.newCounter .initial) threads.counter ∈ history.map Prod.snd := by
  obtain ⟨place, mode, part, hinside, hseat, hshape, hregistry, hcounter⟩ :=
    hrun.part htable hengine
  have hindex : (UInt32.ofNat place).toNat = place :=
    UInt32.toNat_ofNat_of_lt' (Nat.lt_trans hinside hmodes)
  refine ⟨_, _, ⟨?_, hshape, hregistry, rfl⟩, hcounter⟩
  rwa [CoreId.index, hindex]

/-- The registry of an engine reserves slots for its threads as the table was told to. -/
theorem Runs.registry_of_engine {registry : Ref .registry} (hrun : Runs {} history world flows)
    (htable : (index, .finished (.buildTable config modes) (.ok table)) ∈ history)
    (hengine : engine ∈ table.engines) (hregistry : world.registryOf? engine = some registry) :
    ∃ shape, world.registryShape? registry = some shape ∧
      shape.reserve = config.mailboxReserve := by
  obtain ⟨place, mode, part, _, _, hshape, hthreads, _⟩ := hrun.part htable hengine
  obtain rfl := Option.some.inj (hregistry.symm.trans (World.registryOf?_of_shape hshape))
  exact ⟨_, hthreads, rfl⟩

end

end CoreEngines
