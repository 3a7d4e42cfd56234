import CoreEngines.Proofs.Identity.Serials

/-!
Counters and those who use them.  Every registry has a counter of its own, so the serials that a
counter hands out go to those who create threads in its registry, and to nobody else but those who
name the counter.
-/

namespace CoreEngines

def Happening.based? (counter : Ref .counter) : Happening → Option (Ref .registry)
  | .acted (.newRegistry _ _ base) registry => if base = counter then some registry else none
  | _ => none

def basedIn (counter : Ref .counter) (story : List Happening) : List (Ref .registry) :=
  story.filterMap (·.based? counter)

/-- An operation starts that may claim a serial of the counter of a registry. -/
def Happening.draws (registry : Ref .registry) (counter : Ref .counter) : Happening → Bool
  | .started (.create target) => target = registry
  | .started (.claimSerial target) => target = counter
  | _ => false

theorem Happening.based?_eq_some {happening : Happening} {counter : Ref .counter}
    {registry : Ref .registry} :
    happening.based? counter = some registry ↔
      ∃ core reserve, happening = .acted (.newRegistry core reserve counter) registry := by
  constructor
  · intro hbased
    unfold based? at hbased
    split at hbased
    · obtain ⟨rfl, hsame⟩ := Option.ite_none_right_eq_some.mp hbased
      cases hsame
      exact ⟨_, _, rfl⟩
    · cases hbased
  · rintro ⟨core, reserve, rfl⟩
    exact if_pos rfl

theorem Happening.topic_of_based? {happening : Happening} {counter : Ref .counter}
    {registry : Ref .registry} (hbased : happening.based? counter = some registry) :
    happening.topic? = some .outfit := by
  obtain ⟨core, reserve, rfl⟩ := based?_eq_some.mp hbased
  rfl

theorem basedIn_append (counter : Ref .counter) (left right : List Happening) :
    basedIn counter (left ++ right) = basedIn counter left ++ basedIn counter right :=
  List.filterMap_append

theorem foundedIn_append (counter : Ref .counter) (left right : List Happening) :
    foundedIn counter (left ++ right) = foundedIn counter left ++ foundedIn counter right :=
  List.filterMap_append

/-- Whoever makes a registry first makes its counter, -/
theorem Registry.based_of_making {core : CoreId} {reserve : Nat} {base : Ref .counter}
    {registry : Ref .registry} {made : List Happening} (counter : Ref .counter)
    (hmade : made <+: making core reserve base registry) :
    (basedIn counter made).length ≤ (foundedIn counter made).length := by
  rcases List.prefix_concat_iff.mp (show made <+: [_] ++ [_] from hmade) with rfl | hshort
  · by_cases hbase : base = counter
    · have hfounded : Happening.founded? counter (.acted (.newCounter .initial) base) = some 1 :=
        if_pos hbase
      refine Nat.le_trans (List.length_filterMap_le _ [_]) ?_
      rw [foundedIn, List.singleton_append, List.filterMap_cons_some hfounded]
      exact Nat.succ_le_succ (Nat.zero_le _)
    · have hbased : Happening.based? counter
          (.acted (.newRegistry core reserve base) registry) = none := if_neg hbase
      rw [basedIn, List.singleton_append, List.filterMap_cons_none rfl,
        List.filterMap_cons_none hbased]
      exact Nat.zero_le _
  · have hnone := (hshort.sublist.filterMap (·.based? counter)).length_le
    exact hnone.trans (Nat.zero_le _)

/-- and has started it at one. -/
theorem Registry.initial_of_making {core : CoreId} {reserve : Nat} {base counter : Ref .counter}
    {registry target : Ref .registry} {made : List Happening}
    (hmade : made <+: making core reserve base registry) (hbased : target ∈ basedIn counter made) :
    .acted (.newCounter .initial) counter ∈ made := by
  rcases List.prefix_concat_iff.mp (show made <+: [_] ++ [_] from hmade) with rfl | hshort
  · obtain ⟨_, hmem, hsome⟩ := List.mem_filterMap.mp hbased
    obtain ⟨_, _, rfl⟩ := Happening.based?_eq_some.mp hsome
    obtain hfounding | hbase := List.mem_cons.mp hmem
    · cases hfounding
    · cases List.mem_singleton.mp hbase
      exact List.mem_cons_self
  · cases (hshort.sublist.filterMap (·.based? counter)).subset hbased

/-- What holds of all that is made for one core, and of what is made for one core after another,
holds of all that is made for a table. -/
theorem Table.making_induction {motive : List Happening → Prop} {config : Config} {first : UInt32}
    {modes : List Mode} {parts : List Part} {made : List Happening} (nil : motive [])
    (part : ∀ (part : Part) core mode made, made <+: part.making config core mode → motive made)
    (append : ∀ left right, motive left → motive right → motive (left ++ right))
    (hmade : made <+: making config first modes parts) : motive made := by
  induction modes generalizing first parts made with
  | nil =>
      rw [List.prefix_nil.mp hmade]
      exact nil
  | cons mode modes ih =>
      cases parts with
      | nil =>
          rw [List.prefix_nil.mp hmade]
          exact nil
      | cons head parts =>
          rcases List.prefix_or_prefix_of_prefix hmade (List.prefix_append _ _) with hshort | hlong
          · exact part head ⟨first⟩ mode made hshort
          · obtain ⟨rest, rfl⟩ := hlong
            exact append _ _ (part head ⟨first⟩ mode _ (List.prefix_refl _))
              (ih ((List.prefix_append_right_inj _).mp hmade))

/-- Whoever makes a table does so for every registry of the table, -/
theorem Table.based_of_making {config : Config} {first : UInt32} {modes : List Mode}
    {parts : List Part} {made : List Happening} (counter : Ref .counter)
    (hmade : made <+: making config first modes parts) :
    (basedIn counter made).length ≤ (foundedIn counter made).length := by
  refine making_induction
    (motive := fun made => (basedIn counter made).length ≤ (foundedIn counter made).length)
    (Nat.le_refl 0) ?_ ?_ hmade
  · intro part core mode made hmade
    rcases List.prefix_concat_iff.mp hmade with rfl | hmade
    · have hregistry := Registry.based_of_making counter (List.prefix_refl
        (Registry.making core config.mailboxReserve part.counter part.registry))
      rwa [basedIn_append, foundedIn_append, show basedIn counter [_] = [] from rfl,
        show foundedIn counter [_] = [] from rfl, List.append_nil, List.append_nil]
    · exact Registry.based_of_making counter hmade
  · intro left right hleft hright
    rw [basedIn_append, foundedIn_append, List.length_append, List.length_append]
    exact Nat.add_le_add hleft hright

/-- and starts their counters at one. -/
theorem Table.initial_of_making {config : Config} {first : UInt32} {modes : List Mode}
    {parts : List Part} {made : List Happening} {counter : Ref .counter} {target : Ref .registry}
    (hmade : made <+: making config first modes parts) (hbased : target ∈ basedIn counter made) :
    .acted (.newCounter .initial) counter ∈ made := by
  refine making_induction
    (motive := fun made => target ∈ basedIn counter made →
      .acted (.newCounter .initial) counter ∈ made) nofun ?_ ?_ hmade hbased
  · intro part core mode made hmade hbased
    rcases List.prefix_concat_iff.mp hmade with rfl | hmade
    · rw [basedIn_append, show basedIn counter [_] = [] from rfl, List.append_nil] at hbased
      exact List.mem_append_left _ (Registry.initial_of_making (List.prefix_refl _) hbased)
    · exact Registry.initial_of_making hmade hbased
  · intro left right hleft hright hbased
    rw [basedIn_append] at hbased
    exact List.mem_append.mpr ((List.mem_append.mp hbased).imp hleft hright)

namespace Operation

variable {operation : Operation} {made : List Happening}

theorem Begins.based (hbegins : operation.Begins made) (counter : Ref .counter) :
    (basedIn counter made).length ≤ (foundedIn counter made).length := by
  by_cases houtfit : .outfit ∈ operation.topics
  · obtain ⟨path, hpath, hmade⟩ := hbegins
    cases operation with
    | makeCounter first =>
        obtain ⟨base, rfl⟩ := hpath
        rcases List.prefix_cons_iff.mp hmade with rfl | ⟨rest, rfl, hrest⟩
        · exact Nat.zero_le _
        · obtain rfl := List.prefix_nil.mp hrest
          exact Nat.zero_le _
    | makeRegistry core reserve =>
        obtain ⟨base, registry, rfl⟩ := hpath
        exact Registry.based_of_making counter hmade
    | buildTable config modes =>
        obtain ⟨parts, _, rfl⟩ := hpath
        exact Table.based_of_making counter hmade
    | _ => simp at houtfit
  · rw [basedIn, hbegins.filterMap_eq_nil (fun _ _ => Happening.topic_of_based?) houtfit]
    exact Nat.zero_le _

theorem Begins.initial {counter : Ref .counter} {target : Ref .registry}
    (hbegins : operation.Begins made) (hbased : target ∈ basedIn counter made) :
    .acted (.newCounter .initial) counter ∈ made := by
  obtain ⟨happening, hmem, hsome⟩ := List.mem_filterMap.mp hbased
  obtain ⟨topic, htopic, hsame⟩ := hbegins.topic hmem
  rw [Happening.topic_of_based? hsome] at hsame
  cases hsame
  obtain ⟨path, hpath, hmade⟩ := hbegins
  cases operation with
  | makeCounter first =>
      obtain ⟨base, rfl⟩ := hpath
      obtain ⟨_, _, rfl⟩ := Happening.based?_eq_some.mp hsome
      cases List.mem_singleton.mp (hmade.mem hmem)
  | makeRegistry core reserve =>
      obtain ⟨base, registry, rfl⟩ := hpath
      exact Registry.initial_of_making hmade hbased
  | buildTable config modes =>
      obtain ⟨parts, _, rfl⟩ := hpath
      exact Table.initial_of_making hmade hbased
  | _ => simp at htopic

/-- Nobody claims more than one serial. -/
theorem Begins.serials (hbegins : operation.Begins made) (counter : Ref .counter) :
    (serialsIn counter made).length ≤ 1 := by
  by_cases hclaim : .claim ∈ operation.topics
  · obtain ⟨path, hpath, hmade⟩ := hbegins
    refine (hmade.sublist.filterMap (·.claimed? counter)).length_le.trans ?_
    cases operation with
    | claimSerial target =>
        obtain ⟨serial, rfl⟩ := hpath
        exact List.length_filterMap_le _ _
    | create registry =>
        obtain ⟨shape, serial, mailbox, thread, length, rfl⟩ := hpath
        exact List.length_filterMap_le _ [claimed shape.counter serial]
    | _ => simp at hclaim
  · rw [serialsIn, hbegins.filterMap_eq_nil (fun _ _ => Happening.topic_of_claimed?) hclaim]
    exact Nat.zero_le _

/-- Whoever claims a serial names the counter, or creates a thread in a registry on the counter. -/
theorem Begins.claimant {counter : Ref .counter} {serial : UInt64}
    (hbegins : operation.Begins made) (hmem : serial ∈ serialsIn counter made) :
    operation = .claimSerial counter ∨ ∃ registry, operation = .create registry ∧
      ∃ shape : Registry.Shape, shape.counter = counter ∧
        .acted (.registry registry .shape) shape ∈ made := by
  obtain ⟨happening, hmem, hclaimed⟩ := List.mem_filterMap.mp hmem
  obtain ⟨updated, rfl⟩ := Happening.claimed?_eq_some.mp hclaimed
  obtain ⟨topic, htopic, hsame⟩ := hbegins.topic hmem
  cases hsame
  obtain ⟨path, hpath, hmade⟩ := hbegins
  have honpath := hmade.mem hmem
  cases operation with
  | claimSerial target =>
      obtain ⟨other, rfl⟩ := hpath
      cases List.mem_singleton.mp honpath
      exact Or.inl rfl
  | create registry =>
      obtain ⟨shape, other, mailbox, thread, length, rfl⟩ := hpath
      have hclaim : .acted (.counter counter (.exchange serial updated)) none =
          claimed shape.counter other := by
        simpa [Registry.creation] using honpath
      cases hclaim
      have hbefore := take_subset_of_mem hmade (show _[1]? = some _ from rfl)
        (by simp [Registry.creation]) hmem
      exact Or.inr ⟨registry, rfl, shape, rfl, hbefore (by simp [Registry.creation])⟩
  | _ => simp at htopic

end Operation

namespace Runs

variable {history : History} {world : World} {flows : Nat → Flow}

/-- Every registry that is made on a counter comes with the making of the counter, -/
theorem based_le (hrun : Runs {} history world flows) (counter : Ref .counter) :
    (basedIn counter (history.map Prod.snd)).length ≤
      (foundedIn counter (history.map Prod.snd)).length := by
  refine hrun.length_le fun number => ?_
  rcases hrun.own_cases number with hown | ⟨operation, story, hown⟩
  · rw [hown]
    exact Nat.le_refl 0
  · have hbased := (hrun.begins hown).based counter
    have houtfit := operation.outfit_mem_traits
    rw [basedIn, Operation.filterMap_course (fun _ _ => Happening.topic_of_based?) houtfit,
      foundedIn, Operation.filterMap_course (fun _ _ => Happening.topic_of_founded?) houtfit]
      at hbased
    rw [hown]
    exact hbased

/-- so no counter is under two registries. -/
theorem based_once (hrun : Runs {} history world flows) (counter : Ref .counter) :
    (basedIn counter (history.map Prod.snd)).length ≤ 1 :=
  (hrun.based_le counter).trans (hrun.founded_once counter)

/-- The counter of a registry stands where the claims have brought it. -/
theorem counter_of_registry {registry : Ref .registry} {shape : Registry.Shape}
    (hrun : Runs {} history world flows) (hshape : world.registryShape? registry = some shape) :
    ∃ first count, world.counterAt? shape.counter = some ⟨Serial.after^[count] first⟩ ∧
      serialsIn shape.counter (history.map Prod.snd) = Serial.row first count := by
  have hbased : registry ∈ basedIn shape.counter (history.map Prod.snd) :=
    List.mem_filterMap.mpr
      ⟨_, hrun.registry_made hshape, Happening.based?_eq_some.mpr ⟨_, _, rfl⟩⟩
  have hfounded := (List.length_pos_of_mem hbased).trans_le (hrun.based_le shape.counter)
  have htold := hrun.counter shape.counter
  generalize world.counterAt? shape.counter = counter at htold
  cases htold with
  | absent hnone =>
      rw [hnone] at hfounded
      exact absurd hfounded (Nat.lt_irrefl 0)
  | running first count _ hserials => exact ⟨first, count, rfl, hserials⟩

/-- It has been started at one. -/
theorem initial_of_registry {registry : Ref .registry} {shape : Registry.Shape}
    (hrun : Runs {} history world flows) (hshape : world.registryShape? registry = some shape) :
    .acted (.newCounter .initial) shape.counter ∈ history.map Prod.snd := by
  have hmade := hrun.registry_made hshape
  obtain ⟨⟨index, _⟩, hentry, rfl⟩ := List.mem_map.mp hmade
  obtain ⟨number, _, hmem⟩ := hrun.teller hentry
  rcases hrun.own_cases number with hown | ⟨operation, story, hown⟩
  · rw [hown] at hmem
    cases hmem
  · rw [hown, List.mem_cons] at hmem
    have hstory := hmem.resolve_left nofun
    have houtfit := operation.outfit_mem_traits
    have hcourse := Operation.mem_course_of_topic hstory rfl houtfit
    have hbased : registry ∈ basedIn shape.counter (operation.course story) :=
      List.mem_filterMap.mpr ⟨_, hcourse, Happening.based?_eq_some.mpr ⟨_, _, rfl⟩⟩
    exact hrun.mem_history hown (Operation.mem_course.mp ((hrun.begins hown).initial hbased)).1

theorem registry_of_counter {registry other : Ref .registry} {shape shape' : Registry.Shape}
    (hrun : Runs {} history world flows) (hshape : world.registryShape? registry = some shape)
    (hshape' : world.registryShape? other = some shape')
    (hcounter : shape'.counter = shape.counter) : registry = other := by
  have hbased : registry ∈ basedIn shape.counter (history.map Prod.snd) :=
    List.mem_filterMap.mpr
      ⟨_, hrun.registry_made hshape, Happening.based?_eq_some.mpr ⟨_, _, rfl⟩⟩
  have hbased' : other ∈ basedIn shape.counter (history.map Prod.snd) :=
    List.mem_filterMap.mpr
      ⟨_, hrun.registry_made hshape', Happening.based?_eq_some.mpr ⟨_, _, by rw [hcounter]⟩⟩
  obtain ⟨only, honly⟩ := List.length_eq_one_iff.mp
    (Nat.le_antisymm (hrun.based_once shape.counter) (List.length_pos_of_mem hbased))
  rw [honly, List.mem_singleton] at hbased hbased'
  rw [hbased, hbased']

/-- Whoever claims a serial of a registry's counter has started for that. -/
theorem draws_of_claim {registry : Ref .registry} {shape : Registry.Shape} {number : Nat}
    {operation : Operation} {story : List Happening} {serial : UInt64}
    (hrun : Runs {} history world flows) (hshape : world.registryShape? registry = some shape)
    (hown : (Journal.ofHistory history).own number = .started operation :: story)
    (hmem : serial ∈ serialsIn shape.counter (operation.course story)) :
    (Happening.started operation).draws registry shape.counter = true := by
  rcases (hrun.begins hown).claimant hmem with rfl | ⟨other, rfl, shape', hcounter, hseen⟩
  · exact decide_eq_true rfl
  · have hshape' : world.registryShape? other = some shape' :=
      hrun.bears _ (hrun.mem_history hown (Operation.mem_course.mp hseen).1)
    exact decide_eq_true (hrun.registry_of_counter hshape hshape' hcounter).symm

/-- So there are no more claims than operations that start for them. -/
theorem serials_le {registry : Ref .registry} {shape : Registry.Shape}
    (hrun : Runs {} history world flows) (hshape : world.registryShape? registry = some shape) :
    (serialsIn shape.counter (history.map Prod.snd)).length ≤
      (history.map Prod.snd).countP (·.draws registry shape.counter) := by
  rw [List.countP_eq_length_filter, ← List.filterMap_eq_filter]
  refine hrun.length_le fun number => ?_
  rcases hrun.own_cases number with hown | ⟨operation, story, hown⟩
  · rw [hown]
    exact Nat.le_refl 0
  · have honce := (hrun.begins hown).serials shape.counter
    have hcourse : serialsIn shape.counter (operation.course story) =
        (Happening.started operation :: story).filterMap (·.claimed? shape.counter) :=
      Operation.filterMap_course (fun _ _ => Happening.topic_of_claimed?) operation.claim_mem_traits
    rw [hown, ← hcourse]
    cases hserials : serialsIn shape.counter (operation.course story) with
    | nil => exact Nat.zero_le _
    | cons serial rest =>
        have hmem : serial ∈ serialsIn shape.counter (operation.course story) := by simp [hserials]
        have hdraws := hrun.draws_of_claim hshape hown hmem
        rw [hserials] at honce
        refine honce.trans ?_
        simp [List.filterMap_eq_filter, hdraws]

end Runs

end CoreEngines
