import CoreEngines.Proofs.Courses.Stories
import CoreEngines.Proofs.Entry.Guard

/-!
The ways of an entry.  What an entry has done tells how far it has come: it looks at the flag once,
and it asks for a manager only where it has passed the flag on the right core of an execution
engine.
-/

namespace CoreEngines

def Callback.manager? : Callback → Option (CoreId × Bool)
  | createManager core startup => some (core, startup)
  | _ => none

def Happening.manager? : Happening → Option (CoreId × Bool)
  | .answered callback _ => callback.manager?
  | _ => none

def managersIn (story : List Happening) : List (CoreId × Bool) :=
  story.filterMap Happening.manager?

theorem mem_managersIn {story : List Happening} {core : CoreId} {startup : Bool} :
    (core, startup) ∈ managersIn story ↔
      ∃ result, .answered (.createManager core startup) result ∈ story := by
  rw [managersIn, List.mem_filterMap]
  constructor
  · rintro ⟨happening, hmem, hmanager⟩
    unfold Happening.manager? Callback.manager? at hmanager
    split at hmanager
    · split at hmanager
      · cases hmanager
        exact ⟨_, hmem⟩
      · cases hmanager
    · cases hmanager
  · rintro ⟨result, hmem⟩
    exact ⟨_, hmem, rfl⟩

theorem Operation.enter_of_entry {operation : Operation} (htopic : .entry ∈ operation.topics) :
    ∃ engine, operation = .enter engine := by
  cases operation with
  | enter engine => exact ⟨engine, rfl⟩
  | _ => simp at htopic

namespace Engine

/-- What an entry has done that may ask for a manager. -/
structure Entitled (engine : Ref .engine) (shape : EngineShape) (story : List Happening) :
    Prop where
  shaped : .acted (.engine engine .shape) shape ∈ story
  passed : .acted (.engine engine .enter) false ∈ story
  located : .answered .currentCore (.ok shape.core) ∈ story
  mode : shape.mode = .execution

section
variable {engine : Ref .engine} {made : List Happening}

theorem Entitled.mono {shape : EngineShape} {story story' : List Happening}
    (hentitled : Entitled engine shape story) (hstory : story ⊆ story') :
    Entitled engine shape story' :=
  ⟨hstory hentitled.shaped, hstory hentitled.passed, hstory hentitled.located, hentitled.mode⟩

theorem engine_of_begins {target : Ref .engine} {access : Access} {answer : access.Answer}
    (hbegins : (Operation.enter engine).Begins made)
    (hmem : .acted (.engine target access) answer ∈ made) : engine = target := by
  obtain ⟨path, hpath, hmade⟩ := hbegins
  have hmem' := hmade.mem hmem
  cases hpath <;> simp [refusal, passing, arrival] at hmem' <;> grind

theorem Path.guard {path : List Happening} (hpath : Path engine path) :
    ∃ shape entered rest, path = [Happening.acted (.engine engine .shape) shape] ++
      [Happening.acted (.engine engine .enter) entered] ++ rest ∧
        ∀ target, guardsIn target rest = [] := by
  cases hpath <;> exact ⟨_, _, _, rfl, fun _ => rfl⟩

/-- An entry looks at the flag once. -/
theorem guards_of_begins (hbegins : (Operation.enter engine).Begins made) (target : Ref .engine) :
    (guardsIn target made).length ≤ 1 := by
  obtain ⟨path, hpath, hmade⟩ := hbegins
  refine Nat.le_trans (hmade.sublist.filterMap _).length_le ?_
  obtain ⟨shape, entered, rest, rfl, hrest⟩ := Path.guard hpath
  rw [List.filterMap_append, List.filterMap_append,
    show List.filterMap _ rest = [] from hrest target, List.append_nil]
  exact List.length_filterMap_le _ [_]

/-- An entry that finds the flag up does nothing more. -/
theorem refusal_of_begins (hbegins : (Operation.enter engine).Begins made)
    (hmem : .acted (.engine engine .enter) true ∈ made) : ∃ shape, made = refusal engine shape := by
  obtain ⟨path, hpath, hmade⟩ := hbegins
  have hmem' := hmade.mem hmem
  cases hpath with
  | refused shape =>
      exact ⟨shape, eq_of_mem_last (show made <+: [_] ++ [_] from hmade) hmem (by simp)⟩
  | _ => simp [passing, arrival] at hmem'

/-- An entry that finds a context does nothing more. -/
theorem doubled_of_begins {context : Ref .context} (hbegins : (Operation.enter engine).Begins made)
    (hmem : .acted (.engine engine .context) (some context) ∈ made) :
    ∃ shape, made = passing engine shape ++
      [Happening.acted (.engine engine .context) (some context)] := by
  obtain ⟨path, hpath, hmade⟩ := hbegins
  have hmem' := hmade.mem hmem
  cases hpath with
  | doubled shape other =>
      obtain rfl : context = other := by simpa [passing] using hmem'
      exact ⟨shape, eq_of_mem_last hmade hmem (by simp [passing])⟩
  | _ => simp [refusal, passing, arrival] at hmem'

/-- An entry that has filled in a context has built it for its own engine. -/
theorem built_of_begins {context : Ref .context} (hbegins : (Operation.enter engine).Begins made)
    (hmem : .acted (.engine engine (.fillContext context)) () ∈ made) :
    ∃ shape manager, Entitled engine shape made ∧
      .acted (.newContext (contextShape shape manager)) context ∈ made := by
  obtain ⟨path, hpath, hmade⟩ := hbegins
  have hmem' := hmade.mem hmem
  cases hpath with
  | built shape manager other hmode =>
      obtain rfl : context = other := by simpa [arrival, passing] using hmem'
      have hbefore := take_subset_of_mem hmade (show _[7]? = some _ from rfl)
        (by simp [arrival, passing]) hmem
      refine ⟨shape, manager, ⟨hbefore ?_, hbefore ?_, hbefore ?_, hmode⟩, hbefore ?_⟩ <;>
        simp [arrival, passing]
  | _ => simp [refusal, passing, arrival] at hmem'

/-- An entry that has asked for a manager was entitled to, and has asked for the right one. -/
theorem entitled_of_begins {core : CoreId} {startup : Bool} {result : Except Failure ManagerRef}
    (hbegins : (Operation.enter engine).Begins made)
    (hmem : .answered (.createManager core startup) result ∈ made) :
    ∃ shape, (core, startup) = (shape.core, startsUp shape) ∧ Entitled engine shape made := by
  obtain ⟨path, hpath, hmade⟩ := hbegins
  have hmem' := hmade.mem hmem
  cases hpath with
  | failed shape cause hmode =>
      obtain ⟨⟨rfl, rfl⟩, rfl⟩ : (core = shape.core ∧ startup = startsUp shape) ∧
          result = .error cause := by
        simpa [arrival, passing] using hmem'
      have hbefore := take_subset_of_mem hmade (show _[5]? = some _ from rfl)
        (by simp [arrival, passing]) hmem
      refine ⟨shape, rfl, hbefore ?_, hbefore ?_, hbefore ?_, hmode⟩ <;> simp [arrival, passing]
  | built shape manager context hmode =>
      obtain ⟨⟨rfl, rfl⟩, rfl⟩ : (core = shape.core ∧ startup = startsUp shape) ∧
          result = .ok manager := by
        simpa [arrival, passing] using hmem'
      have hbefore := take_subset_of_mem hmade (show _[5]? = some _ from rfl)
        (by simp [arrival, passing]) hmem
      refine ⟨shape, rfl, hbefore ?_, hbefore ?_, hbefore ?_, hmode⟩ <;> simp [arrival, passing]
  | _ => simp [refusal, passing, arrival] at hmem'

/-- An entry asks for one manager at most, and for the right one. -/
theorem managers_of_begins (hbegins : (Operation.enter engine).Begins made) :
    managersIn made = [] ∨
      ∃ shape, managersIn made = [(shape.core, startsUp shape)] ∧ Entitled engine shape made := by
  have hlength : (managersIn made).length ≤ 1 := by
    obtain ⟨path, hpath, hmade⟩ := hbegins
    refine Nat.le_trans (hmade.sublist.filterMap _).length_le ?_
    cases hpath <;> first | exact Nat.zero_le 1 | exact Nat.le_refl 1
  rcases hmanagers : managersIn made with _ | ⟨⟨core, startup⟩, others⟩
  · exact Or.inl rfl
  · have hothers : others = [] := by simpa [hmanagers] using hlength
    have hasked : (core, startup) ∈ managersIn made := by simp [hmanagers]
    obtain ⟨result, hmem⟩ := mem_managersIn.mp hasked
    obtain ⟨shape, hright, hentitled⟩ := entitled_of_begins hbegins hmem
    exact Or.inr ⟨shape, by rw [hothers, hright], hentitled⟩

end

end Engine

end CoreEngines
