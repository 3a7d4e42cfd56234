import CoreEngines.Proofs.Chronicles
import CoreEngines.Proofs.Inquiries
import CoreEngines.Proofs.Modest

/-!
Attempts at a template cache.  Whoever is to provide the cache of a context claims it; it finds the
cache there, or is told to build it, asks the host for it, and stores what the host returns or gives
up when the host fails.  Nobody else ever asks for a cache, or touches one.
-/

namespace CoreEngines

open Program

@[simp]
def Happening.build? : Happening → Option (Except Failure CacheRef)
  | .answered (.buildCache _) result => some result
  | _ => none

def Happening.built? (happening : Happening) : Option CacheRef :=
  happening.build?.bind Except.toOption

@[simp]
def Happening.cache? : Happening → Option (Ref .context)
  | .acted (.context target .claimCache) _ | .acted (.context target (.fillCache _)) _
  | .acted (.context target .abandonCache) _ => some target
  | _ => none

def Operation.build? (target : Ref .context) :
    Operation → Happening → Option (Except Failure CacheRef)
  | buildCache place, happening => if place = target then happening.build? else none
  | _, _ => none

/-- What the host came to whenever it was asked for the cache of a context, in that order. -/
def Journal.builds (journal : Journal) (target : Ref .context) :
    List (Except Failure CacheRef) :=
  (journal.deedsBy (Operation.build? target)).map Prod.snd

def Operation.provides : Operation → Bool
  | buildCache _ => true
  | _ => false

namespace Context

variable {target : Ref .context}

/-- What an attempt does until it asks the host. -/
def preamble (target : Ref .context) (shape : ContextShape) : List Happening :=
  [.acted (.context target .claimCache) .granted, .acted (.context target .shape) shape,
    .reported (.cacheRequested shape.core)]

/-- An attempt from its beginning to its end, in a context that has this shape. -/
inductive Attempt (target : Ref .context) (shape : ContextShape) :
    List Happening → Except Failure Unit → Prop
  | found (cache : CacheRef) :
      Attempt target shape [.acted (.context target .claimCache) (.ready cache)] (.ok ())
  | built (cache : CacheRef) :
      Attempt target shape (preamble target shape ++
        [.answered (.buildCache shape.core) (.ok cache),
          .acted (.context target (.fillCache cache)) ()]) (.ok ())
  | failed (failure : Failure) :
      Attempt target shape (preamble target shape ++
        [.answered (.buildCache shape.core) (.error failure),
          .acted (.context target .abandonCache) ()]) (.error failure)

/-- What an attempt can do next that has come so far. -/
inductive Advance (target : Ref .context) : List Happening → Happening → Prop
  | find (cache : CacheRef) :
      Advance target [] (.acted (.context target .claimCache) (.ready cache))
  | claim : Advance target [] (.acted (.context target .claimCache) .granted)
  | look (shape : ContextShape) :
      Advance target [.acted (.context target .claimCache) .granted]
        (.acted (.context target .shape) shape)
  | tell (shape : ContextShape) :
      Advance target [.acted (.context target .claimCache) .granted,
        .acted (.context target .shape) shape] (.reported (.cacheRequested shape.core))
  | hear (shape : ContextShape) (result : Except Failure CacheRef) :
      Advance target (preamble target shape) (.answered (.buildCache shape.core) result)
  | store (shape : ContextShape) (cache : CacheRef) :
      Advance target (preamble target shape ++ [.answered (.buildCache shape.core) (.ok cache)])
        (.acted (.context target (.fillCache cache)) ())
  | drop (shape : ContextShape) (failure : Failure) :
      Advance target
        (preamble target shape ++ [.answered (.buildCache shape.core) (.error failure)])
        (.acted (.context target .abandonCache) ())

/-- To ask the host, and to see to what it has come to. -/
def ask (target : Ref .context) (shape : ContextShape) : Program Unit :=
  (request (.buildCache shape.core)).andThen fun
    | .ok cache => perform (.context target (.fillCache cache))
    | .error failure => do
        perform (.context target .abandonCache)
        fail failure

/-- What an attempt has done, and what is left of it. -/
inductive Stage (target : Ref .context) : List Happening → Program Unit → Prop
  | fresh : Stage target [] (buildCache target)
  | found (cache : CacheRef) :
      Stage target [.acted (.context target .claimCache) (.ready cache)] (.done (.ok ()))
  | claimed : Stage target [.acted (.context target .claimCache) .granted] (do
      let shape : ContextShape ← perform (.context target .shape)
      report (.cacheRequested shape.core)
      ask target shape)
  | looked (shape : ContextShape) :
      Stage target [.acted (.context target .claimCache) .granted,
        .acted (.context target .shape) shape] (do
          report (.cacheRequested shape.core)
          ask target shape)
  | told (shape : ContextShape) : Stage target (preamble target shape) (ask target shape)
  | returned (shape : ContextShape) (cache : CacheRef) :
      Stage target (preamble target shape ++ [.answered (.buildCache shape.core) (.ok cache)])
        (perform (.context target (.fillCache cache)))
  | refused (shape : ContextShape) (failure : Failure) :
      Stage target (preamble target shape ++ [.answered (.buildCache shape.core) (.error failure)])
        (do
          perform (.context target .abandonCache)
          fail failure)
  | stored (shape : ContextShape) (cache : CacheRef) :
      Stage target (preamble target shape ++ [.answered (.buildCache shape.core) (.ok cache),
        .acted (.context target (.fillCache cache)) ()]) (.done (.ok ()))
  | dropped (shape : ContextShape) (failure : Failure) :
      Stage target (preamble target shape ++ [.answered (.buildCache shape.core) (.error failure),
        .acted (.context target .abandonCache) ()]) (.done (.error failure))

section
variable {made story : List Happening} {rest next : Program Unit} {happening : Happening}

theorem Stage.goes (hstage : Stage target made rest) (hgoes : rest.Goes happening next) :
    Advance target made happening ∧ Stage target (made ++ [happening]) next := by
  cases hstage with
  | fresh =>
      cases hgoes with
      | act _ _ claim =>
          cases claim with
          | ready cache => exact ⟨.find cache, .found cache⟩
          | granted => exact ⟨.claim, .claimed⟩
  | found cache => cases hgoes
  | claimed =>
      cases hgoes with
      | act _ _ shape => exact ⟨.look shape, .looked shape⟩
  | looked shape =>
      cases hgoes with
      | emit => exact ⟨.tell shape, .told shape⟩
  | told shape =>
      cases hgoes with
      | ask _ _ result =>
          cases result with
          | ok cache => exact ⟨.hear shape _, .returned shape cache⟩
          | error failure => exact ⟨.hear shape _, .refused shape failure⟩
  | returned shape cache =>
      cases hgoes with
      | act => exact ⟨.store shape cache, .stored shape cache⟩
  | refused shape failure =>
      cases hgoes with
      | act => exact ⟨.drop shape failure, .dropped shape failure⟩
  | stored shape cache => cases hgoes
  | dropped shape failure => cases hgoes

theorem Stage.reaches (hstage : Stage target made rest) (hreaches : rest.Reaches story next) :
    Stage target (made ++ story) next := by
  induction hreaches generalizing made with
  | stay program => simpa using hstage
  | step hgoes _ ih => simpa using ih (hstage.goes hgoes).2

theorem stage_of_reaches (hreaches : (buildCache target).Reaches story rest) :
    Stage target story rest :=
  Stage.fresh.reaches hreaches

theorem advance_of_reaches (hreaches : (buildCache target).Reaches (made ++ [happening]) rest) :
    Advance target made happening := by
  obtain ⟨middle, hmade, hlast⟩ := reaches_append.mp hreaches
  obtain ⟨next, hgoes, _⟩ := reaches_cons.mp hlast
  exact ((stage_of_reaches hmade).goes hgoes).1

/-- Whatever an attempt has done, it is on its way through a complete one. -/
theorem Stage.attempt {shape : ContextShape} (hstage : Stage target story rest)
    (hshape : ∀ seen, .acted (.context target .shape) seen ∈ story → seen = shape) :
    ∃ whole result, Attempt target shape whole result ∧ story <+: whole ∧
      ∀ ended, rest = .done ended → story = whole ∧ ended = result := by
  cases hstage with
  | fresh => exact ⟨_, _, .found ⟨0⟩, List.nil_prefix, by rintro ended ⟨⟩⟩
  | found cache =>
      refine ⟨_, _, .found cache, List.prefix_rfl, ?_⟩
      rintro ended ⟨⟩
      exact ⟨rfl, rfl⟩
  | claimed => exact ⟨_, _, .built ⟨0⟩, by simp [preamble], by rintro ended ⟨⟩⟩
  | looked seen =>
      obtain rfl := hshape seen (by simp)
      exact ⟨_, _, .built ⟨0⟩, by simp [preamble], by rintro ended ⟨⟩⟩
  | told seen =>
      obtain rfl := hshape seen (by simp [preamble])
      exact ⟨_, _, .built ⟨0⟩, List.prefix_append _ _, by rintro ended ⟨⟩⟩
  | returned seen cache =>
      obtain rfl := hshape seen (by simp [preamble])
      exact ⟨_, _, .built cache, by simp, by rintro ended ⟨⟩⟩
  | refused seen failure =>
      obtain rfl := hshape seen (by simp [preamble])
      exact ⟨_, _, .failed failure, by simp, by rintro ended ⟨⟩⟩
  | stored seen cache =>
      obtain rfl := hshape seen (by simp [preamble])
      refine ⟨_, _, .built cache, List.prefix_rfl, ?_⟩
      rintro ended ⟨⟩
      exact ⟨rfl, rfl⟩
  | dropped seen failure =>
      obtain rfl := hshape seen (by simp [preamble])
      refine ⟨_, _, .failed failure, List.prefix_rfl, ?_⟩
      rintro ended ⟨⟩
      exact ⟨rfl, rfl⟩

end

end Context

def Happening.Uncached (happening : Happening) : Prop :=
  happening.cache? = none ∧ happening.build? = none

theorem uncached_of_concerns {matters : List Matter} (hmatters : .template ∉ matters)
    (happening : Happening) (hconcerns : happening.Concerns matters) : happening.Uncached := by
  cases happening with
  | acted action answer =>
      cases action with
      | context place access =>
          cases access <;> first | exact ⟨rfl, rfl⟩ | exact absurd hconcerns hmatters
      | _ => exact ⟨rfl, rfl⟩
  | answered callback result =>
      cases callback <;> first | exact ⟨rfl, rfl⟩ | exact absurd hconcerns hmatters
  | _ => exact ⟨rfl, rfl⟩

theorem Procedure.code_uncached (procedure : Procedure) :
    procedure.code.Within Happening.Uncached :=
  Within.mono procedure.code_concerns (uncached_of_concerns (by cases procedure <;> simp))

theorem Operation.program_uncached {operation : Operation}
    (hprovides : operation.provides = false) : operation.program.Within Happening.Uncached := by
  refine Within.mono operation.program_concerns (uncached_of_concerns ?_)
  cases operation with
  | buildCache context => cases hprovides
  | _ => simp

/-- Nobody but who provides a cache has to do with any. -/
theorem Runs.uncached {start world : World} {history : History} {flows : Nat → Flow}
    {number : Nat} {operation : Operation} {story : List Happening} {happening : Happening}
    (hrun : Runs start history world flows)
    (hown : (Journal.ofHistory history).own number = .started operation :: story)
    (hprovides : operation.provides = false) (hmem : happening ∈ story) : happening.Uncached := by
  by_cases hstep : happening.isStep
  · exact hrun.spares (fun _ => Operation.program_uncached) Procedure.code_uncached hown hprovides
      hmem hstep
  · cases happening <;> first | exact ⟨rfl, rfl⟩ | cases hstep rfl

end CoreEngines
