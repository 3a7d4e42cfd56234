import CoreEngines.Proofs.Interrupts.Cores
import CoreEngines.Proofs.Mailbox.Stories

/-!
Nested scopes.  A scope that masks interrupts remembers one flag and puts it back blindly, so the
scopes of a core are a stack: each one that opens goes on top, and whoever puts a flag back takes
the topmost off.  Code that opens scopes inside of scopes, and works on mailboxes in them, always
puts back what the topmost one remembers, also where a failure unwinds it; and wherever it stands in
the bodies of its scopes, these are open, in that order.  From there on it is up to the processor,
which keeps one flag.
-/

namespace CoreEngines

open Program

/-- A scope that is open: all that was done before it opened, and the flag that it recorded. -/
structure OpenScope where
  before : List Happening
  previous : Bool

/-- A story, and the scopes that it has left open, the innermost first. -/
structure Nesting where
  story : List Happening := []
  scopes : List OpenScope := []

/-- Saving the flag opens a scope, and putting it back closes the innermost one. -/
def Nesting.observe (nesting : Nesting) (happening : Happening) : Nesting where
  story := nesting.story ++ [happening]
  scopes :=
    match Call.of? happening with
    | some (.save previous) => ⟨nesting.story, previous⟩ :: nesting.scopes
    | some (.restore _) => nesting.scopes.tail
    | _ => nesting.scopes

/-- The scopes that a story has left open, the innermost first. -/
def openScopes (story : List Happening) : List OpenScope :=
  (story.foldl Nesting.observe {}).scopes

/-- The interrupt flag after a story that began with `found`. -/
def flagAfter (found : Bool) (story : List Happening) : Bool :=
  Call.flag found (calls story)

/-- What a processor answers whose flag is like this, and that does not fail. -/
def Happening.Honest (flag : Bool) : Happening → Prop
  | .answered .mask result => result = .ok flag
  | .answered (.restore _) result => result = .ok ()
  | _ => True

/-- The processor keeps one flag, which is `found` at first. -/
def KeepsFlag (found : Bool) (story : List Happening) : Prop :=
  ∀ early happening, early ++ [happening] <+: story → happening.Honest (flagAfter found early)

/-- Code that opens scopes and calls mailboxes.  What comes next depends on what came back, be it a
value or a failure: failures can start anywhere, unwind any number of scopes, and be caught. -/
inductive Routine : Type → Type 1
  | done {α : Type} (result : Except Failure α) : Routine α
  | call {α : Type} {target : Ref .mailbox} (operation : Operation)
      (hdefers : operation.Defers target) (next : Except Failure operation.Reply → Routine α) :
      Routine α
  | scope {α β : Type} (body : Routine β) (next : Except Failure β → Routine α) : Routine α

/-- Run `body` in a scope, which closes on every way out of it. -/
def Program.scoped {α : Type} (body : Program α) : Program α := do
  let scope ← MaskScope.opened
  body.withCleanup scope.close

def Routine.program {α : Type} : Routine α → Program α
  | .done result => .done result
  | .call operation _ next => operation.program.andThen fun result => (next result).program
  | .scope body next => body.program.scoped.andThen fun result => (next result).program

/-- Where a routine stands that has begun after `early` and has done `story`: in the bodies of these
scopes of its own, the innermost first. -/
inductive Routine.StandsIn : {α : Type} → Routine α → (early story : List Happening) →
    List OpenScope → Prop
  | stay {α : Type} (routine : Routine α) (early : List Happening) : StandsIn routine early [] []
  /-- An operation on a mailbox is going on, -/
  | calling {α : Type} {target : Ref .mailbox} {operation : Operation}
      {hdefers : operation.Defers target} {next : Except Failure operation.Reply → Routine α}
      {rest : Program operation.Reply} {early story : List Happening}
      (hreaches : operation.program.Reaches story rest) :
      StandsIn (.call operation hdefers next) early story []
  /-- or has come to its end. -/
  | called {α : Type} {target : Ref .mailbox} {operation : Operation}
      {hdefers : operation.Defers target} {next : Except Failure operation.Reply → Routine α}
      {result : Except Failure operation.Reply} {early steps late : List Happening}
      {scopes : List OpenScope} (hreaches : operation.program.Reaches steps (.done result))
      (hlate : StandsIn (next result) (early ++ steps) late scopes) :
      StandsIn (.call operation hdefers next) early (steps ++ late) scopes
  /-- A scope has opened, and its body has come so far, -/
  | inside {α β : Type} {body : Routine β} {next : Except Failure β → Routine α} {previous : Bool}
      {early story : List Happening} {scopes : List OpenScope}
      (hbody : StandsIn body (early ++ [.answered .mask (.ok previous)]) story scopes) :
      StandsIn (.scope body next) early (.answered .mask (.ok previous) :: story)
        (scopes ++ [⟨early, previous⟩])
  /-- or the scope has closed. -/
  | closed {α β : Type} {body : Routine β} {next : Except Failure β → Routine α}
      {result : Except Failure β} {early steps late : List Happening} {scopes : List OpenScope}
      (hreaches : body.program.scoped.Reaches steps (.done result))
      (hlate : StandsIn (next result) (early ++ steps) late scopes) :
      StandsIn (.scope body next) early (steps ++ late) scopes

section
variable {story : List Happening} {happening : Happening} {found : Bool}

theorem Nesting.story_foldl (steps : List Happening) (nesting : Nesting) :
    (steps.foldl observe nesting).story = nesting.story ++ steps := by
  induction steps generalizing nesting with
  | nil => simp
  | cons happening steps ih =>
      rw [List.foldl_cons, ih]
      simp [observe]

@[simp]
theorem openScopes_nil : openScopes [] = [] :=
  rfl

theorem openScopes_concat (story : List Happening) (happening : Happening) :
    openScopes (story ++ [happening]) =
      match Call.of? happening with
      | some (.save previous) => ⟨story, previous⟩ :: openScopes story
      | some (.restore _) => (openScopes story).tail
      | _ => openScopes story := by
  have hstory := Nesting.story_foldl story {}
  rw [List.nil_append] at hstory
  simp only [openScopes, List.foldl_concat, Nesting.observe, hstory]

@[simp]
theorem openScopes_save (story : List Happening) (previous : Bool) :
    openScopes (story ++ [.answered .mask (.ok previous)]) =
      ⟨story, previous⟩ :: openScopes story :=
  openScopes_concat story _

@[simp]
theorem openScopes_restore (story : List Happening) (previous : Bool)
    (result : Except Failure Unit) :
    openScopes (story ++ [.answered (.restore previous) result]) = (openScopes story).tail :=
  openScopes_concat story _

theorem flagAfter_append (found : Bool) (early late : List Happening) :
    flagAfter found (early ++ late) = flagAfter (flagAfter found early) late := by
  rw [flagAfter, calls, List.filterMap_append, Call.flag, List.foldl_append]
  rfl

theorem flagAfter_concat (found : Bool) (story : List Happening) (happening : Happening) :
    flagAfter found (story ++ [happening]) =
      match Call.of? happening with
      | some made => made.sets (flagAfter found story)
      | none => flagAfter found story := by
  rw [flagAfter, calls_concat, Call.flag, List.foldl_append]
  cases Call.of? happening <;> rfl

end

/-- Whether a happening leaves the flag of the processor alone. -/
def Happening.Level : Happening → Prop
  | .answered _ _ | .called _ => False
  | _ => True

theorem Happening.Quiet.level {happening : Happening} (hquiet : happening.Quiet) :
    happening.Level := by
  cases happening <;> trivial

theorem openScopes_of_level {happening : Happening} (hlevel : happening.Level)
    (story : List Happening) : openScopes (story ++ [happening]) = openScopes story := by
  rw [openScopes_concat]
  cases happening with
  | acted action answer => cases action <;> rfl
  | answered callback result => cases hlevel
  | _ => rfl

/-- Whether a happening puts back what the innermost open scope has recorded, if anything. -/
def Happening.Unwinds (story : List Happening) : Happening → Prop
  | .answered (.restore previous) _ =>
      ∃ scope ∈ (openScopes story).head?, previous = scope.previous
  | _ => True

/-- The discipline of scopes: whatever is put back belongs to the innermost one, and none of those
`below` is closed. -/
def scoping (below : List OpenScope) : Discipline (List Happening) where
  start _ := []
  observe story happening := story ++ [happening]
  Allows story happening :=
    happening.Unwinds story ∧ below <:+ openScopes (story ++ [happening])
  Presumes _ _ := True
  Enters _ _ := False
  Leaves _ _ _ _ := False
  Returns _ _ _ := True

theorem scoping_rounds (below : List OpenScope) : (scoping below).Rounds :=
  fun _ _ henters => henters.elim

/-- The program puts back what it saves, in the opposite order, closes no scope that it finds, and
leaves as many open. -/
def Program.Nests {α : Type} (program : Program α) (story : List Happening) : Prop :=
  ∀ below, below <:+ openScopes story →
    program.Ensures (scoping below) story fun later _ => openScopes later = openScopes story

section
variable {α β : Type} {story : List Happening} {target : Ref .mailbox}

theorem nests_of_level {program : Program α} (hlevel : program.Within Happening.Level)
    (story : List Happening) : program.Nests story := by
  intro below hbelow
  refine hlevel.ensures rfl ?_ fun _ _ _ hcalled => hcalled.elim
  intro later happening hsame hlevel
  have hscopes := (openScopes_of_level hlevel later).trans hsame
  refine ⟨⟨?_, hscopes.symm ▸ hbelow⟩, hscopes⟩
  cases happening <;> trivial

theorem Program.Nests.andThen {program : Program α} {next : Except Failure α → Program β}
    (hprogram : program.Nests story) (hnext : ∀ result later, (next result).Nests later) :
    (program.andThen next).Nests story := by
  intro below hbelow
  rw [ensures_andThen]
  refine (hprogram below hbelow).mono fun later result hsame => ?_
  refine (hnext result later below (hsame.symm ▸ hbelow)).mono ?_
  exact fun last _ hlast => hlast.trans hsame

theorem Program.Nests.bind {program : Program α} {next : α → Program β}
    (hprogram : program.Nests story) (hnext : ∀ value later, (next value).Nests later) :
    (program >>= next).Nests story := by
  refine hprogram.andThen fun result later => ?_
  cases result with
  | ok value => exact hnext value later
  | error failure => exact fun _ _ => rfl

/-- A masked section puts back what it has found, however its body ends. -/
theorem nests_masked {body : Program α} (hbody : ∀ later, body.Nests later)
    (story : List Happening) : (masked body).Nests story := by
  intro below hbelow
  rw [ensures_masked]
  rintro (failure | previous) _
  · have hscopes := openScopes_concat story (.answered .mask (.error failure))
    exact ⟨⟨trivial, hscopes.symm ▸ hbelow⟩, hscopes⟩
  · have hopened := openScopes_save story previous
    have hunder : below <:+ openScopes (story ++ [.answered .mask (.ok previous)]) :=
      hopened.symm ▸ hbelow.trans (List.suffix_cons _ _)
    refine ⟨⟨trivial, hunder⟩, (hbody _ below hunder).mono ?_⟩
    intro inside result hinside restoring _
    replace hinside := hinside.trans hopened
    have hclosed : openScopes (inside ++ [.answered (.restore previous) restoring]) =
        openScopes story := by
      rw [openScopes_restore, hinside, List.tail_cons]
    exact ⟨⟨⟨⟨story, previous⟩, by simp [hinside], rfl⟩, hclosed.symm ▸ hbelow⟩, hclosed⟩

theorem nests_section {body : Program α} (hbody : body.Within Happening.Quiet)
    (story : List Happening) : (masked (locked (.queue target) body)).Nests story := by
  refine nests_masked (fun later => nests_of_level ?_ later) story
  exact (hbody.mono fun _ => Happening.Quiet.level).locked trivial trivial

theorem nests_drainLocked (story : List Happening) : (Mailbox.drainLocked target).Nests story := by
  refine (nests_section Mailbox.detachAll_quiet story).bind fun messages later => ?_
  refine nests_of_level ?_ later
  split
  · exact Within.pure _
  · exact (Within.report trivial).bind fun _ => Within.pure _

/-- Ordinary operations on mailboxes nest. -/
theorem Operation.Defers.nests {operation : Operation} (hdefers : operation.Defers target)
    (story : List Happening) : operation.program.Nests story := by
  obtain ⟨hmailbox, hdeferred⟩ := hdefers
  cases operation with
  | push mailbox message =>
      refine nests_section ?_ story
      exact (Mailbox.quiet_access (by simp)).bind fun _ => Mailbox.quiet_access (by simp)
  | drain mailbox =>
      refine Nests.bind (nests_of_level (Within.perform fun _ => trivial) story) ?_
      intro queued later
      split
      · exact fun _ _ => rfl
      · exact nests_drainLocked later
  | drainLocked mailbox => exact nests_drainLocked story
  | capacity mailbox => exact nests_section (Mailbox.quiet_access (by simp)) story
  | pushFromInterrupt mailbox message => cases hdeferred
  | _ => cases hmailbox

/-- What a scope does is what a masked section does. -/
theorem scoped_eq_masked (body : Program α) : body.scoped = masked body :=
  bind_bind _ _ _

theorem Routine.nests (routine : Routine α) (story : List Happening) :
    routine.program.Nests story := by
  induction routine generalizing story with
  | done result => exact fun _ _ => rfl
  | call operation hdefers next ih => exact (hdefers.nests story).andThen ih
  | scope body next hbody hnext =>
      rw [program, scoped_eq_masked]
      exact (nests_masked hbody story).andThen hnext

end

/-- How scopes nest at a point of a story that began with the flag `found`. -/
structure NestedAt (found : Bool) (story : List Happening) : Prop where
  /-- Inside of every scope the flag is clear, and outside of all it is as it was found. -/
  flag : flagAfter found story = ((openScopes story).isEmpty && found)
  /-- A scope has recorded the flag that it came upon, which is the first one for an outermost scope
  and a clear one for all others; those around it are the ones that were open when it opened. -/
  recorded : ∀ {scope outer}, scope :: outer <:+ openScopes story →
    scope.previous = flagAfter found scope.before ∧ scope.previous = (outer.isEmpty && found) ∧
      scope.before <+: story ∧ openScopes scope.before = outer
  /-- Whoever has just put back a flag has closed the innermost scope, and the flag is as it was on
  the way into that scope. -/
  closed : ∀ {early previous result}, story = early ++ [.answered (.restore previous) result] →
    ∃ scope, openScopes early = scope :: openScopes story ∧ previous = scope.previous ∧
      flagAfter found story = flagAfter found scope.before

section
variable {found : Bool} {story : List Happening} {happening : Happening}

theorem nestedAt_nil (found : Bool) : NestedAt found [] where
  flag := rfl
  recorded hscope := by simp at hscope
  closed hstory := by simp at hstory

theorem NestedAt.recorded_concat (hnested : NestedAt found story) (happening : Happening)
    {scope : OpenScope} {outer : List OpenScope} (hscope : scope :: outer <:+ openScopes story) :
    scope.previous = flagAfter found scope.before ∧ scope.previous = (outer.isEmpty && found) ∧
      scope.before <+: story ++ [happening] ∧ openScopes scope.before = outer := by
  obtain ⟨hentry, hprevious, hbefore, houter⟩ := hnested.recorded hscope
  exact ⟨hentry, hprevious, hbefore.trans (List.prefix_append _ _), houter⟩

/-- What neither saves nor restores the flag makes no difference. -/
theorem NestedAt.pass (hnested : NestedAt found story)
    (hscopes : openScopes (story ++ [happening]) = openScopes story)
    (hflag : flagAfter found (story ++ [happening]) = flagAfter found story)
    (hother : ∀ previous result, happening ≠ .answered (.restore previous) result) :
    NestedAt found (story ++ [happening]) where
  flag := by rw [hflag, hscopes, hnested.flag]
  recorded := by
    intro scope outer hscope
    rw [hscopes] at hscope
    exact hnested.recorded_concat happening hscope
  closed := by
    intro early previous result hstory
    obtain ⟨_, hlast⟩ := List.append_inj' hstory rfl
    exact absurd (List.cons.inj hlast).1 (hother previous result)

theorem NestedAt.save (hnested : NestedAt found story) :
    NestedAt found (story ++ [.answered .mask (.ok (flagAfter found story))]) where
  flag := by
    rw [flagAfter_concat, openScopes_save]
    rfl
  recorded := by
    intro scope outer hscope
    rw [openScopes_save, List.suffix_cons_iff] at hscope
    rcases hscope with hnew | hold
    · cases hnew
      exact ⟨rfl, hnested.flag, List.prefix_append _ _, rfl⟩
    · exact hnested.recorded_concat _ hold
  closed := by
    intro early previous result hstory
    obtain ⟨_, hlast⟩ := List.append_inj' hstory rfl
    cases hlast

theorem NestedAt.restore {scope : OpenScope} {outer : List OpenScope}
    {result : Except Failure Unit} (hnested : NestedAt found story)
    (hscopes : openScopes story = scope :: outer) :
    NestedAt found (story ++ [.answered (.restore scope.previous) result]) := by
  have hleft : openScopes (story ++ [.answered (.restore scope.previous) result]) = outer := by
    rw [openScopes_restore, hscopes, List.tail_cons]
  have hflag : flagAfter found (story ++ [.answered (.restore scope.previous) result]) =
      scope.previous :=
    flagAfter_concat found story _
  obtain ⟨hentry, hprevious, _⟩ := hnested.recorded ⟨[], hscopes.symm⟩
  refine ⟨by rw [hflag, hleft, hprevious], ?_, ?_⟩
  · intro inner around hinner
    rw [hleft] at hinner
    exact hnested.recorded_concat _ (hscopes ▸ hinner.trans (List.suffix_cons scope outer))
  · intro early previous last hstory
    obtain ⟨rfl, hlast⟩ := List.append_inj' hstory rfl
    cases hlast
    exact ⟨scope, by rw [hscopes, hleft], rfl, hflag.trans hentry⟩

/-- A processor that keeps its flag keeps the scopes nested, as long as only the innermost one is
closed. -/
theorem NestedAt.concat (hnested : NestedAt found story)
    (hhonest : happening.Honest (flagAfter found story)) (hunwinds : happening.Unwinds story) :
    NestedAt found (story ++ [happening]) := by
  cases happening with
  | answered callback result =>
      cases callback with
      | mask =>
          obtain rfl : result = .ok (flagAfter found story) := hhonest
          exact hnested.save
      | restore previous =>
          obtain ⟨scope, hscope, rfl⟩ := hunwinds
          obtain ⟨outer, hscopes⟩ := List.head?_eq_some_iff.mp hscope
          exact hnested.restore hscopes
      | _ => exact hnested.pass (openScopes_concat _ _) (flagAfter_concat _ _ _) (by simp)
  | acted action answer =>
      have hlevel : (Happening.acted action answer).Level := trivial
      refine hnested.pass (openScopes_of_level hlevel story) ?_ (by simp)
      rw [flagAfter_concat]
      cases action <;> rfl
  | _ => exact hnested.pass (openScopes_concat _ _) (flagAfter_concat _ _ _) (by simp)

theorem KeepsFlag.of_concat (hkeeps : KeepsFlag found (story ++ [happening])) :
    KeepsFlag found story ∧ happening.Honest (flagAfter found story) :=
  ⟨fun early step hstep => hkeeps early step (hstep.trans (List.prefix_append _ _)),
    hkeeps story happening List.prefix_rfl⟩

@[simp]
theorem keepsFlag_nil (found : Bool) : KeepsFlag found [] := by
  intro early happening hstep
  simp at hstep

@[simp]
theorem keepsFlag_cons :
    KeepsFlag found (happening :: story) ↔
      happening.Honest found ∧ KeepsFlag (flagAfter found [happening]) story := by
  have hafter : ∀ early, flagAfter found (happening :: early) =
      flagAfter (flagAfter found [happening]) early :=
    fun early => flagAfter_append found [happening] early
  constructor
  · intro hkeeps
    refine ⟨hkeeps [] happening (by simp), fun early step hstep => ?_⟩
    rw [← hafter]
    exact hkeeps (happening :: early) step (List.cons_prefix_cons.mpr ⟨rfl, hstep⟩)
  · rintro ⟨hhonest, hkeeps⟩ early step hstep
    cases early with
    | nil =>
        obtain ⟨rfl, _⟩ := List.cons_prefix_cons.mp hstep
        exact hhonest
    | cons first early =>
        obtain ⟨rfl, hlater⟩ := List.cons_prefix_cons.mp hstep
        rw [hafter]
        exact hkeeps early step hlater

theorem keepsFlag_append {early late : List Happening} :
    KeepsFlag found (early ++ late) ↔
      KeepsFlag found early ∧ KeepsFlag (flagAfter found early) late := by
  induction early generalizing found with
  | nil => simp [flagAfter, calls, Call.flag]
  | cons happening early ih =>
      rw [List.cons_append, keepsFlag_cons, keepsFlag_cons, ih, and_assoc, ← flagAfter_append]
      rfl

theorem scoping_foldl (below : List OpenScope) (early story : List Happening) :
    story.foldl (scoping below).observe early = early ++ story := by
  induction story generalizing early with
  | nil => simp
  | cons happening story ih =>
      rw [List.foldl_cons, ih]
      simp [scoping]

theorem nestedAt_of_keeps (hkeeps : KeepsFlag found story)
    (hscoping : (scoping []).Keeps [] story) : NestedAt found story := by
  induction story using List.reverseRecOn with
  | nil => exact nestedAt_nil found
  | append_singleton story happening ih =>
      obtain ⟨hkept, hhonest⟩ := hkeeps.of_concat
      rw [Discipline.keeps_concat, scoping_foldl] at hscoping
      exact (ih hkept hscoping.1).concat hhonest hscoping.2.1

end

section
variable {α : Type} {early story : List Happening}

/-- Whatever a program is doing that nests, the scopes that it has found are open. -/
theorem Program.Nests.suffix_of_reaches {program rest : Program α} (hnests : program.Nests early)
    (hreaches : program.Reaches story rest) : openScopes early <:+ openScopes (early ++ story) := by
  have hkeeps := ((hnests _ List.suffix_rfl).of_reaches (scoping_rounds _) (fun _ _ => trivial)
    hreaches).1
  rcases List.eq_nil_or_concat story with rfl | ⟨story, last, rfl⟩
  · rw [List.append_nil]
  · rw [List.concat_eq_append] at hkeeps ⊢
    rw [Discipline.keeps_concat, scoping_foldl] at hkeeps
    rw [← List.append_assoc]
    exact hkeeps.2.2

/-- When it has come to its end, no others are. -/
theorem Program.Nests.openScopes_of_done {program : Program α} {result : Except Failure α}
    (hnests : program.Nests early) (hreaches : program.Reaches story (.done result)) :
    openScopes (early ++ story) = openScopes early := by
  have hdone := ((hnests _ List.suffix_rfl).of_reaches (scoping_rounds _) (fun _ _ => trivial)
    hreaches).2
  rwa [scoping_foldl] at hdone

/-- A scope has not opened, or its body is going on, or it has closed. -/
theorem Program.scoped_cases {body rest : Program α} (hreaches : body.scoped.Reaches story rest) :
    story = [] ∨
      (∃ previous inside left, story = .answered .mask (.ok previous) :: inside ∧
        body.Reaches inside left) ∨
      ∃ result, rest = .done result := by
  rw [scoped_eq_masked, masked] at hreaches
  rcases story with _ | ⟨first, story⟩
  · exact Or.inl rfl
  right
  rcases reaches_request_bind hreaches with ⟨previous, rfl, hbody⟩ | ⟨failure, _, _, rfl⟩
  swap
  · exact Or.inr ⟨_, rfl⟩
  rcases reaches_andThen hbody with ⟨left, hleft, _⟩ | ⟨inside, result, late, hinside, hlate, rfl⟩
  · exact Or.inl ⟨previous, story, left, rfl, hleft⟩
  rcases late with _ | ⟨restored, late⟩
  · exact Or.inl ⟨previous, inside, _, by rw [List.append_nil], hinside⟩
  right
  obtain ⟨after, hgoes, hafter⟩ := reaches_cons.mp hlate
  obtain ⟨outcome, rfl⟩ : ∃ outcome, after = .done outcome := by
    cases hgoes with
    | ask _ _ restoring =>
        rcases restoring with failure | _
        · cases result <;> exact ⟨_, rfl⟩
        · exact ⟨_, rfl⟩
  exact ⟨outcome, (reaches_done.mp hafter).2⟩

/-- Wherever the program of a routine has come to, the routine stands in some of its scopes. -/
theorem Routine.exists_standsIn {routine : Routine α} {rest : Program α}
    (hreaches : routine.program.Reaches story rest) (early : List Happening) :
    ∃ scopes, routine.StandsIn early story scopes := by
  induction routine generalizing early story with
  | done result =>
      obtain ⟨rfl, _⟩ := reaches_done.mp hreaches
      exact ⟨[], .stay _ early⟩
  | call operation hdefers next ih =>
      rcases reaches_andThen hreaches with
        ⟨left, hleft, _⟩ | ⟨steps, result, late, hsteps, hlate, rfl⟩
      · exact ⟨[], .calling hleft⟩
      · obtain ⟨scopes, hstands⟩ := ih result hlate (early ++ steps)
        exact ⟨scopes, .called hsteps hstands⟩
  | scope body next hbody hnext =>
      rcases reaches_andThen hreaches with
        ⟨left, hleft, _⟩ | ⟨steps, result, late, hsteps, hlate, rfl⟩
      · rcases scoped_cases hleft with rfl | ⟨previous, inside, rest, rfl, hinside⟩ | ⟨result, rfl⟩
        · exact ⟨[], .stay _ early⟩
        · obtain ⟨scopes, hstands⟩ := hbody hinside (early ++ [.answered .mask (.ok previous)])
          exact ⟨_, .inside hstands⟩
        · rw [← List.append_nil story]
          exact ⟨[], .closed hleft (.stay _ _)⟩
      · obtain ⟨scopes, hstands⟩ := hnext result hlate (early ++ steps)
        exact ⟨scopes, .closed hsteps hstands⟩

/-- The scopes that a routine stands in are open, the innermost first, on top of those that it has
found. -/
theorem Routine.StandsIn.suffix {routine : Routine α} {scopes : List OpenScope}
    (hstands : routine.StandsIn early story scopes) :
    scopes ++ openScopes early <:+ openScopes (early ++ story) := by
  induction hstands with
  | stay routine early => simp
  | @calling _ _ _ hdefers _ _ early _ hreaches =>
      exact (hdefers.nests early).suffix_of_reaches hreaches
  | @called _ _ _ hdefers _ _ early _ _ _ hreaches _ ih =>
      rwa [(hdefers.nests early).openScopes_of_done hreaches, List.append_assoc] at ih
  | inside _ ih =>
      rw [openScopes_save, List.append_assoc] at ih
      rwa [List.append_assoc]
  | @closed _ _ body _ _ early _ _ _ hreaches _ ih =>
      have hnests : body.program.scoped.Nests early :=
        scoped_eq_masked body.program ▸ nests_masked body.nests early
      rwa [hnests.openScopes_of_done hreaches, List.append_assoc] at ih

end

/-- What scopes come to in a routine that has done `story`, and has `rest` left to do. -/
structure Routine.Nested {α : Type} (routine : Routine α) (found : Bool) (story : List Happening)
    (rest : Program α) : Prop extends NestedAt found story where
  /-- It stands somewhere in the bodies of its scopes, -/
  stands : ∃ scopes, routine.StandsIn [] story scopes
  /-- and wherever that is, these scopes are open, in this order, and nothing is open around
  them. -/
  bodies : ∀ {scopes}, routine.StandsIn [] story scopes → scopes <:+ openScopes story
  /-- At its end, whether it returns or fails, all scopes are closed and the flag is as it was
  found. -/
  ended : ∀ result, rest = .done result → openScopes story = [] ∧ flagAfter found story = found

/-- Scopes nest in all code that opens them, at every point of it, on every processor that keeps
one flag. -/
theorem Routine.nested_of_reaches {α : Type} {routine : Routine α} {found : Bool}
    {story : List Happening} {rest : Program α}
    (hreaches : routine.program.Reaches story rest) (hkeeps : KeepsFlag found story) :
    routine.Nested found story rest := by
  have hscoping := ((routine.nests [] [] List.nil_suffix).of_reaches (scoping_rounds [])
    (fun _ _ => trivial) hreaches).1
  have hnested := nestedAt_of_keeps hkeeps hscoping
  refine ⟨hnested, exists_standsIn hreaches [], fun hstands => ?_, ?_⟩
  · simpa using hstands.suffix
  · rintro result rfl
    have hclosed : openScopes story = [] := (routine.nests []).openScopes_of_done hreaches
    refine ⟨hclosed, ?_⟩
    rw [hnested.flag, hclosed]
    rfl

/-- A push inside of two scopes; the inner one is left by a failure, which is caught for long enough
to ask for the slots, and then leaves the outer one as well. -/
def Routine.failingScopes : Routine Unit :=
  .scope
    (.scope
      (.call (.push ⟨0⟩ (.notification .timeoutEvent 1)) ⟨rfl, rfl⟩ fun _ =>
        .done (.error (.foreign "out of time")))
      fun result : Except Failure Unit =>
        .call (.capacity ⟨0⟩) ⟨rfl, rfl⟩ fun _ => .done result)
    .done

example : Routine.failingScopes.StandsIn []
    [.answered .mask (.ok true), .answered .mask (.ok false)]
    [⟨[.answered .mask (.ok true)], false⟩, ⟨[], true⟩] :=
  .inside (.inside (.stay _ _))

/-- What it does on a processor with interrupts enabled. -/
def Routine.failingScopesStory : List Happening :=
  [.answered .mask (.ok true), .answered .mask (.ok false),
    .answered .mask (.ok false), .acted (.acquire (.queue ⟨0⟩)) (),
    .acted (.mailbox ⟨0⟩ (.append (.notification .timeoutEvent 1))) (1 : Nat),
    .acted (.mailbox ⟨0⟩ (.publish 1)) (), .acted (.release (.queue ⟨0⟩)) (),
    .answered (.restore false) (.ok ()), .answered (.restore false) (.ok ()),
    .answered .mask (.ok false), .acted (.acquire (.queue ⟨0⟩)) (),
    .acted (.mailbox ⟨0⟩ .slots) (4 : Nat), .acted (.release (.queue ⟨0⟩)) (),
    .answered (.restore false) (.ok ()), .answered (.restore true) (.ok ())]

theorem Routine.nested_failingScopes :
    failingScopes.program.Reaches failingScopesStory (.done (.error (.foreign "out of time"))) ∧
      KeepsFlag true failingScopesStory ∧
        failingScopes.Nested true failingScopesStory (.done (.error (.foreign "out of time"))) := by
  have hreaches : failingScopes.program.Reaches failingScopesStory
      (.done (.error (.foreign "out of time"))) := by
    exact .step (.ask ..) <| .step (.ask ..) <| .step (.ask ..) <| .step (.act ..) <|
      .step (.act ..) <| .step (.act ..) <| .step (.act ..) <| .step (.ask ..) <|
      .step (.ask ..) <| .step (.ask ..) <| .step (.act ..) <| .step (.act ..) <|
      .step (.act ..) <| .step (.ask ..) <| .step (.ask ..) <| .stay _
  have hkeeps : KeepsFlag true failingScopesStory := by
    simp [failingScopesStory, Happening.Honest, flagAfter, calls, Call.of?, Call.flag, Call.sets]
  exact ⟨hreaches, hkeeps, nested_of_reaches hreaches hkeeps⟩

end CoreEngines
