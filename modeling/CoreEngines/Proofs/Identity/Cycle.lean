import CoreEngines.Proofs.Chronicles
import CoreEngines.Proofs.Identity.Counters
import CoreEngines.Proofs.Schedules

/-!
The cycle of a counter.  Claims may get in each other's way, read words that are out of date and
fail by chance.  Still every claim that goes through gets the next non-zero word, so a counter
hands out all of them before it hands out one again.
-/

namespace CoreEngines

namespace Serial

variable {first word : UInt64}

theorem iterate_after_ne_zero (hfirst : first ≠ 0) (count : Nat) : after^[count] first ≠ 0 := by
  cases count with
  | zero => exact hfirst
  | succ count =>
      rw [Function.iterate_succ_apply']
      exact after_ne_zero _

theorem eq_of_getElem?_row {total place : Nat} (hplace : (row first total)[place]? = some word) :
    word = after^[place] first := by
  obtain ⟨hinside, hword⟩ := List.getElem?_eq_some_iff.mp hplace
  simpa [row] using hword.symm

theorem row_window (first : UInt64) (total start count : Nat) :
    ((row first total).drop start).take count =
      row (after^[start] first) (min count (total - start)) := by
  refine List.ext_getElem ?_ fun place hleft hright => ?_
  · simp [row]
  · simp [row, Nat.add_comm start, Function.iterate_add_apply]

/-- All words but zero are in a row that closes the cycle. -/
theorem mem_row (hfirst : first ≠ 0) (hword : word ≠ 0) :
    word ∈ row first (UInt64.size - 1) := by
  have hstart : first.toNat ≠ 0 := fun hzero => hfirst (UInt64.toNat_inj.mp hzero)
  have hnumber : word.toNat ≠ 0 := fun hzero => hword (UInt64.toNat_inj.mp hzero)
  have hsize := word.toNat_lt_size
  have hbound := first.toNat_lt_size
  -- The place of the word is how far it lies behind the first one, around the cycle.
  refine List.mem_map.mpr
    ⟨(word.toNat - 1 + (UInt64.size - 1 - (first.toNat - 1))) % (UInt64.size - 1), ?_, ?_⟩
  · exact List.mem_range.mpr (Nat.mod_lt _ (by decide))
  · apply UInt64.toNat_inj.mp
    rw [toNat_iterate_after hfirst, Nat.add_mod_mod]
    have haround : first.toNat - 1 + (word.toNat - 1 + (UInt64.size - 1 - (first.toNat - 1))) =
        word.toNat - 1 + (UInt64.size - 1) := by
      omega
    rw [haround, Nat.add_mod_right, Nat.mod_eq_of_lt (by omega)]
    omega

end Serial

namespace SerialCounter

open Program

/-- What a claim has come to: as long as no exchange went through it goes on, and once one did, its
serial is what the claim returns. -/
inductive Attempt (counter : Ref .counter) : List Happening → Program UInt64 → Prop
  | pending {story : List Happening} {rest : Program UInt64}
      (hserials : serialsIn counter story = []) (hrest : ∀ result, rest ≠ .done result) :
      Attempt counter story rest
  | settled {story : List Happening} {serial : UInt64}
      (hserials : serialsIn counter story = [serial]) : Attempt counter story (.done (.ok serial))

section
variable {counter : Ref .counter} {seen : UInt64} {story : List Happening} {rest : Program UInt64}

theorem Attempt.cons {happening : Happening} (hattempt : Attempt counter story rest)
    (hnot : happening.claimed? counter = none) : Attempt counter (happening :: story) rest := by
  have hserials : serialsIn counter (happening :: story) = serialsIn counter story :=
    List.filterMap_cons_none hnot
  cases hattempt with
  | pending hnone hrest => exact .pending (hserials.trans hnone) hrest
  | settled hone => exact .settled (hserials.trans hone)

/-- A claim that is about to do something has not come to anything. -/
theorem attempt_of_perform {action : Action} {next : action.Answer → Program UInt64}
    (hreaches : (perform action >>= next).Reaches story rest)
    (hnext : ∀ answer later, story = .acted action answer :: later →
      (next answer).Reaches later rest → Attempt counter story rest) :
    Attempt counter story rest := by
  cases story with
  | nil =>
      rw [reaches_nil.mp hreaches]
      exact .pending rfl nofun
  | cons happening later =>
      obtain ⟨answer, rfl, hlater⟩ := reaches_perform_bind hreaches
      exact hnext answer later rfl hlater

/-- A claim that goes on does one more round, -/
theorem attempt_of_invoke (hreaches : (invoke (.claimSerial counter seen)).Reaches story rest)
    (hround : ∀ later, later.length < story.length →
      (claimStep counter seen).Reaches later rest → Attempt counter later rest) :
    Attempt counter story rest := by
  cases hreaches with
  | stay => exact .pending rfl nofun
  | step hgoes hreaches =>
      cases hgoes
      rw [andThen_done] at hreaches
      exact (hround _ (Nat.lt_succ_self _) hreaches).cons rfl

/-- which ends with an exchange that goes through, or finds another word to try. -/
theorem attempt_of_claimStep (hreaches : (claimStep counter seen).Reaches story rest) :
    Attempt counter story rest := by
  induction hlength : story.length using Nat.strong_induction_on generalizing seen story with
  | _ length ih =>
      subst hlength
      cases story with
      | nil =>
          rw [reaches_nil.mp hreaches]
          exact .pending rfl nofun
      | cons happening story =>
          obtain ⟨spurious, rfl, hround⟩ := reaches_chance_bind hreaches
          have hagain : ∀ {seen : UInt64} {happening : Happening} {later : List Happening},
              story = happening :: later →
                (invoke (.claimSerial counter seen)).Reaches later rest →
                  Attempt counter later rest := by
            rintro seen happening later rfl hlater
            refine attempt_of_invoke hlater fun last hlast hround => ih last.length ?_ hround rfl
            simp only [List.length_cons]
            omega
          refine Attempt.cons ?_ rfl
          cases spurious with
          | true =>
              refine attempt_of_perform hround fun found later hstory hlater => ?_
              exact hstory ▸ (hagain hstory hlater).cons rfl
          | false =>
              refine attempt_of_perform hround fun outcome later hstory hlater => ?_
              cases outcome with
              | none =>
                  obtain ⟨rfl, rfl⟩ := reaches_done.mp hlater
                  exact hstory ▸ .settled (List.filterMap_cons_some (if_pos rfl))
              | some found => exact hstory ▸ (hagain hstory hlater).cons rfl

theorem attempt_of_claim (hreaches : (claim counter).Reaches story rest) :
    Attempt counter story rest := by
  refine attempt_of_perform hreaches fun seen later hstory hlater => ?_
  subst hstory
  exact (attempt_of_invoke hlater fun _ _ hround => attempt_of_claimStep hround).cons rfl

end

/-- All claims of a counter that went through, in the order in which they did, with those who made
them. -/
abbrev claims (counter : Ref .counter) (history : History) : List (Nat × UInt64) :=
  (Journal.ofHistory history).deeds (·.claimed? counter)

/-- A counter that starts with a word other than zero hands out the cycle of these words. -/
structure Cycles (counter : Ref .counter) (first : UInt64) (machine : Machine)
    (history : History) : Prop where
  /-- The counter does not hold zero, -/
  nonzero : ∃ word, machine.world.counterAt? counter = some ⟨word⟩ ∧ word ≠ 0
  /-- and nobody has ever found zero in it. -/
  loaded : ∀ word : UInt64,
    .acted (.counter counter .load) word ∈ history.map Prod.snd → word ≠ 0
  found : ∀ expected updated word : UInt64,
    .acted (.counter counter (.exchange expected updated)) (some word) ∈ history.map Prod.snd →
      word ≠ 0
  /-- The serial of a claim lies as many places behind the first word of the counter as there were
  claims before it. -/
  placed : ∀ {place number serial}, (claims counter history)[place]? = some (number, serial) →
    serial.toNat = (first.toNat - 1 + place) % (2 ^ 64 - 1) + 1
  /-- Nobody claims twice. -/
  once : ((claims counter history).map Prod.fst).Nodup
  /-- A call that has claimed a serial returns it, if it has not done so already, -/
  returns : ∀ {number story serial},
    (Journal.ofHistory history).own number = .started (.claimSerial counter) :: story →
      (number, serial) ∈ claims counter history →
        .finished (.claimSerial counter) (.ok serial) ∈ story ∨
          ∃ index, ⟨.claimSerial counter, .done (.ok serial)⟩ ∈ machine.flow index
  /-- and nothing else is ever returned. -/
  returned : ∀ {number story result},
    (Journal.ofHistory history).own number = .started (.claimSerial counter) :: story →
      .finished (.claimSerial counter) result ∈ story →
        ∃ serial, result = .ok serial ∧ serial ≠ 0 ∧ (number, serial) ∈ claims counter history
  /-- Whoever creates a thread in a registry on the counter names it by the serial that it has
  claimed. -/
  named : ∀ {number story registry shape id mailbox thread},
    (Journal.ofHistory history).own number = .started (.create registry) :: story →
      .acted (.registry registry .shape) shape ∈ story → shape.counter = counter →
        .acted (.newThread id mailbox) thread ∈ story →
          id.serial ≠ 0 ∧ (number, id.serial) ∈ claims counter history
  /-- Among claims that follow on each other no serial comes twice before the cycle has closed, -/
  distinct : ∀ start count, count ≤ 2 ^ 64 - 1 →
    ((((claims counter history).map Prod.snd).drop start).take count).Nodup
  /-- and once it has closed every word but zero has come. -/
  complete : ∀ start, start + (2 ^ 64 - 1) ≤ (claims counter history).length →
    ∀ word : UInt64, word ≠ 0 →
      word ∈ (((claims counter history).map Prod.snd).drop start).take (2 ^ 64 - 1)

section
variable {history : History} {world : World} {flows : Nat → Flow} {counter : Ref .counter}
  {first : UInt64} {number : Nat} {story : List Happening} {serial : UInt64}

/-- The counter stands where the claims have brought it from its first word. -/
theorem turned_of_runs (hrun : Runs {} history world flows)
    (hmade : .acted (.newCounter ⟨first⟩) counter ∈ history.map Prod.snd) :
    ∃ count, world.counterAt? counter = some ⟨Serial.after^[count] first⟩ ∧
      serialsIn counter (history.map Prod.snd) = Serial.row first count ∧
        foundedIn counter (history.map Prod.snd) = [first] := by
  have hfirst : first ∈ foundedIn counter (history.map Prod.snd) :=
    List.mem_filterMap.mpr ⟨_, hmade, Happening.founded?_eq_some.mpr rfl⟩
  have htold := hrun.counter counter
  generalize world.counterAt? counter = object at htold
  cases htold with
  | absent hnone =>
      rw [hnone] at hfirst
      cases hfirst
  | running other count hone hserials =>
      rw [hone, List.mem_singleton] at hfirst
      subst hfirst
      exact ⟨count, rfl, hserials, hone⟩

/-- Whoever does something with the counter finds a word other than zero in it. -/
theorem word_of_access {access : Access} {answer : access.Answer}
    (hrun : Runs {} history world flows)
    (hmade : .acted (.newCounter ⟨first⟩) counter ∈ history.map Prod.snd) (hfirst : first ≠ 0)
    (hmem : .acted (.counter counter access) answer ∈ history.map Prod.snd) :
    ∃ word, word ≠ 0 ∧ answer = (SerialCounter.access ⟨word⟩ access).1 := by
  obtain ⟨⟨index, happening⟩, hentry, rfl⟩ := List.mem_map.mp hmem
  obtain ⟨before, after, rfl⟩ := List.append_of_mem hentry
  obtain ⟨_, _, _, hone⟩ := turned_of_runs hrun hmade
  obtain ⟨middle, later, _, hbefore, hafter⟩ := hrun.moment
  cases World.effect_of_perform? hafter with
  | @counter _ object _ hobject =>
      have htold := hbefore.counter counter
      rw [hobject] at htold
      cases htold with
      | running other count hfounded hserials =>
          rw [List.map_append, foundedIn_append, hfounded] at hone
          obtain rfl : other = first := (List.cons.inj hone).1
          exact ⟨_, Serial.iterate_after_ne_zero hfirst count, rfl⟩

/-- Nobody claims more than one serial of a counter. -/
theorem claims_once (hrun : Runs {} history world flows) (counter : Ref .counter) :
    ((claims counter history).map Prod.fst).Nodup := by
  rw [List.nodup_iff_count_le_one]
  intro number
  rw [Journal.count_deeds]
  rcases hrun.own_cases number with hown | ⟨operation, story, hown⟩
  · rw [hown]
    exact Nat.zero_le 1
  · have hserials := (hrun.begins hown).serials counter
    rw [serialsIn, Operation.filterMap_course (fun _ _ => Happening.topic_of_claimed?)
      operation.claim_mem_traits] at hserials
    rw [hown]
    exact hserials

theorem mem_claims {operation : Operation}
    (hown : (Journal.ofHistory history).own number = .started operation :: story) :
    (number, serial) ∈ claims counter history ↔ serial ∈ serialsIn counter story := by
  rw [Journal.mem_deeds, hown, ← List.mem_filterMap]
  exact Iff.rfl

/-- A call that has come to something has claimed what it comes to. -/
theorem attempt_of_own (hrun : Runs {} history world flows)
    (hown : (Journal.ofHistory history).own number = .started (.claimSerial counter) :: story) :
    (∃ rest, (claim counter).Reaches story rest ∧ Attempt counter story rest) ∨
      ∃ steps serial, story = steps ++ [.finished (.claimSerial counter) (.ok serial)] ∧
        (∀ happening ∈ steps, happening.isStep) ∧ serialsIn counter story = [serial] := by
  rcases hrun.reaches hown with ⟨rest, hreaches⟩ | ⟨steps, result, rfl, hreaches⟩
  · exact Or.inl ⟨rest, hreaches, attempt_of_claim hreaches⟩
  · refine Or.inr ?_
    cases attempt_of_claim hreaches with
    | pending hserials hrest => exact absurd rfl (hrest result)
    | @settled serial hserials =>
        refine ⟨steps, serial, rfl, hreaches.isStep, ?_⟩
        rw [serialsIn, List.filterMap_append]
        exact congrArg (· ++ []) hserials

/-- A thread that is created on a counter gets the serial that its creator has claimed. -/
theorem named_of_runs {registry : Ref .registry} {shape : Registry.Shape} {id : ThreadId}
    {mailbox : Ref .mailbox} {thread : Ref .thread} (hrun : Runs {} history world flows)
    (hown : (Journal.ofHistory history).own number = .started (.create registry) :: story)
    (hshape : .acted (.registry registry .shape) shape ∈ story)
    (hborn : .acted (.newThread id mailbox) thread ∈ story) :
    id.serial ∈ serialsIn shape.counter story := by
  obtain ⟨path, ⟨shape', serial, mailbox', thread', length, rfl⟩, hmade⟩ := hrun.begins hown
  have hcourse : ∀ {happening topic}, happening ∈ story → happening.topic? = some topic →
      topic ∈ (Operation.create registry).traits →
        happening ∈ (Operation.create registry).course story := Operation.mem_course_of_topic
  replace hshape := hcourse hshape rfl (by simp [Operation.traits])
  replace hborn := hcourse hborn rfl (by simp [Operation.traits])
  have honpath := hmade.mem hshape
  have honpath' := hmade.mem hborn
  simp only [Registry.creation, List.mem_cons] at honpath honpath'
  obtain rfl : shape = shape' := by simpa using honpath
  obtain ⟨rfl, rfl, rfl⟩ : id = ⟨shape.core, serial⟩ ∧ mailbox = mailbox' ∧ thread = thread' := by
    simpa [and_assoc] using honpath'
  have hbefore := take_subset_of_mem hmade (show _[2]? = some _ from rfl)
    (by simp [Registry.creation]) hborn
  have hclaimed : claimed shape.counter serial ∈ story :=
    (Operation.mem_course.mp (hbefore (by simp [Registry.creation]))).1
  exact List.mem_filterMap.mpr ⟨_, hclaimed, Happening.claimed?_eq_some.mpr ⟨_, rfl⟩⟩

/-- The claims of a counter are a row from its first word on, and the counter stands behind it. -/
theorem claims_row (hrun : Runs {} history world flows)
    (hmade : .acted (.newCounter ⟨first⟩) counter ∈ history.map Prod.snd) :
    ∃ total, world.counterAt? counter = some ⟨Serial.after^[total] first⟩ ∧
      (claims counter history).map Prod.snd = Serial.row first total := by
  obtain ⟨total, hword, hserials, _⟩ := turned_of_runs hrun hmade
  exact ⟨total, hword, (hrun.deeds _).trans hserials⟩

theorem ne_zero_of_claims (hrun : Runs {} history world flows)
    (hmade : .acted (.newCounter ⟨first⟩) counter ∈ history.map Prod.snd) (hfirst : first ≠ 0)
    (hmem : (number, serial) ∈ claims counter history) : serial ≠ 0 := by
  obtain ⟨total, _, hclaims⟩ := claims_row hrun hmade
  have hrow : serial ∈ Serial.row first total := hclaims ▸ List.mem_map.mpr ⟨_, hmem, rfl⟩
  obtain ⟨place, _, rfl⟩ := List.mem_map.mp hrow
  exact Serial.iterate_after_ne_zero hfirst place

/-- A call that has claimed a serial has returned it, or is about to return it. -/
theorem returned_of_claims (hrun : Runs {} history world flows)
    (hown : (Journal.ofHistory history).own number = .started (.claimSerial counter) :: story)
    (hmem : (number, serial) ∈ claims counter history) :
    .finished (.claimSerial counter) (.ok serial) ∈ story ∨
      ∃ index, ⟨.claimSerial counter, .done (.ok serial)⟩ ∈ flows index := by
  rw [mem_claims hown] at hmem
  rcases attempt_of_own hrun hown with ⟨rest, hreaches, hattempt⟩ | ⟨steps, other, rfl, _, hone⟩
  · cases hattempt with
    | pending hnone =>
        rw [hnone] at hmem
        cases hmem
    | settled hone =>
        rw [hone, List.mem_singleton] at hmem
        subst hmem
        exact Or.inr (hrun.ended hown hreaches)
  · rw [hone, List.mem_singleton] at hmem
    subst hmem
    exact Or.inl (List.mem_append_right _ (List.mem_singleton_self _))

theorem claims_of_returned {result : Except Failure UInt64} (hrun : Runs {} history world flows)
    (hown : (Journal.ofHistory history).own number = .started (.claimSerial counter) :: story)
    (hfinished : .finished (.claimSerial counter) result ∈ story) :
    ∃ serial, result = .ok serial ∧ (number, serial) ∈ claims counter history := by
  rcases attempt_of_own hrun hown with ⟨rest, hreaches, _⟩ | ⟨steps, serial, rfl, hsteps, hone⟩
  · cases hreaches.isStep _ hfinished
  · rcases List.mem_append.mp hfinished with hstep | hlast
    · cases hsteps _ hstep
    · cases List.mem_singleton.mp hlast
      exact ⟨serial, rfl, (mem_claims hown).mpr (hone ▸ List.mem_singleton_self serial)⟩

end

/-- A counter hands out the cycle of the words other than zero. -/
theorem cycles_of_run? {count : Nat} {moves : List (Nat × Move)} {machine : Machine}
    {history : History} {counter : Ref .counter} {first : UInt64}
    (hrun : (Machine.idle {} count).run? moves = some (machine, history))
    (hmade : .acted (.newCounter ⟨first⟩) counter ∈ history.map Prod.snd) (hfirst : first ≠ 0) :
    Cycles counter first machine history := by
  have hruns := Machine.runs_of_run? hrun
  obtain ⟨total, hword, hclaims⟩ := claims_row hruns hmade
  have hnonzero : ∀ {number serial}, (number, serial) ∈ claims counter history → serial ≠ 0 :=
    ne_zero_of_claims hruns hmade hfirst
  constructor
  · exact ⟨_, hword, Serial.iterate_after_ne_zero hfirst total⟩
  · intro word hmem
    obtain ⟨_, hnot, rfl⟩ := word_of_access hruns hmade hfirst hmem
    exact hnot
  · intro expected updated word hmem
    obtain ⟨held, hnot, hanswer⟩ := word_of_access hruns hmade hfirst hmem
    by_cases hsame : held = expected
    · simp [SerialCounter.access, hsame] at hanswer
    · simp only [SerialCounter.access, if_neg hsame] at hanswer
      exact Option.some.inj hanswer ▸ hnot
  · intro place number serial hplace
    have hrow : (Serial.row first total)[place]? = some serial := by
      rw [← hclaims, List.getElem?_map, hplace]
      rfl
    rw [Serial.eq_of_getElem?_row hrow]
    exact Serial.toNat_iterate_after hfirst place
  · exact claims_once hruns counter
  · exact returned_of_claims hruns
  · intro number story result hown hfinished
    obtain ⟨serial, hresult, hmem⟩ := claims_of_returned hruns hown hfinished
    exact ⟨serial, hresult, hnonzero hmem, hmem⟩
  · intro number story registry shape id mailbox thread hown hshape hcounter hborn
    subst hcounter
    have hmem := (mem_claims hown).mpr (named_of_runs hruns hown hshape hborn)
    exact ⟨hnonzero hmem, hmem⟩
  · intro start count hcount
    rw [hclaims, Serial.row_window]
    refine Serial.row_nodup (Serial.iterate_after_ne_zero hfirst start) ?_
    exact (Nat.min_le_left _ _).trans_lt (Nat.lt_succ_of_le hcount)
  · intro start hlong word hnot
    have hlength : total = (claims counter history).length := by
      simpa [Serial.row] using (congrArg List.length hclaims).symm
    rw [hclaims, Serial.row_window, hlength, Nat.min_eq_left (by omega)]
    exact Serial.mem_row (Serial.iterate_after_ne_zero hfirst start) hnot

open Schedule

/-- A counter is made shortly before the end of its cycle.  Two flows read the same word; the first
fails by chance and then claims the word, so that the second is late and claims the next one; then
the first claims once more, and the cycle begins anew. -/
def wrapAround : List (Nat × Move) :=
  inFlow 0 (along (.makeCounter 0xfffffffffffffffe) 1 ++ [Move.start (.claimSerial ⟨0⟩), .step]) ++
  inFlow 1 [.start (.claimSerial ⟨0⟩), .step] ++
  inFlow 0 [.step, .choose true, .step, .step, .choose false, .step] ++
  inFlow 1 [.step, .choose false, .step] ++ inFlow 0 [.finish] ++
  inFlow 1 [.step, .choose false, .step, .finish] ++
  inFlow 0 [.start (.claimSerial ⟨0⟩), .step, .step, .choose false, .step, .finish]

theorem cycles_wrapAround : ∃ machine history,
    (Machine.idle {} 2).run? wrapAround = some (machine, history) ∧
      .acted (.newCounter ⟨0xfffffffffffffffe⟩) ⟨0⟩ ∈ history.map Prod.snd ∧
        (0xfffffffffffffffe : UInt64) ≠ 0 ∧
          claims ⟨0⟩ history = [(1, 0xfffffffffffffffe), (2, 0xffffffffffffffff), (3, 1)] ∧
            Cycles ⟨0⟩ 0xfffffffffffffffe machine history := by
  have hsome : ((Machine.idle {} 2).run? wrapAround).isSome := by rfl
  obtain ⟨⟨machine, history⟩, hrun⟩ := Option.isSome_iff_exists.mp hsome
  have hmade : (((Machine.idle {} 2).run? wrapAround).bind fun outcome => outcome.2[1]?) =
      some (0, .acted (.newCounter ⟨0xfffffffffffffffe⟩) ⟨0⟩) := by rfl
  have hclaims : (((Machine.idle {} 2).run? wrapAround).map fun outcome => claims ⟨0⟩ outcome.2) =
      some [(1, 0xfffffffffffffffe), (2, 0xffffffffffffffff), (3, 1)] := by rfl
  rw [hrun] at hmade hclaims
  have hmem := List.mem_map_of_mem (f := Prod.snd) (List.mem_of_getElem? hmade)
  exact ⟨machine, history, hrun, hmem, by decide, Option.some.inj hclaims,
    cycles_of_run? hrun hmem (by decide)⟩

end SerialCounter

end CoreEngines
