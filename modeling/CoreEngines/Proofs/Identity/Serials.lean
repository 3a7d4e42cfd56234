import CoreEngines.Proofs.Courses.Stories
import CoreEngines.Proofs.Permanence
import Mathlib.Data.List.Range
import Mathlib.Data.Nat.ModEq
import Mathlib.Logic.Function.Iterate

/-!
Serials.  However the claims on a counter follow on each other, it hands out the non-zero words in
the order of their cycle, from the word on that it was made with.  So it hands out none of them
twice before it has handed out all of them.
-/

namespace CoreEngines

namespace Serial

/-- So many serials in a row. -/
def row (first : UInt64) (count : Nat) : List UInt64 :=
  (List.range count).map fun place => after^[place] first

theorem row_succ (first : UInt64) (count : Nat) :
    row first (count + 1) = row first count ++ [after^[count] first] := by
  simp [row, List.range_succ]

/-- The cycle closes after the last word, and zero is not on it. -/
theorem toNat_after {serial : UInt64} (hserial : serial ≠ 0) :
    (after serial).toNat = serial.toNat % (UInt64.size - 1) + 1 := by
  have hpositive : serial.toNat ≠ 0 := fun hzero => hserial (UInt64.toNat_inj.mp hzero)
  have hsize := serial.toNat_lt_size
  have hnext : (serial + 1).toNat = (serial.toNat + 1) % UInt64.size := UInt64.toNat_add serial 1
  unfold after
  split
  case isTrue hzero =>
    rw [hzero, UInt64.toNat_zero] at hnext
    have hlast : serial.toNat = UInt64.size - 1 := by
      rw [UInt64.size] at hnext hsize ⊢
      omega
    rw [hlast, Nat.mod_self]
    rfl
  case isFalse hnonzero =>
    have hroom : serial.toNat ≠ UInt64.size - 1 := by
      intro hlast
      rw [hlast] at hnext
      exact hnonzero (UInt64.toNat_inj.mp hnext)
    rw [hnext, Nat.mod_eq_of_lt (by omega), Nat.mod_eq_of_lt (by omega)]

/-- The serials from one on follow the numbers around the cycle. -/
theorem toNat_iterate_after {first : UInt64} (hfirst : first ≠ 0) (count : Nat) :
    (after^[count] first).toNat = (first.toNat - 1 + count) % (UInt64.size - 1) + 1 := by
  have hpositive : first.toNat ≠ 0 := fun hzero => hfirst (UInt64.toNat_inj.mp hzero)
  have hsize := first.toNat_lt_size
  induction count with
  | zero =>
      rw [Function.iterate_zero_apply, Nat.add_zero, Nat.mod_eq_of_lt (by omega)]
      omega
  | succ count ih =>
      have hnonzero : after^[count] first ≠ 0 := by
        intro hzero
        rw [hzero, UInt64.toNat_zero] at ih
        omega
      rw [Function.iterate_succ_apply', toNat_after hnonzero, ih, Nat.mod_add_mod, Nat.add_assoc]

theorem row_nodup {first : UInt64} {count : Nat} (hfirst : first ≠ 0)
    (hcount : count < UInt64.size) : (row first count).Nodup := by
  refine List.Nodup.map_on ?_ List.nodup_range
  intro left hleft right hright hsame
  rw [List.mem_range] at hleft hright
  have hnumbers := congrArg UInt64.toNat hsame
  rw [toNat_iterate_after hfirst, toNat_iterate_after hfirst, Nat.add_right_cancel_iff] at hnumbers
  have hcancel : left ≡ right [MOD UInt64.size - 1] := Nat.ModEq.add_left_cancel' _ hnumbers
  exact hcancel.eq_of_lt_of_lt (by omega) (by omega)

end Serial

/-- The serial that a step claims of a counter, -/
def Happening.claimed? (target : Ref .counter) : Happening → Option UInt64
  | .acted (.counter counter (.exchange expected _)) none =>
      if counter = target then some expected else none
  | _ => none

/-- and the word that the counter starts with, if the step makes it. -/
def Happening.founded? (target : Ref .counter) : Happening → Option UInt64
  | .acted (.newCounter first) counter => if counter = target then some first.word else none
  | _ => none

def serialsIn (target : Ref .counter) (story : List Happening) : List UInt64 :=
  story.filterMap (·.claimed? target)

def foundedIn (target : Ref .counter) (story : List Happening) : List UInt64 :=
  story.filterMap (·.founded? target)

/-- Whoever exchanges a serial puts its successor in its place. -/
def Happening.Advances : Happening → Prop
  | .acted (.counter _ (.exchange expected updated)) none => updated = Serial.after expected
  | _ => True

namespace Happening

variable {happening : Happening} {target : Ref .counter}

theorem claimed?_eq_some {serial : UInt64} :
    happening.claimed? target = some serial ↔
      ∃ updated, happening = .acted (.counter target (.exchange serial updated)) none := by
  constructor
  · intro hclaimed
    unfold claimed? at hclaimed
    split at hclaimed
    · obtain ⟨rfl, hsame⟩ := Option.ite_none_right_eq_some.mp hclaimed
      cases hsame
      exact ⟨_, rfl⟩
    · cases hclaimed
  · rintro ⟨updated, rfl⟩
    exact if_pos rfl

theorem founded?_eq_some {first : UInt64} :
    happening.founded? target = some first ↔ happening = .acted (.newCounter ⟨first⟩) target := by
  constructor
  · intro hfounded
    unfold founded? at hfounded
    split at hfounded
    · obtain ⟨rfl, hsame⟩ := Option.ite_none_right_eq_some.mp hfounded
      cases hsame
      rfl
    · cases hfounded
  · rintro rfl
    exact if_pos rfl

theorem topic_of_claimed? {serial : UInt64} (hclaimed : happening.claimed? target = some serial) :
    happening.topic? = some .claim := by
  obtain ⟨updated, rfl⟩ := claimed?_eq_some.mp hclaimed
  rfl

theorem topic_of_founded? {first : UInt64} (hfounded : happening.founded? target = some first) :
    happening.topic? = some .outfit := by
  obtain rfl := founded?_eq_some.mp hfounded
  rfl

end Happening

/-- What can become of a counter in one step. -/
inductive SerialCounter.Turns (target : Ref .counter) :
    Happening → Option SerialCounter → Option SerialCounter → Prop
  | rest {happening : Happening} {counter : Option SerialCounter}
      (hfounded : happening.founded? target = none) (hclaimed : happening.claimed? target = none) :
      Turns target happening counter counter
  | found (first : UInt64) : Turns target (.acted (.newCounter ⟨first⟩) target) none (some ⟨first⟩)
  | claim (serial updated : UInt64) :
      Turns target (.acted (.counter target (.exchange serial updated)) none) (some ⟨serial⟩)
        (some ⟨updated⟩)

theorem World.counter_turns {world later : World} {happening : Happening} {target : Ref .counter}
    (hafter : world.After happening later) :
    SerialCounter.Turns target happening (world.counterAt? target) (later.counterAt? target) := by
  cases happening with
  | acted action answer =>
      cases effect_of_perform? hafter with
      | @counter place object access hobject =>
          by_cases hplace : target = place
          · subst hplace
            obtain ⟨word⟩ := object
            rw [hobject, counterAt?, getElem?_setIfInBounds_self hobject]
            cases access with
            | load => exact .rest rfl rfl
            | exchange expected updated =>
                by_cases hword : word = expected
                · subst hword
                  simpa [SerialCounter.access] using .claim word updated
                · simpa [SerialCounter.access, hword] using .rest rfl rfl
          · rw [counterAt?, counterAt?, getElem?_setIfInBounds_of_ne hplace]
            refine .rest rfl ?_
            rw [Option.eq_none_iff_forall_ne_some]
            intro serial hclaimed
            generalize (object.access access).1 = answer at hclaimed
            obtain ⟨updated, heq⟩ := Happening.claimed?_eq_some.mp hclaimed
            cases heq
            exact hplace rfl
      | newCounter first =>
          by_cases hplace : target.index = world.counters.size
          · obtain rfl : target = ⟨world.counters.size⟩ := congrArg Ref.mk hplace
            simpa [counterAt?] using .found first.word
          · rw [counterAt?, counterAt?, Array.getElem?_push, if_neg hplace]
            refine .rest ?_ rfl
            rw [Option.eq_none_iff_forall_ne_some]
            intro word hfounded
            cases Happening.founded?_eq_some.mp hfounded
            exact hplace rfl
      | _ => exact .rest rfl rfl
  | _ =>
      obtain rfl : later = world := hafter
      exact .rest rfl rfl

/-- What is known of a counter from its story: that it is not there yet, or that it was made once,
and has handed out the serials in a row. -/
inductive SerialCounter.Told (target : Ref .counter) (story : List Happening) :
    Option SerialCounter → Prop
  | absent (hfounded : foundedIn target story = []) (hserials : serialsIn target story = []) :
      Told target story none
  | running (first : UInt64) (count : Nat) (hfounded : foundedIn target story = [first])
      (hserials : serialsIn target story = Serial.row first count) :
      Told target story (some ⟨Serial.after^[count] first⟩)

theorem SerialCounter.Told.step {target : Ref .counter} {story : List Happening}
    {happening : Happening} {counter counter' : Option SerialCounter}
    (htold : Told target story counter) (hturns : Turns target happening counter counter')
    (hadvances : happening.Advances) : Told target (story ++ [happening]) counter' := by
  have hfounded : foundedIn target (story ++ [happening]) =
      foundedIn target story ++ (happening.founded? target).toList := by
    cases hfound : happening.founded? target <;> simp [foundedIn, hfound]
  have hserials : serialsIn target (story ++ [happening]) =
      serialsIn target story ++ (happening.claimed? target).toList := by
    cases hclaim : happening.claimed? target <;> simp [serialsIn, hclaim]
  cases hturns with
  | rest hfound hclaim =>
      rw [hfound] at hfounded
      rw [hclaim] at hserials
      cases htold with
      | absent hnone hno => exact .absent (by simp [hfounded, hnone]) (by simp [hserials, hno])
      | running first count hone hrow =>
          exact .running first count (by simp [hfounded, hone]) (by simp [hserials, hrow])
  | found first =>
      cases htold with
      | absent hnone hno =>
          refine .running first 0 ?_ ?_
          · simp [hfounded, hnone, Happening.founded?]
          · simp [hserials, hno, Happening.claimed?, Serial.row]
  | claim serial updated =>
      obtain rfl : updated = Serial.after serial := hadvances
      cases htold with
      | running first count hone hrow =>
          have hword : some (SerialCounter.mk (Serial.after (Serial.after^[count] first))) =
              some ⟨Serial.after^[count + 1] first⟩ := by
            rw [Function.iterate_succ_apply']
          rw [hword]
          refine .running first (count + 1) ?_ ?_
          · simp [hfounded, hone, Happening.founded?]
          · simp [hserials, hrow, Happening.claimed?, Serial.row_succ]

namespace Runs

variable {history : History} {world : World} {flows : Nat → Flow} {target : Ref .counter}

/-- Only claims exchange serials. -/
theorem advances (hrun : Runs {} history world flows) :
    ∀ happening ∈ history.map Prod.snd, happening.Advances := by
  intro happening hmem
  obtain ⟨⟨index, told⟩, hentry, htold⟩ := List.mem_map.mp hmem
  obtain rfl : told = happening := htold
  unfold Happening.Advances
  split
  · obtain ⟨number, operation, story, hown, hcourse, ⟨path, hpath, hmade⟩, htopic⟩ :=
      hrun.doer_of_topic hentry rfl Operation.claim_mem_traits
    have honpath := hmade.mem hcourse
    cases operation with
    | claimSerial counter =>
        obtain ⟨serial, rfl⟩ := hpath
        cases List.mem_singleton.mp honpath
        rfl
    | create registry =>
        obtain ⟨shape, serial, mailbox, thread, length, rfl⟩ := hpath
        simp only [Registry.creation, List.mem_cons] at honpath
        simp_all
    | _ => simp at htopic
  · trivial

theorem counter (hrun : Runs {} history world flows) (target : Ref .counter) :
    SerialCounter.Told target (history.map Prod.snd) (world.counterAt? target) := by
  refine hrun.keeps (fun history world =>
    (∀ happening ∈ history.map Prod.snd, happening.Advances) →
      SerialCounter.Told target (history.map Prod.snd) (world.counterAt? target)) ?_ ?_
    hrun.advances
  · exact fun _ => .absent rfl rfl
  · intro history world happening later index htold hafter hadvances
    rw [List.map_append, List.map_singleton] at hadvances ⊢
    refine (htold fun other hmem => hadvances other (List.mem_append_left _ hmem)).step
      (World.counter_turns hafter) ?_
    exact hadvances happening (List.mem_append_right _ (List.mem_singleton_self _))

/-- No counter is made twice. -/
theorem founded_once (hrun : Runs {} history world flows) (target : Ref .counter) :
    (foundedIn target (history.map Prod.snd)).length ≤ 1 := by
  have htold := hrun.counter target
  generalize world.counterAt? target = counter at htold
  cases htold with
  | absent hfounded hserials => simp [hfounded]
  | running first count hfounded hserials => simp [hfounded]

/-- As long as there are fewer claims than non-zero words, no serial is handed out twice. -/
theorem serials_nodup (hrun : Runs {} history world flows)
    (hfounded : .acted (.newCounter .initial) target ∈ history.map Prod.snd)
    (hfew : (serialsIn target (history.map Prod.snd)).length < UInt64.size) :
    (serialsIn target (history.map Prod.snd)).Nodup := by
  have htold := hrun.counter target
  generalize world.counterAt? target = counter at htold
  cases htold with
  | absent hnone hserials => rw [hserials]; exact List.nodup_nil
  | running first count hone hserials =>
      have hfirst : 1 ∈ foundedIn target (history.map Prod.snd) :=
        List.mem_filterMap.mpr ⟨_, hfounded, Happening.founded?_eq_some.mpr rfl⟩
      rw [hone, List.mem_singleton] at hfirst
      subst hfirst
      rw [hserials] at hfew ⊢
      refine Serial.row_nodup (by decide) ?_
      simpa [Serial.row] using hfew

end Runs

end CoreEngines
