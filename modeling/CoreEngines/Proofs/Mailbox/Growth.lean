import CoreEngines.Mailbox.Slots
import Mathlib.Order.Bounds.Basic
import Mathlib.Order.Monotone.Basic

/-!
Growth of a queue.  Slots are never given back one by one, and a full queue gets twice as many, so
the slots of a queue are the first enough of a chain of doublings.
-/

namespace CoreEngines.Slots

/-- The slots of a queue that began with `base` of them and was full so many times. -/
def chain (base : Nat) : Nat → Nat
  | 0 => base
  | steps + 1 => max (2 * chain base steps) 4

/-- Whether a queue that began with `base` slots is full at this length. -/
def Full (base length : Nat) : Prop :=
  ∃ steps, chain base steps = length

/-- The slots are the first of the chain that hold so many messages. -/
def Suit (base length slots : Nat) : Prop :=
  IsLeast {full | Full base full ∧ length ≤ full} slots

variable {base length slots : Nat}

theorem chain_lt_succ (base steps : Nat) : chain base steps < chain base (steps + 1) := by
  rw [chain]
  omega

theorem chain_strictMono (base : Nat) : StrictMono (chain base) :=
  strictMono_nat_of_lt_succ (chain_lt_succ base)

theorem grown_chain (base steps : Nat) : grown (chain base steps) = chain base (steps + 1) := by
  rw [grown, chain]
  omega

theorem suit_base (hlength : length ≤ base) : Suit base length base := by
  refine ⟨⟨⟨0, rfl⟩, hlength⟩, ?_⟩
  rintro full ⟨⟨steps, rfl⟩, _⟩
  exact (chain_strictMono base).monotone (Nat.zero_le steps)

theorem Suit.length_le (hsuit : Suit base length slots) : length ≤ slots :=
  hsuit.1.2

theorem Suit.succ (hsuit : Suit base length slots) (hfree : length < slots) :
    Suit base (length + 1) slots := by
  refine ⟨⟨hsuit.1.1, hfree⟩, ?_⟩
  rintro full ⟨hfull, hlength⟩
  exact hsuit.2 ⟨hfull, by omega⟩

theorem Suit.grow (hsuit : Suit base length slots) (hfull : slots ≤ length) :
    Suit base (length + 1) (grown slots) := by
  obtain rfl : length = slots := Nat.le_antisymm hsuit.length_le hfull
  obtain ⟨steps, rfl⟩ := hsuit.1.1
  rw [grown_chain]
  refine ⟨⟨⟨steps + 1, rfl⟩, chain_lt_succ base steps⟩, ?_⟩
  rintro _ ⟨⟨other, rfl⟩, hother⟩
  have hlater : steps < other := (chain_strictMono base).lt_iff_lt.mp hother
  exact (chain_strictMono base).monotone hlater

theorem Suit.full_iff (hsuit : Suit base length slots) : Full base length ↔ slots ≤ length := by
  constructor
  · intro hfull
    exact hsuit.2 ⟨hfull, Nat.le_refl length⟩
  · intro hslots
    rw [Nat.le_antisymm hsuit.length_le hslots]
    exact hsuit.1.1

theorem not_full_of_lt (hlength : length < base) : ¬ Full base length := by
  rw [(suit_base (Nat.le_of_lt hlength)).full_iff]
  omega

/-- Who could have so many slots at first can have them again. -/
theorem allocatable_replenished {reserve : Nat} (hroom : allocatable reserve) :
    allocatable (replenished reserve) := by
  have hbytes : reserve * messageBytes ≤ addressLimit := of_decide_eq_true hroom
  apply decide_eq_true
  simp only [replenished, messageBytes, addressLimit] at *
  split <;> omega

end CoreEngines.Slots
