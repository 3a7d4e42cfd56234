/-!
Serial numbers.  A counter runs through the non-zero words in a cycle, so that zero never names
a thread.  It is shared by all who create threads at once: a claim reads the word, then exchanges
it for its successor if nobody else got there first.
-/

namespace CoreEngines

/-- The word after `serial` in the cycle of non-zero words. -/
def Serial.after (serial : UInt64) : UInt64 :=
  if serial + 1 = 0 then 1 else serial + 1

theorem Serial.after_ne_zero (serial : UInt64) : Serial.after serial ≠ 0 := by
  unfold Serial.after
  split
  · decide
  · assumption

/-- The word that the next claim hands out. -/
structure SerialCounter where
  word : UInt64
deriving DecidableEq, Repr, Inhabited

namespace SerialCounter

def initial : SerialCounter := ⟨1⟩

/-- What one access to the shared word can do. -/
inductive Access
  | load
  | exchange (expected updated : UInt64)
deriving DecidableEq, Repr

/-- A load answers the word.  An exchange answers the word that it found in place of the expected
one, and nothing if it went through. -/
abbrev Access.Answer : Access → Type
  | .load => UInt64
  | .exchange _ _ => Option UInt64

def access (counter : SerialCounter) : (access : Access) → access.Answer × SerialCounter
  | .load => (counter.word, counter)
  | .exchange expected updated =>
      if counter.word = expected then (none, ⟨updated⟩) else (some counter.word, counter)

def inspect (counter : SerialCounter) : String :=
  toString counter.word.toNat

example : Serial.after 0xffffffffffffffff = 1 := by decide
example : (SerialCounter.mk 7).access (.exchange 7 8) = (none, ⟨8⟩) := rfl
example : (SerialCounter.mk 9).access (.exchange 7 8) = (some 9, ⟨9⟩) := rfl

end SerialCounter

end CoreEngines
