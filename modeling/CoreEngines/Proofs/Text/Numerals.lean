import CoreEngines.Text.Record
import Mathlib.Data.List.Basic

/-!
Numerals in printed forms.  A numeral ends where its digits end, so a text that prints numbers
between other characters says which numbers they are.
-/

namespace CoreEngines.Text

/-- Texts that begin with digits and go on with something else have the same digits. -/
theorem digits_append_inj {first second rest rest' : List Char} {mark mark' : Char}
    (hfirst : ∀ char ∈ first, char.isDigit) (hsecond : ∀ char ∈ second, char.isDigit)
    (hmark : mark.isDigit = false) (hmark' : mark'.isDigit = false)
    (hsame : first ++ mark :: rest = second ++ mark' :: rest') :
    first = second ∧ mark = mark' ∧ rest = rest' := by
  induction first generalizing second with
  | nil =>
      cases second with
      | nil => exact ⟨rfl, List.cons.inj hsame⟩
      | cons digit second =>
          obtain ⟨rfl, _⟩ := List.cons.inj hsame
          have hdigit := hsecond mark List.mem_cons_self
          rw [hmark] at hdigit
          cases hdigit
  | cons digit first ih =>
      cases second with
      | nil =>
          obtain ⟨rfl, _⟩ := List.cons.inj hsame
          have hdigit := hfirst digit List.mem_cons_self
          rw [hmark'] at hdigit
          cases hdigit
      | cons other second =>
          rw [List.cons_append, List.cons_append, List.cons.injEq] at hsame
          obtain ⟨rfl, hsame⟩ := hsame
          obtain ⟨rfl, hrest⟩ := ih (fun char hmem => hfirst char (List.mem_cons_of_mem _ hmem))
            (fun char hmem => hsecond char (List.mem_cons_of_mem _ hmem)) hsame
          exact ⟨rfl, hrest⟩

theorem toDigits_inj {first second : Nat} :
    Nat.toDigits 10 first = Nat.toDigits 10 second ↔ first = second := by
  refine ⟨fun hsame => ?_, fun hsame => hsame ▸ rfl⟩
  have hvalue := congrArg (Nat.ofDigitChars 10 · 0) hsame
  simpa only [Nat.ofDigitChars_ten_toDigits] using hvalue

theorem numeral_append_inj {first second : Nat} {rest rest' : List Char} {mark mark' : Char}
    (hmark : mark.isDigit = false) (hmark' : mark'.isDigit = false)
    (hsame : Nat.toDigits 10 first ++ mark :: rest = Nat.toDigits 10 second ++ mark' :: rest') :
    first = second ∧ mark = mark' ∧ rest = rest' := by
  have hdigits : ∀ number, ∀ char ∈ Nat.toDigits 10 number, char.isDigit := fun number char hmem =>
    Nat.isDigit_of_mem_toDigits (by decide) (by decide) hmem
  obtain ⟨hnumerals, hrest⟩ :=
    digits_append_inj (hdigits first) (hdigits second) hmark hmark' hsame
  exact ⟨toDigits_inj.mp hnumerals, hrest⟩

/-- The table of numbers that lists these. -/
def numeralTable (entries : List (Nat × Nat)) : String :=
  table (entries.map fun entry => (toString entry.1, toString entry.2))

/-- What such a table prints of one entry, and `rest` after it. -/
def numeralRow (entry : Nat × Nat) (rest : List Char) : List Char :=
  Nat.toDigits 10 entry.1 ++ ':' :: ' ' :: (Nat.toDigits 10 entry.2 ++ rest)

def numeralRows : List (Nat × Nat) → List Char
  | [] => ['\x7d']
  | entry :: entries => ',' :: ' ' :: numeralRow entry (numeralRows entries)

theorem toList_numeralTable (entries : List (Nat × Nat)) :
    (numeralTable entries).toList =
      '\x7b' :: ([',', ' '].intercalate (entries.map (numeralRow · [])) ++ ['\x7d']) := by
  simp [numeralTable, table, numeralRow, Function.comp_def]

theorem toList_numeralTable_nil : (numeralTable []).toList = ['\x7b', '\x7d'] :=
  toList_numeralTable []

theorem toList_numeralTable_cons (entry : Nat × Nat) (entries : List (Nat × Nat)) :
    (numeralTable (entry :: entries)).toList =
      '\x7b' :: numeralRow entry (numeralRows entries) := by
  rw [toList_numeralTable]
  congr 1
  induction entries generalizing entry with
  | nil => simp [numeralRow, numeralRows]
  | cons next entries ih =>
      simp only [List.map_cons, List.intercalate_cons_cons, List.append_assoc] at ih ⊢
      rw [ih next]
      simp [numeralRow, numeralRows]

theorem numeralRow_inj {entry entry' : Nat × Nat} {rest rest' : List Char} {mark mark' : Char}
    (hmark : mark.isDigit = false) (hmark' : mark'.isDigit = false)
    (hsame : numeralRow entry (mark :: rest) = numeralRow entry' (mark' :: rest')) :
    entry = entry' ∧ mark :: rest = mark' :: rest' := by
  obtain ⟨hkey, _, hsame⟩ := numeral_append_inj rfl rfl hsame
  obtain ⟨hvalue, hmarks, hrest⟩ := numeral_append_inj hmark hmark' (List.cons.inj hsame).2
  exact ⟨Prod.ext hkey hvalue, hmarks ▸ hrest ▸ rfl⟩

theorem exists_numeralRows (entries : List (Nat × Nat)) :
    ∃ mark rest, numeralRows entries = mark :: rest ∧ mark.isDigit = false := by
  cases entries with
  | nil => exact ⟨_, _, rfl, rfl⟩
  | cons entry entries => exact ⟨_, _, rfl, rfl⟩

theorem numeralRows_inj {entries entries' : List (Nat × Nat)}
    (hsame : numeralRows entries = numeralRows entries') : entries = entries' := by
  induction entries generalizing entries' with
  | nil =>
      cases entries' with
      | nil => rfl
      | cons entry entries' => cases hsame
  | cons entry entries ih =>
      cases entries' with
      | nil => cases hsame
      | cons entry' entries' =>
          obtain ⟨mark, rest, hrest, hmark⟩ := exists_numeralRows entries
          obtain ⟨mark', rest', hrest', hmark'⟩ := exists_numeralRows entries'
          simp only [numeralRows, List.cons_inj_right, hrest, hrest'] at hsame
          obtain ⟨rfl, hmore⟩ := numeralRow_inj hmark hmark' hsame
          rw [ih (hrest.trans (hmore.trans hrest'.symm))]

/-- A table of numbers says which they are. -/
theorem numeralTable_inj {entries entries' : List (Nat × Nat)} :
    numeralTable entries = numeralTable entries' ↔ entries = entries' := by
  refine ⟨fun hsame => ?_, fun hsame => hsame ▸ rfl⟩
  have hchars := congrArg String.toList hsame
  -- The closing brace of a table without entries is no digit of a first one.
  have hempty : ∀ entry entries, (numeralTable []).toList ≠
      (numeralTable (entry :: entries)).toList := by
    intro entry entries hsame
    rw [toList_numeralTable_nil, toList_numeralTable_cons, List.cons_inj_right] at hsame
    have hlength := congrArg List.length hsame
    simp only [numeralRow, List.length_append, List.length_cons, List.length_nil] at hlength
    omega
  cases entries with
  | nil =>
      cases entries' with
      | nil => rfl
      | cons entry' entries' => exact absurd hchars (hempty entry' entries')
  | cons entry entries =>
      cases entries' with
      | nil => exact absurd hchars.symm (hempty entry entries)
      | cons entry' entries' =>
          rw [toList_numeralTable_cons, toList_numeralTable_cons, List.cons_inj_right] at hchars
          exact numeralRows_inj (congrArg (',' :: ' ' :: ·) hchars)

end CoreEngines.Text
