import Otpasswd.Libotp.Fields

/-!
# Otpasswd.Libotp.Cards — the card data of a state

`ppp_calculate` fills seven fields of a state from three others and the masks.
`Cards` is these seven fields; a state is `Derived` if they are what
`ppp_calculate` would put there.

Main results: `calculate_eq`, `cards_congr` and `derived_calculate`.
-/

namespace Otpasswd

/-- The fields that `ppp_calculate` fills. -/
structure Cards where
  codesInRow : Word32
  codesOnCard : Word32
  currentCard : Num
  currentRow : ℕ
  currentColumn : Char
  maxCard : Num
  maxCode : Num
deriving DecidableEq

namespace State

def cards (s : State) : Cards where
  codesInRow := s.codesInRow
  codesOnCard := s.codesOnCard
  currentCard := s.currentCard
  currentRow := s.currentRow
  currentColumn := s.currentColumn
  maxCard := s.maxCard
  maxCode := s.maxCode

def setCards (s : State) (c : Cards) : State :=
  { s with
    codesInRow := c.codesInRow
    codesOnCard := c.codesOnCard
    currentCard := c.currentCard
    currentRow := c.currentRow
    currentColumn := c.currentColumn
    maxCard := c.maxCard
    maxCode := c.maxCode }

/-- The card data is what `ppp_calculate` computes from the state. -/
def Derived (s : State) : Prop := calculate s = s

instance (s : State) : Decidable s.Derived := inferInstanceAs (Decidable (_ = _))

@[simp] theorem cards_setCards (s : State) (c : Cards) : (s.setCards c).cards = c := rfl

@[simp] theorem setCards_setCards (s : State) (c c' : Cards) :
    (s.setCards c).setCards c' = s.setCards c' := rfl

@[simp] theorem setCards_self (s : State) : s.setCards s.cards = s := by
  obtain ⟨⟩ := s
  rfl

end State

theorem calculate_eq (s : State) : calculate s = s.setCards (calculate s).cards := by
  dsimp only [calculate, State.setCards, State.cards]

section

variable {s t : State}

/-- What the card data depends on. -/
theorem cards_congr (hrow : codesPerRow s.codeLength.toNat = codesPerRow t.codeLength.toNat)
    (hsalt : s.flags &&& flagSalted = 0 ↔ t.flags &&& flagSalted = 0)
    (hmask : s.codeMask = t.codeMask) (hcounter : s.justCounter = t.justCounter) :
    (calculate s).cards = (calculate t).cards := by
  have hif {α : Type} (x y : α) : (if s.flags &&& flagSalted ≠ 0 then x else y) =
      if t.flags &&& flagSalted ≠ 0 then x else y := by
    by_cases h : s.flags &&& flagSalted = 0
    · rw [if_neg (not_not.mpr h), if_neg (not_not.mpr (hsalt.mp h))]
    · rw [if_pos h, if_pos fun h' => h (hsalt.mpr h')]
  simp only [calculate, State.cards, hrow, hmask, hcounter, hif]

theorem derived_iff : s.Derived ↔ s.cards = (calculate s).cards := by
  constructor
  · intro h
    rw [State.Derived] at h
    rw [h]
  · intro h
    rw [State.Derived, calculate_eq, ← h, State.setCards_self]

/-- A state that agrees with a derived one on what the cards depend on, and on
the cards. -/
theorem State.Derived.congr (h : s.Derived) (hcards : t.cards = s.cards)
    (hrow : codesPerRow s.codeLength.toNat = codesPerRow t.codeLength.toNat)
    (hsalt : s.flags &&& flagSalted = 0 ↔ t.flags &&& flagSalted = 0)
    (hmask : s.codeMask = t.codeMask) (hcounter : s.justCounter = t.justCounter) : t.Derived := by
  rw [derived_iff] at h ⊢
  rw [hcards, h, cards_congr hrow hsalt hmask hcounter]

theorem calculate_setCards (s : State) (c : Cards) : calculate (s.setCards c) = calculate s := by
  have h : (calculate (s.setCards c)).cards = (calculate s).cards := cards_congr rfl Iff.rfl rfl rfl
  rw [calculate_eq, h, State.setCards_setCards, ← calculate_eq]

theorem calculate_setPrompt (s : State) (prompt : Option (List Char)) :
    calculate (s.setPrompt prompt) = (calculate s).setPrompt prompt := by
  dsimp only [calculate, State.setPrompt, State.justCounter]

theorem derived_calculate (s : State) : (calculate s).Derived := by
  rw [derived_iff]
  have h (c : Cards) : (calculate s).cards = (calculate (s.setCards c)).cards :=
    cards_congr rfl Iff.rfl rfl rfl
  conv_rhs => rw [calculate_eq s]
  exact h _

end

end Otpasswd
