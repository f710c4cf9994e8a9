import TextOverride.Statement

namespace TextOverride

theorem NotFound.message_injective : Function.Injective NotFound.message := by
  intro reason other h
  cases reason <;> cases other <;> first | rfl | exact absurd h (by decide)

theorem Locator.locate_eq_ok_iff {locator : Locator} {lines : List Text}
    {name : Text} {statement : Statement} :
    locator.locate lines name = .ok statement ↔
      locator.declaration? lines name = some statement.first ∧
        locator.terminator? lines statement.first = some statement.last := by
  rw [locate]
  constructor
  · intro h
    split at h
    case h_1 => cases h
    case h_2 first hfirst =>
      split at h
      case h_1 => cases h
      case h_2 last hlast =>
        cases h
        exact ⟨hfirst, hlast⟩
  · rintro ⟨hfirst, hlast⟩
    simp only [hfirst, hlast]

theorem Locator.locate_eq_declaration_iff {locator : Locator}
    {lines : List Text} {name : Text} :
    locator.locate lines name = .error .declaration ↔
      locator.declaration? lines name = none := by
  rw [locate]
  cases locator.declaration? lines name with
  | none => exact iff_of_true rfl rfl
  | some first =>
      dsimp only
      cases locator.terminator? lines first with
      | none => simp
      | some last => simp

theorem Locator.locate_eq_unterminated_iff {locator : Locator}
    {lines : List Text} {name : Text} :
    locator.locate lines name = .error .unterminated ↔
      ∃ first, locator.declaration? lines name = some first ∧
        locator.terminator? lines first = none := by
  rw [locate]
  cases locator.declaration? lines name with
  | none => simp
  | some first =>
      dsimp only
      cases hlast : locator.terminator? lines first with
      | none => simp [hlast]
      | some last => simp [hlast]

/-- No statement ends beyond the last line. -/
def Locator.Bounded (locator : Locator) : Prop :=
  ∀ {lines first last}, locator.terminator? lines first = some last →
    last < lines.length

theorem Locator.Bounded.last_lt {locator : Locator} (h : locator.Bounded)
    {lines : List Text} {name : Text} {statement : Statement}
    (hlocate : locator.locate lines name = .ok statement) :
    statement.last < lines.length :=
  h (locate_eq_ok_iff.mp hlocate).2

theorem LineScan.locator_bounded [Patterns] : locator.Bounded := by
  intro lines first last h
  obtain ⟨offset, hoffset, rfl⟩ := Option.map_eq_some_iff.mp h
  have hlt := (List.findIdx?_eq_some_iff_findIdx_eq.mp hoffset).1
  rw [List.length_drop] at hlt
  omega

end TextOverride
