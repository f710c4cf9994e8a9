import TextOverride.Proofs.Statement
import TextOverride.Proofs.Statement.Declaration

namespace TextOverride.LineScan

variable {name : Text} {lines : List Text} {start n : Nat}

/-- A part of the line is `const` or `let`, White_Space, the name, possibly
White_Space, and an equals sign. No line declares the empty name. -/
def DeclaredOn (name line : Text) : Prop :=
  name ≠ [] ∧ ∃ before keyword gap gap' after : Text,
    (keyword = "const".toList ∨ keyword = "let".toList) ∧
      gap ≠ [] ∧ gap.Blank ∧ gap'.Blank ∧
      line = before ++ keyword ++ gap ++ name ++ gap' ++ '=' :: after

structure FirstFrom (p : Text → Prop) (lines : List Text)
    (start n : Nat) : Prop where
  from_start : start ≤ n
  holds : ∃ line, lines[n]? = some line ∧ p line
  least : ∀ m line, start ≤ m → lines[m]? = some line → p line → n ≤ m

theorem declaredOn_iff (hname : name ≠ []) (line : Text) :
    DeclaredOn name line ↔ declares name line = true := by
  rw [declares_iff, DeclaredOn, and_iff_right hname]
  simp [Declares, keywords]

theorem findIdx?_drop_eq_some_iff {p : Text → Bool} :
    ((lines.drop start).findIdx? p).map (start + ·) = some n ↔
      FirstFrom (fun line => p line = true) lines start n := by
  rw [Option.map_eq_some_iff]
  constructor
  · rintro ⟨offset, hoffset, rfl⟩
    obtain ⟨hlt, hholds, hbefore⟩ :=
      List.findIdx?_eq_some_iff_getElem.mp hoffset
    refine ⟨Nat.le_add_right start offset, ⟨_, ?_, hholds⟩, ?_⟩
    · rw [← List.getElem?_drop, List.getElem?_eq_getElem hlt]
    · intro m line hle hline hp
      obtain ⟨k, rfl⟩ := Nat.exists_eq_add_of_le hle
      rw [← List.getElem?_drop] at hline
      obtain ⟨_, rfl⟩ := List.getElem?_eq_some_iff.mp hline
      refine Nat.le_of_not_lt fun hk => ?_
      exact hbefore k (Nat.lt_of_add_lt_add_left hk) hp
  · rintro ⟨hle, ⟨line, hline, hp⟩, hleast⟩
    obtain ⟨offset, rfl⟩ := Nat.exists_eq_add_of_le hle
    rw [← List.getElem?_drop] at hline
    obtain ⟨hlt, rfl⟩ := List.getElem?_eq_some_iff.mp hline
    refine ⟨offset, List.findIdx?_eq_some_iff_getElem.mpr ⟨hlt, hp, ?_⟩, rfl⟩
    intro k hk hpk
    have hline : lines[start + k]? = some (lines.drop start)[k] := by
      rw [← List.getElem?_drop, List.getElem?_eq_getElem]
    have hge := hleast (start + k) _ (Nat.le_add_right start k) hline hpk
    omega

section

variable [Patterns]

private theorem declaration?_eq_some_iff_firstFrom
    (haccepts : Patterns.accepts name = true) :
    declaration? lines name = some n ↔
      FirstFrom (DeclaredOn name) lines 0 n := by
  by_cases hname : name = []
  · rw [declaration?, if_pos hname]
    refine iff_of_false nofun ?_
    rintro ⟨_, ⟨line, _, hdeclared⟩, _⟩
    exact hdeclared.1 hname
  · have hdeclared : DeclaredOn name = fun line => declares name line = true :=
      funext fun line => propext (declaredOn_iff hname line)
    have hfirst :
        ((lines.drop 0).findIdx? (declares name)).map (0 + ·) = some n ↔
        FirstFrom (fun line => declares name line = true) lines 0 n :=
      findIdx?_drop_eq_some_iff
    simpa [declaration?, hname, haccepts, hdeclared] using hfirst

private theorem declaration?_eq_none_iff
    (haccepts : Patterns.accepts name = true) :
    declaration? lines name = none ↔
      ∀ line ∈ lines, ¬ DeclaredOn name line := by
  by_cases hname : name = []
  · rw [declaration?, if_pos hname]
    exact iff_of_true rfl fun line _ hdeclared => hdeclared.1 hname
  · simp only [declaration?, if_neg hname, haccepts, Bool.true_eq_false,
      if_false, List.findIdx?_eq_none_iff, declaredOn_iff hname,
      Bool.not_eq_true]

end

private theorem terminator?_eq_some_iff_firstFrom :
    terminator? lines start = some n ↔ FirstFrom (';' ∈ ·) lines start n := by
  rw [terminator?, findIdx?_drop_eq_some_iff]
  simp only [List.contains_iff_mem, terminator]

private theorem terminator?_eq_none_iff :
    terminator? lines start = none ↔ ∀ line ∈ lines.drop start, ';' ∉ line := by
  simp only [terminator?, Option.map_eq_none_iff, List.findIdx?_eq_none_iff,
    terminator, ← Bool.not_eq_true, List.contains_iff_mem]

/-- The scan answers the first declaration and the first terminator from there
on, and it says which of the two is missing. The name may hold any characters,
also White_Space, equals signs and keywords, as long as the engine compiles
it. -/
theorem locate_first_declaration [Patterns] (lines : List Text) (name : Text)
    (haccepts : Patterns.accepts name = true) :
    (∀ first last, locate lines name = .ok ⟨first, last⟩ ↔
      FirstFrom (DeclaredOn name) lines 0 first ∧
      FirstFrom (';' ∈ ·) lines first last) ∧
    (locate lines name = .error .declaration ↔
      ∀ line ∈ lines, ¬ DeclaredOn name line) ∧
    (locate lines name = .error .unterminated ↔
      ∃ first, FirstFrom (DeclaredOn name) lines 0 first ∧
        ∀ line ∈ lines.drop first, ';' ∉ line) := by
  refine ⟨fun first last => ?_, ?_, ?_⟩
  · rw [locate, Locator.locate_eq_ok_iff]
    exact and_congr (declaration?_eq_some_iff_firstFrom haccepts)
      terminator?_eq_some_iff_firstFrom
  · rw [locate, Locator.locate_eq_declaration_iff]
    exact declaration?_eq_none_iff haccepts
  · rw [locate, Locator.locate_eq_unterminated_iff]
    exact exists_congr fun first =>
      and_congr (declaration?_eq_some_iff_firstFrom haccepts)
        terminator?_eq_none_iff

/-- The White_Space in front of the name can be the name's own. -/
theorem locate_first_declaration_of_blank :
    Patterns.accepts " =".toList = true ∧
      FirstFrom (DeclaredOn " =".toList)
        ["let x;".toList, "let  = =;".toList] 0 1 ∧
      FirstFrom (';' ∈ ·) ["let x;".toList, "let  = =;".toList] 1 1 :=
  have hlocate := locate_first_declaration ["let x;".toList, "let  = =;".toList]
    " =".toList rfl
  ⟨rfl, (hlocate.1 1 1).mp rfl⟩

end TextOverride.LineScan
