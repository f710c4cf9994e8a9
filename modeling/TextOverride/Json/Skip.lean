import TextOverride.Json.Read

namespace TextOverride.Json

def skipEscape : Text → Except Fault Text
  | [] => .error (.here .endInString [])
  | 'u' :: rest => (fourHex rest).map Prod.snd
  | c :: rest =>
      if (escapeLetter? c).isSome then .ok rest
        else .error (.ahead .badEscape (c :: rest))

theorem skipEscape_length {t rest : Text} (h : skipEscape t = .ok rest) :
    rest.length < t.length := by
  unfold skipEscape at h
  split at h
  · simp at h
  · next tail =>
      cases hf : fourHex tail with
      | error fault => simp [hf, Except.map] at h
      | ok result =>
          obtain ⟨n, u⟩ := result
          have := fourHex_length hf
          grind [Except.map]
  · grind

def skipString (t : Text) : Except Fault Text :=
  match t with
  | [] => .error (.here .endInString [])
  | '"' :: rest => .ok rest
  | '\\' :: rest =>
      match h : skipEscape rest with
      | .error fault => .error fault
      | .ok rest' =>
          have := skipEscape_length h
          skipString rest'
  | c :: rest =>
      if c < ' ' then .error (.here .controlCharacter (c :: rest))
        else skipString rest
  termination_by t.length
  decreasing_by all_goals grind

theorem skipString_length {t rest : Text} (h : skipString t = .ok rest) :
    rest.length < t.length := by
  fun_induction skipString t generalizing rest with
  | case1 => simp at h
  | case2 => simp_all
  | case3 => simp at h
  | case4 tail tail' heq hlt ih => have := ih h; grind
  | case5 => simp at h
  | case6 c tail _ _ _ ih => have := ih h; grind

inductive Bracket
  | list
  | object

/-- A container is entered, anything else is complete. -/
inductive Token
  | opened (bracket : Bracket) (rest : Text)
  | complete (rest : Text)

def Token.rest : Token → Text
  | .opened _ rest => rest
  | .complete rest => rest

def token (t : Text) : Except Fault Token :=
  match skipSpace t with
  | [] => .error (.ahead .endInValue [])
  | c :: t =>
      if c = 'n' then (literal "ull".toList t).map .complete
      else if c = 't' then (literal "rue".toList t).map .complete
      else if c = 'f' then (literal "alse".toList t).map .complete
      else if c = '-' then (numeral .badNumber t).map (.complete ·.2)
      else if c.isDigit then (numeral .badNumber (c :: t)).map (.complete ·.2)
      else if c = '"' then (skipString t).map .complete
      else if c = '[' then .ok (.opened .list t)
      else if c = '\x7b' then .ok (.opened .object t)
      else .error (.ahead .valueWanted (c :: t))

theorem exists_of_map_eq_ok {ε α β : Type} {f : α → β} {x : Except ε α} {y : β}
    (h : x.map f = .ok y) : ∃ a, x = .ok a ∧ f a = y := by
  cases x with
  | error e => simp [Except.map] at h
  | ok a => exact ⟨a, rfl, by simpa [Except.map] using h⟩

theorem token_length {t : Text} {k : Token} (h : token t = .ok k) :
    k.rest.length < t.length := by
  have := skipSpace_length t
  unfold token at h
  split at h
  · simp at h
  · next c tail hskip =>
      have hlt : tail.length < t.length := by grind
      split at h
      · obtain ⟨rest, hrest, rfl⟩ := exists_of_map_eq_ok h
        exact Nat.lt_of_le_of_lt (literal_length hrest) hlt
      split at h
      · obtain ⟨rest, hrest, rfl⟩ := exists_of_map_eq_ok h
        exact Nat.lt_of_le_of_lt (literal_length hrest) hlt
      split at h
      · obtain ⟨rest, hrest, rfl⟩ := exists_of_map_eq_ok h
        exact Nat.lt_of_le_of_lt (literal_length hrest) hlt
      split at h
      · obtain ⟨⟨n, rest⟩, hrest, rfl⟩ := exists_of_map_eq_ok h
        exact Nat.lt_trans (numeral_length hrest) hlt
      split at h
      · obtain ⟨⟨n, rest⟩, hrest, rfl⟩ := exists_of_map_eq_ok h
        exact Nat.lt_of_lt_of_le (numeral_length hrest) hlt
      split at h
      · obtain ⟨rest, hrest, rfl⟩ := exists_of_map_eq_ok h
        exact Nat.lt_trans (skipString_length hrest) hlt
      all_goals grind [Token.rest]

/-- What is due at a place in nested containers, innermost first: a value, or
what follows an opening bracket (`fresh`) or a value. -/
inductive Due
  | value
  | item (fresh : Bool)

def Due.rank : Due → Nat
  | .value => 0
  | .item _ => 1

def skipKey (t : Text) : Except Fault Text :=
  match skipSpace t with
  | [] => .error (.ahead .endInObject [])
  | '"' :: rest => do colon (← skipString rest)
  | rest => .error (.ahead .keyNotString rest)

theorem skipKey_length {t rest : Text} (h : skipKey t = .ok rest) :
    rest.length < t.length := by
  have := skipSpace_length t
  unfold skipKey at h
  split at h
  · simp at h
  · next tail hskip =>
      cases hs : skipString tail with
      | error fault => simp [hs, bind, Except.bind] at h
      | ok u =>
          simp only [hs, bind, Except.bind] at h
          have := colon_length h
          have := skipString_length hs
          grind
  · simp at h

def Bracket.enterItem (bracket : Bracket) (t : Text) : Except Fault Text :=
  match bracket with
  | .list => .ok t
  | .object => skipKey t

theorem Bracket.enterItem_length {bracket : Bracket} {t rest : Text}
    (h : bracket.enterItem t = .ok rest) : rest.length ≤ t.length := by
  cases bracket with
  | list => simp_all [enterItem]
  | object => have := skipKey_length h; omega

def Bracket.closing : Bracket → Char
  | .list => ']'
  | .object => '\x7d'

def Bracket.endCause : Bracket → Cause
  | .list => .endInList
  | .object => .endInObject

def Bracket.separatorCause : Bracket → Cause
  | .list => .listSeparatorWanted
  | .object => .objectSeparatorWanted

inductive Inside
  | item (rest : Text)
  | closed (rest : Text)

def Bracket.inside (bracket : Bracket) (fresh : Bool) (t : Text) :
    Except Fault Inside :=
  match skipSpace t with
  | [] => .error (.ahead bracket.endCause [])
  | c :: rest =>
      if c = ',' ∧ fresh = false then .ok (.item rest)
      else if c = bracket.closing then .ok (.closed rest)
      else if fresh then .ok (.item (c :: rest))
      else .error (.ahead bracket.separatorCause (c :: rest))

theorem Bracket.inside_item_length {bracket : Bracket} {fresh : Bool}
    {t rest : Text} (h : bracket.inside fresh t = .ok (.item rest)) :
    rest.length ≤ t.length := by
  have := skipSpace_length t
  unfold inside at h
  grind

theorem Bracket.inside_closed_length {bracket : Bracket} {fresh : Bool}
    {t rest : Text} (h : bracket.inside fresh t = .ok (.closed rest)) :
    rest.length < t.length := by
  have := skipSpace_length t
  unfold inside at h
  grind

def skipOpen (due : Due) (stack : List Bracket) (t : Text) :
    Except Fault Text :=
  match due, stack with
  | .value, stack =>
      match h : token t with
      | .error fault => .error fault
      | .ok (.complete rest) =>
          have := token_length h
          skipOpen (.item false) stack rest
      | .ok (.opened bracket rest) =>
          have := token_length h
          skipOpen (.item true) (bracket :: stack) rest
  | .item _, [] => .ok t
  | .item fresh, bracket :: stack =>
      match h : bracket.inside fresh t with
      | .error fault => .error fault
      | .ok (.closed rest) =>
          have := Bracket.inside_closed_length h
          skipOpen (.item false) stack rest
      | .ok (.item rest) =>
          match h' : bracket.enterItem rest with
          | .error fault => .error fault
          | .ok rest' =>
              have := Bracket.enterItem_length h'
              skipOpen .value (bracket :: stack) rest'
  -- The value of an item may start where the item does, but it ranks lower.
  termination_by (t.length, due.rank)
  decreasing_by
    · exact Prod.Lex.left _ _ this
    · exact Prod.Lex.left _ _ this
    · exact Prod.Lex.left _ _ this
    · exact Prod.Lex.right' _ (Nat.le_trans this (Bracket.inside_item_length h))
        Nat.zero_lt_one

/-- Nesting has no limit, numbers may have any size, and the halves of a
surrogate pair may stand alone. -/
def skipValue : Text → Except Fault Text := skipOpen .value []

theorem skipOpen_length {due : Due} {stack : List Bracket} {t rest : Text}
    (h : skipOpen due stack t = .ok rest) : rest.length ≤ t.length := by
  fun_induction skipOpen due stack t generalizing rest <;>
    grind [→ token_length, Token.rest, → Bracket.inside_item_length,
      → Bracket.inside_closed_length, → Bracket.enterItem_length]

end TextOverride.Json
