import TextOverride.Json.Fault

namespace TextOverride.Json

def isSpace (c : Char) : Bool := c == ' ' || c == '\t' || c == '\n' || c == '\r'

def skipSpace (t : Text) : Text := t.dropWhile isSpace

theorem skipSpace_length (t : Text) : (skipSpace t).length ≤ t.length :=
  (List.dropWhile_sublist isSpace).length_le

def literal : (tail : Text) → Text → Except Fault Text
  | [], t => .ok t
  | _ :: _, [] => .error (.here .endInValue [])
  | l :: tail, c :: t =>
      if l = c then literal tail t else .error (.ahead .literalWanted (c :: t))

theorem literal_length {tail t rest : Text} (h : literal tail t = .ok rest) :
    rest.length ≤ t.length := by
  fun_induction literal tail t <;> grind

/-! Strings. -/

def hexValue? (c : Char) : Option Nat :=
  if '0' ≤ c ∧ c ≤ '9' then some (c.toNat - '0'.toNat)
  else if 'a' ≤ c ∧ c ≤ 'f' then some (c.toNat - 'a'.toNat + 10)
  else if 'A' ≤ c ∧ c ≤ 'F' then some (c.toNat - 'A'.toNat + 10)
  else none

def hexNumber? (digits : Text) : Option Nat :=
  digits.foldlM (fun n c => (hexValue? c).map (16 * n + ·)) 0

/-- Four hexadecimal digits, taken as four bytes. -/
def fourHex (t : Text) : Except Fault (Nat × Text) :=
  if t.byteSize < 4 then .error (.here .endInString [])
  else
    match t with
    | a :: b :: c :: d :: rest =>
        match hexNumber? [a, b, c, d] with
        | some n => .ok (n, rest)
        | none => .error ⟨.badEscape, t.byteSize - 4⟩
    | _ => .error ⟨.badEscape, t.byteSize - 4⟩

theorem fourHex_length {t rest : Text} {n : Nat}
    (h : fourHex t = .ok (n, rest)) :
    rest.length < t.length := by
  unfold fourHex at h
  grind

def isLeading (n : Nat) : Prop := 0xD800 ≤ n ∧ n ≤ 0xDBFF

def isTrailing (n : Nat) : Prop := 0xDC00 ≤ n ∧ n ≤ 0xDFFF

instance (n : Nat) : Decidable (isLeading n) :=
  inferInstanceAs (Decidable (_ ∧ _))

instance (n : Nat) : Decidable (isTrailing n) :=
  inferInstanceAs (Decidable (_ ∧ _))

def surrogatePair (leading trailing : Nat) : Char :=
  Char.ofNat (0x10000 + (leading - 0xD800) * 0x400 + (trailing - 0xDC00))

def trailingHalf (leading : Nat) : Text → Except Fault (Char × Text)
  | [] => .error (.here .endInString [])
  | ['\\'] => .error (.here .endInString [])
  | '\\' :: 'u' :: rest =>
      match fourHex rest with
      | .error fault => .error fault
      | .ok (n, rest) =>
          if isTrailing n then .ok (surrogatePair leading n, rest)
          else .error (.here .loneSurrogate rest)
  | '\\' :: c :: rest => .error (.ahead .brokenSurrogatePair (c :: rest))
  | c :: rest => .error (.ahead .brokenSurrogatePair (c :: rest))

theorem trailingHalf_length {leading : Nat} {t rest : Text} {c : Char}
    (h : trailingHalf leading t = .ok (c, rest)) : rest.length < t.length := by
  unfold trailingHalf at h
  grind [→ fourHex_length]

def unicodeEscape (t : Text) : Except Fault (Char × Text) :=
  match fourHex t with
  | .error fault => .error fault
  | .ok (n, rest) =>
      if isTrailing n then .error (.here .loneSurrogate rest)
      else if isLeading n then trailingHalf n rest
      else .ok (Char.ofNat n, rest)

theorem unicodeEscape_length {t rest : Text} {c : Char}
    (h : unicodeEscape t = .ok (c, rest)) : rest.length < t.length := by
  unfold unicodeEscape at h
  grind [→ fourHex_length, → trailingHalf_length]

def escapeLetter? : Char → Option Char
  | '"' => some '"'
  | '\\' => some '\\'
  | '/' => some '/'
  | 'b' => some '\x08'
  | 'f' => some '\x0c'
  | 'n' => some '\n'
  | 'r' => some '\r'
  | 't' => some '\t'
  | _ => none

def escape : Text → Except Fault (Char × Text)
  | [] => .error (.here .endInString [])
  | 'u' :: rest => unicodeEscape rest
  | c :: rest =>
      match escapeLetter? c with
      | some e => .ok (e, rest)
      | none => .error (.ahead .badEscape (c :: rest))

theorem escape_length {t rest : Text} {c : Char}
    (h : escape t = .ok (c, rest)) :
    rest.length < t.length := by
  unfold escape at h
  grind [→ unicodeEscape_length]

def string (t : Text) : Except Fault (Text × Text) :=
  match t with
  | [] => .error (.here .endInString [])
  | '"' :: rest => .ok ([], rest)
  | '\\' :: rest =>
      match h : escape rest with
      | .error fault => .error fault
      | .ok (c, rest') =>
          have := escape_length h
          (string rest').map fun (s, rest) => (c :: s, rest)
  | c :: rest =>
      if c < ' ' then .error (.ahead .controlCharacter (c :: rest))
      else (string rest).map fun (s, rest) => (c :: s, rest)
  termination_by t.length
  decreasing_by all_goals grind

theorem string_length {t s rest : Text} (h : string t = .ok (s, rest)) :
    rest.length < t.length := by
  fun_induction string t generalizing s rest with
  | case1 => simp at h
  | case2 => simp_all
  | case3 => simp at h
  | case4 tail c tail' heq hlt ih =>
      cases hs : string tail' with
      | error fault => simp [hs, Except.map] at h
      | ok result =>
          obtain ⟨u, v⟩ := result
          simp only [hs, Except.map, Except.ok.injEq, Prod.mk.injEq] at h
          have := ih hs
          grind [List.dropWhile_cons]
  | case5 => simp at h
  | case6 c tail _ _ _ ih =>
      cases hs : string tail with
      | error fault => simp [hs, Except.map] at h
      | ok result =>
          obtain ⟨u, v⟩ := result
          simp only [hs, Except.map, Except.ok.injEq, Prod.mk.injEq] at h
          have := ih hs
          grind [List.dropWhile_cons]

/-! Numerals. -/

structure Numeral where
  whole : Text
  fraction : Text
  exponent : Option (Bool × Text)

/-- A fraction, if a point follows; `atEnd` is the cause when the text ends
before its first digit. -/
def fraction (atEnd : Cause) : Text → Except Fault (Text × Text)
  | '.' :: t =>
      match t.takeWhile Char.isDigit, t.dropWhile Char.isDigit with
      | [], [] => .error (.ahead atEnd [])
      | [], rest => .error (.ahead .badNumber rest)
      | digits, rest => .ok (digits, rest)
  | t => .ok ([], t)

/-- The sign of an exponent, false for a minus. -/
def exponentSign : Text → Bool × Text
  | '+' :: t => (true, t)
  | '-' :: t => (false, t)
  | t => (true, t)

def exponentDigits (atEnd : Cause) (sign : Bool) : Text →
    Except Fault (Option (Bool × Text) × Text)
  | [] => .error (.here atEnd [])
  | c :: t =>
      if c.isDigit then
        .ok (some (sign, (c :: t).takeWhile Char.isDigit),
          (c :: t).dropWhile Char.isDigit)
      else .error (.ahead .badNumber (c :: t))

def exponent (atEnd : Cause) : Text → Except Fault (Option (Bool × Text) × Text)
  | [] => .ok (none, [])
  | c :: t =>
      if c = 'e' ∨ c = 'E' then
        exponentDigits atEnd (exponentSign t).1 (exponentSign t).2
      else .ok (none, c :: t)

def whole (atEnd : Cause) : Text → Except Fault (Text × Text)
  | [] => .error (.here atEnd [])
  | '0' :: t =>
      match t with
      | [] => .ok (['0'], [])
      | c :: t =>
          if c.isDigit then .error (.ahead .badNumber (c :: t))
            else .ok (['0'], c :: t)
  | c :: t =>
      if c.isDigit then
        .ok ((c :: t).takeWhile Char.isDigit, (c :: t).dropWhile Char.isDigit)
      else .error (.ahead .badNumber (c :: t))

def numeral (atEnd : Cause) (t : Text) : Except Fault (Numeral × Text) := do
  let (wholeDigits, t) ← whole atEnd t
  let (fractionDigits, t) ← fraction atEnd t
  let (exponentPart, t) ← exponent atEnd t
  return (⟨wholeDigits, fractionDigits, exponentPart⟩, t)

theorem whole_length {atEnd : Cause} {t digits rest : Text}
    (h : whole atEnd t = .ok (digits, rest)) : rest.length < t.length := by
  have := (List.dropWhile_sublist Char.isDigit (l := t)).length_le
  unfold whole at h
  split at h
  · simp at h
  · grind
  · next c tail _ =>
      split at h
      · next hc =>
          have := (List.dropWhile_sublist Char.isDigit (l := tail)).length_le
          grind [List.dropWhile_cons]
      · simp at h

theorem fraction_length {atEnd : Cause} {t digits rest : Text}
    (h : fraction atEnd t = .ok (digits, rest)) : rest.length ≤ t.length := by
  unfold fraction at h
  split at h
  · next tail =>
      have := (List.dropWhile_sublist Char.isDigit (l := tail)).length_le
      grind
  · grind

theorem exponentSign_length (t : Text) :
    (exponentSign t).2.length ≤ t.length := by
  unfold exponentSign
  grind

theorem exponent_length {atEnd : Cause} {t rest : Text}
    {e : Option (Bool × Text)} (h : exponent atEnd t = .ok (e, rest)) :
    rest.length ≤ t.length := by
  unfold exponent at h
  split at h
  · grind
  · next c tail =>
      split at h
      · have := exponentSign_length tail
        have :=
          (List.dropWhile_sublist Char.isDigit
            (l := (exponentSign tail).2)).length_le
        unfold exponentDigits at h
        grind
      · grind

theorem numeral_length {atEnd : Cause} {t rest : Text} {n : Numeral}
    (h : numeral atEnd t = .ok (n, rest)) : rest.length < t.length := by
  simp only [numeral, bind, Except.bind, pure, Except.pure] at h
  grind [→ whole_length, → fraction_length, → exponent_length]

end TextOverride.Json
