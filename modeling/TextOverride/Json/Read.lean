import TextOverride.Json.Numeral

namespace TextOverride.Json

/-- What a text that starts with a value starts with, and the text after it;
containers are not entered. -/
def found : Text → Except Fault (Found × Text)
  | [] => .error (.ahead .endInValue [])
  | c :: t =>
      if c = 'n' then (literal "ull".toList t).map (.null, ·)
      else if c = 't' then (literal "rue".toList t).map (.bool true, ·)
      else if c = 'f' then (literal "alse".toList t).map (.bool false, ·)
      else if c = '-' then do
        let (n, rest) ← numeral .endInValue t
        return (← n.value true rest, rest)
      else if c.isDigit then do
        let (n, rest) ← numeral .endInValue (c :: t)
        return (← n.value false rest, rest)
      else if c = '"' then (string t).map fun (s, rest) => (.string s, rest)
      else if c = '[' then .ok (.array, c :: t)
      else if c = '\x7b' then .ok (.object, c :: t)
      else .error (.ahead .valueWanted (c :: t))

def wrongType (wanted : Text) (t : Text) : Fault :=
  match found t with
  | .error fault => fault
  | .ok (found, rest) => .here (.wrongType found wanted) rest

def stringValue (wanted : Text) (t : Text) : Except Fault (Text × Text) :=
  match skipSpace t with
  | '"' :: rest => string rest
  | t => .error (wrongType wanted t)

theorem stringValue_length {wanted t s rest : Text}
    (h : stringValue wanted t = .ok (s, rest)) : rest.length < t.length := by
  have := skipSpace_length t
  unfold stringValue at h
  grind [→ string_length]

/-- What follows an opening bracket or an element: another element, or the end
with the text after the closing bracket. -/
inductive Next
  | more (rest : Text)
  | closed (rest : Text)

def afterListComma (t : Text) : Except Fault Next :=
  match skipSpace t with
  | [] => .error (.ahead .endInValue [])
  | ']' :: rest => .error (.ahead .trailingComma (']' :: rest))
  | t => .ok (.more t)

def nextElement (first : Bool) (t : Text) : Except Fault Next :=
  match skipSpace t with
  | [] => .error (.ahead .endInList [])
  | ']' :: rest => .ok (.closed rest)
  | c :: rest =>
      if first then .ok (.more (c :: rest))
      else if c = ',' then afterListComma rest
      else .error (.ahead .listSeparatorWanted (c :: rest))

def closeList (t : Text) : Except Fault Text :=
  match skipSpace t with
  | [] => .error (.ahead .endInList [])
  | ']' :: rest => .ok rest
  | ',' :: rest =>
      match skipSpace rest with
      | ']' :: rest => .error (.ahead .trailingComma (']' :: rest))
      | rest => .error (.ahead .trailingCharacters rest)
  | rest => .error (.ahead .trailingCharacters rest)

def afterObjectComma (t : Text) : Except Fault Next :=
  match skipSpace t with
  | [] => .error (.ahead .endInValue [])
  | '"' :: rest => .ok (.more rest)
  | '\x7d' :: rest => .error (.ahead .trailingComma ('\x7d' :: rest))
  | rest => .error (.ahead .keyNotString rest)

def nextMember (first : Bool) (t : Text) : Except Fault Next :=
  match skipSpace t with
  | [] => .error (.ahead .endInObject [])
  | '\x7d' :: rest => .ok (.closed rest)
  | c :: rest =>
      if first then
        if c = '"' then .ok (.more rest)
          else .error (.ahead .keyNotString (c :: rest))
      else if c = ',' then afterObjectComma rest
      else .error (.ahead .objectSeparatorWanted (c :: rest))

def colon (t : Text) : Except Fault Text :=
  match skipSpace t with
  | [] => .error (.ahead .endInObject [])
  | ':' :: rest => .ok rest
  | rest => .error (.ahead .colonWanted rest)

theorem nextElement_length {first : Bool} {t rest : Text}
    (h : nextElement first t = .ok (.more rest)) : rest.length ≤ t.length := by
  have := skipSpace_length t
  unfold nextElement at h
  split at h
  · simp at h
  · simp at h
  · next c tail _ _ =>
      have := skipSpace_length tail
      unfold afterListComma at h
      grind

theorem closeList_length {t rest : Text} (h : closeList t = .ok rest) :
    rest.length < t.length := by
  have := skipSpace_length t
  unfold closeList at h
  grind

theorem nextMember_closed_length {first : Bool} {t rest : Text}
    (h : nextMember first t = .ok (.closed rest)) : rest.length < t.length := by
  have := skipSpace_length t
  unfold nextMember at h
  split at h
  · simp at h
  · grind
  · unfold afterObjectComma at h
    grind

theorem nextMember_length {first : Bool} {t rest : Text}
    (h : nextMember first t = .ok (.more rest)) : rest.length < t.length := by
  have := skipSpace_length t
  unfold nextMember at h
  split at h
  · simp at h
  · simp at h
  · next c tail _ _ =>
      have := skipSpace_length tail
      unfold afterObjectComma at h
      grind

theorem colon_length {t rest : Text} (h : colon t = .ok rest) :
    rest.length < t.length := by
  have := skipSpace_length t
  unfold colon at h
  grind

end TextOverride.Json
