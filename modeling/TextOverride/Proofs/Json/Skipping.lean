import TextOverride.Proofs.Json.Documents

namespace TextOverride.Json

variable {stack : List Bracket} {bracket : Bracket} {fresh : Bool}
    {t rest rest' : Text}

private theorem skipOpen_complete (h : token t = .ok (.complete rest)) :
    skipOpen .value stack t = skipOpen (.item false) stack rest := by
  rw [skipOpen]
  split
  case h_1 hfault => cases hfault.symm.trans h
  case h_2 hcomplete =>
    cases hcomplete.symm.trans h
    rfl
  case h_3 hopened => cases hopened.symm.trans h

private theorem skipOpen_opened (h : token t = .ok (.opened bracket rest)) :
    skipOpen .value stack t = skipOpen (.item true) (bracket :: stack)
      rest := by
  rw [skipOpen]
  split
  case h_1 hfault => cases hfault.symm.trans h
  case h_2 hcomplete => cases hcomplete.symm.trans h
  case h_3 hopened =>
    cases hopened.symm.trans h
    rfl

theorem skipOpen_closed (h : bracket.inside fresh t = .ok (.closed rest)) :
    skipOpen (.item fresh) (bracket :: stack) t =
      skipOpen (.item false) stack rest := by
  rw [skipOpen]
  split
  case h_1 hfault => cases hfault.symm.trans h
  case h_2 hclosed =>
    cases hclosed.symm.trans h
    rfl
  case h_3 hitem => cases hitem.symm.trans h

theorem skipOpen_item (h : bracket.inside fresh t = .ok (.item rest))
    (henter : bracket.enterItem rest = .ok rest') :
    skipOpen (.item fresh) (bracket :: stack) t =
      skipOpen .value (bracket :: stack) rest' := by
  conv => lhs; rw [skipOpen]
  split
  case h_1 hfault => cases hfault.symm.trans h
  case h_2 hclosed => cases hclosed.symm.trans h
  case h_3 hitem =>
    cases hitem.symm.trans h
    split
    case h_1 hfault => cases hfault.symm.trans henter
    case h_2 hentered =>
      cases hentered.symm.trans henter
      rfl

private theorem token_digit {c : Char} (h : c.isDigit = true) (t : Text) :
    token (c :: t) = (numeral .badNumber (c :: t)).map (.complete ·.2) := by
  rw [token, skipSpace_of_not (isSpace_of_isDigit h)]
  simp only [if_neg (ne_of_isDigit h rfl : c ≠ 'n'),
    if_neg (ne_of_isDigit h rfl : c ≠ 't'),
    if_neg (ne_of_isDigit h rfl : c ≠ 'f'),
    if_neg (ne_of_isDigit h rfl : c ≠ '-'), if_pos h]

private theorem token_number (n : Number) (ht : Delimited t) :
    token (n.write ++ t) = .ok (.complete t) := by
  have hread := n.numeral_magnitude .badNumber ht
  rcases n.write_cases with
    ⟨_, hwrite⟩ | ⟨_, hwrite, c, rest, hmagnitude, hdigit⟩
  · rw [hwrite]
    change (numeral .badNumber (n.magnitude ++ t)).map (Token.complete ·.2) = _
    rw [hread]
    rfl
  · rw [hwrite]
    rw [hmagnitude, List.cons_append] at hread ⊢
    rw [token_digit hdigit, hread]
    rfl

private theorem token_string (s t : Text) :
    token (writeString s ++ t) = .ok (.complete t) := by
  change (skipString (stringTail s ++ t)).map Token.complete = _
  rw [skipString_stringTail]
  rfl

namespace Document

def Skipped (d : Document) : Prop :=
  ∀ (stack : List Bracket) (t : Text), Delimited t →
    skipOpen .value stack (d.write ++ t) = skipOpen (.item false) stack t

private theorem skipOpen_elementsText {elements : List Document}
    (h : ∀ element ∈ elements, Skipped element) (first : Bool)
    (stack : List Bracket) (t : Text) :
    skipOpen (.item first) (.list :: stack) (elementsText first elements ++ t) =
      skipOpen (.item false) stack t := by
  induction elements generalizing first with
  | nil =>
      have hclosed : Bracket.list.inside first (elementsText first [] ++ t) =
          .ok (.closed t) := by
        cases first <;> rfl
      exact skipOpen_closed hclosed
  | cons element rest ih =>
      obtain ⟨helement, hrest⟩ := List.forall_mem_cons.mp h
      obtain ⟨c, tail, hwrite, hleads⟩ := element.exists_leads
      have hitem : Bracket.list.inside first
          (elementsText first (element :: rest) ++ t) =
          .ok (.item (element.write ++ (elementsText false rest ++ t))) := by
        rw [elementsText, hwrite]
        simp only [List.append_assoc, List.cons_append]
        cases first with
        | true =>
            have hopen : ¬ (c = ',' ∧ true = false) :=
              fun hcomma => Bool.noConfusion hcomma.2
            simp only [if_true, List.nil_append, Bracket.inside,
              skipSpace_of_not hleads.isSpace, if_neg hopen,
              if_neg hleads.ne_close, Bracket.closing]
        | false => rfl
      rw [skipOpen_item hitem rfl, helement _ _ (delimited_elementsText rest t),
        ih hrest]

private theorem skipOpen_membersText {members : List (Text × Document)}
    (h : ∀ member ∈ members, Skipped member.2) (first : Bool)
    (stack : List Bracket) (t : Text) :
    skipOpen (.item first) (.object :: stack) (membersText first members ++ t) =
      skipOpen (.item false) stack t := by
  induction members generalizing first with
  | nil =>
      have hclosed : Bracket.object.inside first (membersText first [] ++ t) =
          .ok (.closed t) := by
        cases first <;> rfl
      exact skipOpen_closed hclosed
  | cons member rest ih =>
      obtain ⟨key, value⟩ := member
      obtain ⟨hvalue, hrest⟩ := List.forall_mem_cons.mp h
      have hitem : Bracket.object.inside first
          (membersText first ((key, value) :: rest) ++ t) =
          .ok (.item ('"' :: (stringTail key ++
            ':' :: (value.write ++ (membersText false rest ++ t))))) := by
        rw [membersText]
        simp only [List.append_assoc, List.cons_append]
        cases first <;> rfl
      have henter : Bracket.object.enterItem ('"' :: (stringTail key ++
          ':' :: (value.write ++ (membersText false rest ++ t)))) =
          .ok (value.write ++ (membersText false rest ++ t)) := by
        change (skipString _ >>= colon) = _
        rw [skipString_stringTail]
        rfl
      rw [skipOpen_item hitem henter, hvalue _ _ (delimited_membersText rest t),
        ih hrest]

private theorem skipped (d : Document) : d.Skipped := by
  induction d using Document.induction with
  | null => exact fun _ _ _ => skipOpen_complete rfl
  | bool value => exact fun _ _ _ => skipOpen_complete (by cases value <;> rfl)
  | number n =>
      intro stack t ht
      rw [write]
      exact skipOpen_complete (token_number n ht)
  | string s =>
      intro stack t _
      rw [write]
      exact skipOpen_complete (token_string s t)
  | array elements ih =>
      intro stack t _
      rw [write_array, List.cons_append, skipOpen_opened rfl,
        skipOpen_elementsText ih]
  | object members ih =>
      intro stack t _
      rw [write_object, List.cons_append, skipOpen_opened rfl,
        skipOpen_membersText ih]

theorem skipValue_write (d : Document) (ht : Delimited t) :
    skipValue (d.write ++ t) = .ok t := by
  rw [skipValue, d.skipped [] t ht, skipOpen]

end Document

end TextOverride.Json
