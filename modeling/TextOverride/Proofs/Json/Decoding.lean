import TextOverride.Proofs.Json.Documents

namespace TextOverride.Json

/-- A reader that takes something of the text whenever it has a result. -/
structure Reader (α : Type) where
  read : Text → Except Fault (α × Text)
  shorter {t rest : Text} {a : α} (h : read t = .ok (a, rest)) :
    rest.length < t.length

def natural (digits : Text) : Nat := Nat.ofDigitChars 10 digits 0

def Number.ofNumeral (negative : Bool) (n : Numeral) : Number where
  negative
  whole := natural n.whole
  fraction := n.fraction.map fun c => Fin.ofNat 10 (Numeral.digitValue c)
  exponent := n.exponent.map fun (positive, digits) =>
    if positive then (natural digits : Int) else -(natural digits : Int)

def readScalar (t : Text) : Except Fault (Document × Text) :=
  match skipSpace t with
  | [] => .error (.ahead .endInValue [])
  | c :: t =>
      if c = 'n' then (literal "ull".toList t).map (.null, ·)
      else if c = 't' then (literal "rue".toList t).map (.bool true, ·)
      else if c = 'f' then (literal "alse".toList t).map (.bool false, ·)
      else if c = '-' then
        (numeral .endInValue t).map fun (n, rest) =>
          (.number (.ofNumeral true n), rest)
      else if c.isDigit then
        (numeral .endInValue (c :: t)).map fun (n, rest) =>
          (.number (.ofNumeral false n), rest)
      else if c = '"' then (string t).map fun (s, rest) => (.string s, rest)
      else .error (.ahead .valueWanted (c :: t))

theorem lt_of_map_eq_ok {α β : Type} {result : Except Fault α}
    {f : α → β × Text} {b : β} {rest : Text} {bound : Nat}
    (h : result.map f = .ok (b, rest))
    (hlt : ∀ a, result = .ok a → (f a).2.length < bound) :
    rest.length < bound := by
  obtain ⟨a, hresult, hpair⟩ := exists_of_map_eq_ok h
  have hlength := hlt a hresult
  rwa [hpair] at hlength

theorem readScalar_length {t rest : Text} {d : Document}
    (h : readScalar t = .ok (d, rest)) :
    rest.length < t.length := by
  have hskip := skipSpace_length t
  rw [readScalar] at h
  split at h
  case h_1 => cases h
  case h_2 c tail heq =>
    rw [heq, List.length_cons] at hskip
    split_ifs at h
    · exact lt_of_map_eq_ok h fun u hu =>
        Nat.lt_of_le_of_lt (literal_length hu) hskip
    · exact lt_of_map_eq_ok h fun u hu =>
        Nat.lt_of_le_of_lt (literal_length hu) hskip
    · exact lt_of_map_eq_ok h fun u hu =>
        Nat.lt_of_le_of_lt (literal_length hu) hskip
    · exact lt_of_map_eq_ok h fun u hu => Nat.lt_trans (numeral_length hu) hskip
    · exact lt_of_map_eq_ok h fun u hu =>
        Nat.lt_of_lt_of_le (numeral_length hu) hskip
    · exact lt_of_map_eq_ok h fun u hu => Nat.lt_trans (string_length hu) hskip

/-! Lists and objects. -/

private theorem nextElement_closed_length {first : Bool} {t rest : Text}
    (h : nextElement first t = .ok (.closed rest)) :
    rest.length < t.length := by
  have := skipSpace_length t
  unfold nextElement at h
  split at h
  · simp at h
  · grind
  · unfold afterListComma at h
    grind

/-- What stands between the items of a list or an object, and behind them. -/
structure Separation where
  next : Bool → Text → Except Fault Next
  more_length {first : Bool} {t rest : Text}
    (h : next first t = .ok (.more rest)) : rest.length ≤ t.length
  closed_length {first : Bool} {t rest : Text}
    (h : next first t = .ok (.closed rest)) : rest.length < t.length

def Separation.list : Separation :=
  ⟨nextElement, nextElement_length, nextElement_closed_length⟩

def Separation.object : Separation :=
  ⟨nextMember, fun h =>
    Nat.le_of_lt (nextMember_length h), nextMember_closed_length⟩

section

variable {α : Type}

def readItems (s : Separation) (item : Reader α) (first : Bool) (t : Text) :
    Except Fault (List α × Text) :=
  match h : s.next first t with
  | .error fault => .error fault
  | .ok (.closed rest) => .ok ([], rest)
  | .ok (.more u) =>
      match h' : item.read u with
      | .error fault => .error fault
      | .ok (a, v) =>
          have := s.more_length h
          have := item.shorter h'
          (readItems s item false v).map fun (items, rest) => (a :: items, rest)
  termination_by t.length
  decreasing_by omega

private theorem readItems_length {s : Separation} {item : Reader α}
    {first : Bool} {t rest : Text} {items : List α}
    (h : readItems s item first t = .ok (items, rest)) :
    rest.length < t.length := by
  fun_induction readItems s item first t generalizing items rest with
  | case1 => cases h
  | case2 _ _ _ hclosed =>
      cases h
      exact s.closed_length hclosed
  | case3 => cases h
  | case4 _ _ _ _ _ _ _ hnext hitem ih =>
      have hlater := lt_of_map_eq_ok h fun _ hresult => ih hresult
      omega

private theorem readItems_eq (s : Separation) (item : Reader α) (first : Bool)
    (t : Text) :
    readItems s item first t =
      match s.next first t with
      | .error fault => .error fault
      | .ok (.closed rest) => .ok ([], rest)
      | .ok (.more u) =>
          match item.read u with
          | .error fault => .error fault
          | .ok (a, v) =>
              (readItems s item false v).map fun (items, rest) =>
                (a :: items, rest) := by
  conv => lhs; rw [readItems]
  split
  case h_1 h => rw [h]
  case h_2 h => rw [h]
  case h_3 h =>
    simp only [h]
    split
    case h_1 h' => rw [h']
    case h_2 h' => rw [h']

theorem readItems_text {s : Separation} {item : Reader α}
    {text : Bool → List α → Text}
    (hclosed : ∀ first t, s.next first (text first [] ++ t) = .ok (.closed t))
    {items : List α}
    (hitems : ∀ a ∈ items, ∀ first rest t, ∃ u,
      s.next first (text first (a :: rest) ++ t) = .ok (.more u) ∧
        item.read u = .ok (a, text false rest ++ t)) (first : Bool) (t : Text) :
    readItems s item first (text first items ++ t) = .ok (items, t) := by
  induction items generalizing first with
  | nil => rw [readItems_eq, hclosed]
  | cons a rest ih =>
      obtain ⟨ha, hrest⟩ := List.forall_mem_cons.mp hitems
      obtain ⟨u, hnext, hread⟩ := ha first rest t
      rw [readItems_eq, hnext]
      simp only [hread, ih hrest]
      rfl

end

def readElements (value : Reader Document) (first : Bool) (t : Text) :
    Except Fault (List Document × Text) :=
  readItems .list value first t

def readMember (value : Reader Document) (t : Text) :
    Except Fault ((Text × Document) × Text) := do
  let (key, t) ← string t
  let (d, t) ← value.read (← colon t)
  return ((key, d), t)

theorem readMember_length {value : Reader Document} {t rest : Text}
    {member : Text × Document} (h : readMember value t = .ok (member, rest)) :
    rest.length < t.length := by
  simp only [readMember, bind, Except.bind, pure, Except.pure] at h
  grind [→ string_length, → colon_length, → value.shorter]

def readMembers (value : Reader Document) (first : Bool) (t : Text) :
    Except Fault (List (Text × Document) × Text) :=
  readItems .object ⟨readMember value, readMember_length⟩ first t

def readValue (value : Reader Document) (t : Text) :
    Except Fault (Document × Text) :=
  match skipSpace t with
  | '[' :: rest =>
      (readElements value true rest).map fun (elements, rest) =>
        (.array elements, rest)
  | '\x7b' :: rest =>
      (readMembers value true rest).map fun (members, rest) =>
        (.object members, rest)
  | t => readScalar t

theorem readValue_length {value : Reader Document} {t rest : Text}
    {d : Document} (h : readValue value t = .ok (d, rest)) :
    rest.length < t.length := by
  have hskip := skipSpace_length t
  rw [readValue] at h
  split at h
  case h_1 tail heq =>
    rw [heq, List.length_cons] at hskip
    exact lt_of_map_eq_ok h fun _ hresult =>
      Nat.lt_trans (readItems_length hresult) hskip
  case h_2 tail heq =>
    rw [heq, List.length_cons] at hskip
    exact lt_of_map_eq_ok h fun _ hresult =>
      Nat.lt_trans (readItems_length hresult) hskip
  case h_3 => exact Nat.lt_of_lt_of_le (readScalar_length h) hskip

def reader : (limit : Nat) → Reader Document
  | 0 => ⟨readScalar, readScalar_length⟩
  | limit + 1 => ⟨readValue (reader limit), readValue_length⟩

namespace Document

def nestingLimit : Nat := 127

def read (t : Text) : Except Fault Document := do
  let (d, rest) ← (reader nestingLimit).read t
  match skipSpace rest with
  | [] => return d
  | rest => throw (.ahead .trailingCharacters rest)

def FitsIn : (limit : Nat) → Document → Prop
  | 0, d => d.IsScalar
  | limit + 1, .array elements => ∀ element ∈ elements, element.FitsIn limit
  | limit + 1, .object members => ∀ member ∈ members, member.2.FitsIn limit
  | _ + 1, _ => True

end Document

/-! What is written is read back. -/

private theorem natural_ofNat (n : Nat) : natural (Text.ofNat n) = n :=
  Nat.ofDigitChars_toDigits (by decide) (by decide)

namespace Number

private theorem ofNat_digitValue_digit :
    ∀ d, Fin.ofNat 10 (Numeral.digitValue (digit d)) = d := by
  decide

private theorem ofNumeral_numeral (n : Number) :
    ofNumeral n.negative n.numeral = n := by
  obtain ⟨negative, whole, fraction, exponent⟩ := n
  have hexponent (e : Int) :
      (if decide (0 ≤ e) then (natural (Text.ofNat e.natAbs) : Int)
      else -(natural (Text.ofNat e.natAbs) : Int)) = e := by
    rw [natural_ofNat]
    by_cases he : 0 ≤ e
    · rw [decide_eq_true he, if_pos rfl, Int.natAbs_of_nonneg he]
    · rw [decide_eq_false he, if_neg Bool.false_ne_true,
        Int.ofNat_natAbs_of_nonpos (by omega), Int.neg_neg]
  simp only [ofNumeral, numeral, natural_ofNat, List.map_map, Option.map_map,
    Number.mk.injEq, true_and]
  refine ⟨?_, ?_⟩
  · exact (List.map_congr_left fun d _ => ofNat_digitValue_digit d).trans
      (List.map_id fraction)
  · cases exponent with
    | none => rfl
    | some e => exact congrArg some (hexponent e)

end Number

private theorem readScalar_digit {c : Char} (h : c.isDigit = true) (t : Text) :
    readScalar (c :: t) =
      (numeral .endInValue (c :: t)).map fun (n, rest) =>
        (.number (.ofNumeral false n), rest) := by
  rw [readScalar, skipSpace_of_not (isSpace_of_isDigit h)]
  simp only [if_neg (ne_of_isDigit h rfl : c ≠ 'n'),
    if_neg (ne_of_isDigit h rfl : c ≠ 't'),
    if_neg (ne_of_isDigit h rfl : c ≠ 'f'),
    if_neg (ne_of_isDigit h rfl : c ≠ '-'), if_pos h]

private theorem readScalar_number (n : Number) {t : Text} (ht : Delimited t) :
    readScalar (n.write ++ t) = .ok (.number n, t) := by
  have hread := n.numeral_magnitude .endInValue ht
  have hnumber := n.ofNumeral_numeral
  rcases n.write_cases with
    ⟨hsign, hwrite⟩ | ⟨hsign, hwrite, c, rest, hmagnitude, hdigit⟩
  · rw [hsign] at hnumber
    rw [hwrite]
    change (numeral .endInValue (n.magnitude ++ t)).map _ = _
    simp only [hread, Except.map, hnumber]
  · rw [hsign] at hnumber
    rw [hwrite]
    rw [hmagnitude, List.cons_append] at hread ⊢
    simp only [readScalar_digit hdigit, hread, Except.map, hnumber]

private theorem readScalar_write {d : Document} (h : d.IsScalar) {t : Text}
    (ht : Delimited t) :
    readScalar (d.write ++ t) = .ok (d, t) := by
  cases d with
  | null => rfl
  | bool value => cases value <;> rfl
  | number n =>
      rw [Document.write]
      exact readScalar_number n ht
  | string s =>
      rw [Document.write]
      change (string (stringTail s ++ t)).map _ = _
      rw [string_stringTail]
      rfl
  | array => exact h.elim
  | object => exact h.elim

def Reader.ReadsBack (value : Reader Document) (d : Document) : Prop :=
  ∀ t, Delimited t → value.read (d.write ++ t) = .ok (d, t)

open Document in
private theorem readElements_elementsText {value : Reader Document}
    {elements : List Document}
    (h : ∀ element ∈ elements, value.ReadsBack element) (first : Bool)
    (t : Text) :
    readElements value first (elementsText first elements ++ t) =
      .ok (elements, t) :=
  readItems_text nextElement_closed (fun element hmem first rest t =>
    ⟨_, nextElement_elementsText first element rest t,
      h element hmem _ (delimited_elementsText rest t)⟩) first t

open Document in
private theorem readMembers_membersText {value : Reader Document}
    {members : List (Text × Document)}
    (h : ∀ member ∈ members, value.ReadsBack member.2) (first : Bool)
    (t : Text) :
    readMembers value first (membersText first members ++ t) =
      .ok (members, t) := by
  refine readItems_text nextMember_closed (fun (key, d) hmem first rest t =>
    ⟨_, nextMember_membersText first key d rest t, ?_⟩) first t
  have hvalue := h (key, d) hmem _ (delimited_membersText rest t)
  simp only [readMember, string_stringTail, colon_cons, bind,
    Except.bind, hvalue]
  rfl

private theorem readValue_scalar {c : Char} (hspace : isSpace c = false)
    (hlist : c ≠ '[') (hobject : c ≠ '\x7b') (value : Reader Document)
    (t : Text) :
    readValue value (c :: t) = readScalar (c :: t) := by
  rw [readValue, skipSpace_of_not hspace]
  split
  case h_1 heq =>
    cases heq
    exact absurd rfl hlist
  case h_2 heq =>
    cases heq
    exact absurd rfl hobject
  case h_3 => rfl

private theorem readValue_write_scalar {d : Document} (h : d.IsScalar)
    (value : Reader Document) (t : Text) :
    readValue value (d.write ++ t) = readScalar (d.write ++ t) := by
  obtain ⟨c, rest, hwrite, hleads⟩ := d.exists_leads
  rw [hwrite]
  exact readValue_scalar hleads.isSpace (hleads.ne_list h)
    (hleads.ne_object h) value _

/-- The induction is on the limit: what a list or an object holds is read under
the limit that is left for it. -/
theorem reader_readsBack {limit : Nat} {d : Document} (h : d.FitsIn limit) :
    (reader limit).ReadsBack d := by
  induction limit generalizing d with
  | zero => exact fun t ht => readScalar_write h ht
  | succ limit ih =>
      have scalar (hscalar : d.IsScalar) : (reader (limit + 1)).ReadsBack d :=
        fun t ht =>
        (readValue_write_scalar hscalar _ t).trans (readScalar_write hscalar ht)
      cases d with
      | null => exact scalar trivial
      | bool => exact scalar trivial
      | number => exact scalar trivial
      | string => exact scalar trivial
      | array elements =>
          intro t _
          have hread :=
            readElements_elementsText
              (fun element hmem => ih (h element hmem)) true t
          rw [Document.write_array, List.cons_append]
          change (readElements (reader limit) true _).map _ = _
          rw [hread]
          rfl
      | object members =>
          intro t _
          have hread :=
            readMembers_membersText (fun member hmem => ih (h member hmem)) true
              t
          rw [Document.write_object, List.cons_append]
          change (readMembers (reader limit) true _).map _ = _
          rw [hread]
          rfl

theorem Document.read_write {d : Document} (h : d.FitsIn nestingLimit) :
    read d.write = .ok d := by
  have hread := reader_readsBack h [] nofun
  rw [List.append_nil] at hread
  rw [read, hread]
  rfl

end TextOverride.Json
