import TextOverride.Manifest
import TextOverride.Proofs.Json.Skipping

namespace TextOverride

namespace Json

theorem toOption_bind {ε α β : Type} (result : Except ε α)
    (next : α → Except ε β) :
    (result >>= next).toOption = result.toOption.bind fun a =>
      (next a).toOption := by
  cases result with
  | error e => rfl
  | ok a => rfl

private theorem toOption_map {ε α β : Type} (f : α → β) (result : Except ε α) :
    (result.map f).toOption = result.toOption.map f := by
  cases result with
  | error e => rfl
  | ok a => rfl

theorem toOption_eq_some_iff {ε α : Type} {result : Except ε α} {a : α} :
    result.toOption = some a ↔ result = .ok a := by
  cases result with
  | error e => exact iff_of_false nofun nofun
  | ok b =>
      exact ⟨fun h => congrArg _ (Option.some.inj h), fun h =>
        congrArg _ (Except.ok.inj h)⟩

def Document.text? : Document → Option Text
  | .string s => some s
  | _ => none

/-- Where a string is wanted, only the text of a string is taken. -/
theorem stringValue_write (wanted : Text) (d : Document) (t : Text) :
    (stringValue wanted (d.write ++ t)).toOption = d.text?.map (·, t) := by
  rw [stringValue, d.skipSpace_write]
  obtain ⟨c, rest, hwrite, hleads⟩ := d.exists_leads
  by_cases hstring : ∃ s, d = .string s
  · obtain ⟨s, rfl⟩ := hstring
    change (string (stringTail s ++ t)).toOption = _
    rw [string_stringTail]
    rfl
  · have hquote : c ≠ '"' := by
      rintro rfl
      exact hstring hleads.isString
    have hnone : d.text? = none := by
      cases d with
      | string s => exact absurd ⟨s, rfl⟩ hstring
      | _ => rfl
    rw [hwrite, hnone, List.cons_append]
    split
    case h_1 heq =>
      cases heq
      exact absurd rfl hquote
    case h_2 => rfl

end Json

namespace Manifest

open Json

/-! An entry given as an object. -/

/-- A member is kept if it is a new field, with a string for its value. -/
def Draft.take? (draft : Draft) (member : Text × Document) : Option Draft :=
  match Field.ofName? member.1 with
  | none => some draft
  | some field =>
      if (draft field).isSome then none else
        member.2.text?.map (draft.set field)

private theorem readMember_write (draft : Draft) (key : Text) (d : Document)
    {t : Text} (ht : Delimited t) :
    (readMember draft key (':' :: (d.write ++ t))).toOption =
      (draft.take? (key, d)).map (·, t) := by
  rw [readMember, Draft.take?, colon_cons]
  cases Field.ofName? key with
  | none =>
      change (skipValue (d.write ++ t) >>= _).toOption = _
      rw [toOption_bind, d.skipValue_write ht]
      rfl
  | some field =>
      simp only
      split
      · rfl
      · change (stringValue field.wanted (d.write ++ t) >>= _).toOption = _
        rw [toOption_bind, stringValue_write]
        cases d.text? with
        | none => rfl
        | some s => rfl

section Object

variable {draft : Draft} {first : Bool} {t u rest : Text}

private theorem readObject_closed
    (h : nextMember first t = .ok (.closed rest)) :
    (readObject draft first t).toOption =
      draft.entry.toOption.map (·, rest) := by
  rw [readObject]
  split
  case h_1 hfault => cases hfault.symm.trans h
  case h_2 hclosed =>
    cases hclosed.symm.trans h
    cases draft.entry with
    | error field => rfl
    | ok entry => rfl
  case h_3 hmore => cases hmore.symm.trans h

private theorem readObject_more {key v : Text}
    (h : nextMember first t = .ok (.more u)) (hkey : string u = .ok (key, v)) :
    readObject draft first t =
      readMember draft key v >>= fun (draft, w) =>
        readObject draft false w := by
  conv => lhs; rw [readObject]
  split
  case h_1 hfault => cases hfault.symm.trans h
  case h_2 hclosed => cases hclosed.symm.trans h
  case h_3 hmore =>
    cases hmore.symm.trans h
    split
    case h_1 hfault => cases hfault.symm.trans hkey
    case h_2 hread =>
      cases hread.symm.trans hkey
      split
      case h_1 hmember =>
        rw [hmember]
        rfl
      case h_2 hmember =>
        conv => rhs; rw [hmember]
        rfl

end Object

private theorem readObject_membersText (draft : Draft) (first : Bool)
    (members : List (Text × Document)) (t : Text) :
    (readObject draft first
      (Document.membersText first members ++ t)).toOption =
      ((members.foldlM Draft.take? draft).bind (·.entry.toOption)).map
        (·, t) := by
  induction members generalizing draft first with
  | nil => exact readObject_closed (Document.nextMember_closed first t)
  | cons member rest ih =>
      obtain ⟨key, d⟩ := member
      rw [readObject_more (Document.nextMember_membersText first key d rest t)
        (string_stringTail key _), toOption_bind,
        readMember_write draft key d (Document.delimited_membersText rest t),
        List.foldlM_cons]
      cases draft.take? (key, d) with
      | none => rfl
      | some taken => exact ih taken false

/-! An entry given as a list. -/

def nextText? : List Document → Option (Text × List Document)
  | [] => none
  | element :: rest => element.text?.map (·, rest)

def listed? (elements : List Document) : Option ManifestEntry := do
  let (key, elements) ← nextText? elements
  let (name, elements) ← nextText? elements
  let (file, elements) ← nextText? elements
  if elements.isEmpty then some ⟨key, name, file⟩ else none

private theorem readItem_elementsText (field : Field) (position : Nat)
    (first : Bool) (hfirst : (position == 0) = first) (elements : List Document)
    (t : Text) :
    (readItem field position
      (Document.elementsText first elements ++ t)).toOption =
      (nextText? elements).map fun (s, rest) =>
        (s, Document.elementsText false rest ++ t) := by
  rw [readItem, hfirst]
  cases elements with
  | nil =>
      rw [Document.nextElement_closed]
      rfl
  | cons element rest =>
      rw [Document.nextElement_elementsText]
      change (stringValue field.wanted _).toOption = _
      rw [stringValue_write, nextText?, Option.map_map]
      rfl

private theorem closeList_elementsText (elements : List Document) (t : Text) :
    (closeList (Document.elementsText false elements ++ t)).toOption =
      if elements.isEmpty then some t else none := by
  cases elements with
  | nil => rfl
  | cons element rest =>
      rw [closeList]
      split
      case h_2 heq => cases heq
      case h_3 => split <;> rfl
      all_goals rfl

private theorem readList_elementsText (elements : List Document) (t : Text) :
    (readList (Document.elementsText true elements ++ t)).toOption =
      (listed? elements).map (·, t) := by
  rw [readList, toOption_bind, readItem_elementsText .promptKey 0 true rfl,
    listed?]
  cases nextText? elements with
  | none => rfl
  | some found =>
      obtain ⟨key, elements⟩ := found
      change (readItem .variableName 1 _ >>= _).toOption =
        (nextText? elements >>= _).map _
      rw [toOption_bind, readItem_elementsText .variableName 1 false rfl]
      cases nextText? elements with
      | none => rfl
      | some found =>
          obtain ⟨name, elements⟩ := found
          change (readItem .targetFile 2 _ >>= _).toOption =
            (nextText? elements >>= _).map _
          rw [toOption_bind, readItem_elementsText .targetFile 2 false rfl]
          cases nextText? elements with
          | none => rfl
          | some found =>
              obtain ⟨file, elements⟩ := found
              change (closeList _ >>= _).toOption =
                (if elements.isEmpty then some _ else none).map _
              rw [toOption_bind, closeList_elementsText]
              cases elements.isEmpty with
              | true => rfl
              | false => rfl

def entryOf? : Document → Option ManifestEntry
  | .array elements => listed? elements
  | .object members =>
      (members.foldlM Draft.take? .empty).bind (·.entry.toOption)
  | _ => none

def entriesOf? : Document → Option Manifest
  | .array elements => elements.mapM entryOf?
  | _ => none

private theorem readEntry_scalar {d : Document} (h : d.IsScalar) (t : Text) :
    (readEntry (d.write ++ t)).toOption = none := by
  obtain ⟨c, rest, hwrite, hleads⟩ := d.exists_leads
  rw [readEntry, d.skipSpace_write, hwrite, List.cons_append]
  split
  case h_1 heq => cases heq
  case h_2 heq =>
    cases heq
    exact absurd rfl (hleads.ne_list h)
  case h_3 heq =>
    cases heq
    exact absurd rfl (hleads.ne_object h)
  case h_4 => rfl

private theorem readEntry_write (d : Document) (t : Text) :
    (readEntry (d.write ++ t)).toOption = (entryOf? d).map (·, t) := by
  cases d with
  | null => exact readEntry_scalar (d := .null) trivial t
  | bool value => exact readEntry_scalar (d := .bool value) trivial t
  | number n => exact readEntry_scalar (d := .number n) trivial t
  | string s => exact readEntry_scalar (d := .string s) trivial t
  | array elements =>
      rw [Document.write_array, List.cons_append]
      exact readList_elementsText elements t
  | object members =>
      rw [Document.write_object, List.cons_append]
      exact readObject_membersText .empty true members t

section Entries

variable {first : Bool} {t u v rest : Text}

private theorem readEntries_closed
    (h : nextElement first t = .ok (.closed rest)) :
    readEntries first t = .ok ([], rest) := by
  rw [readEntries]
  split
  case h_1 hfault => cases hfault.symm.trans h
  case h_2 hclosed =>
    cases hclosed.symm.trans h
    rfl
  case h_3 hmore => cases hmore.symm.trans h

private theorem readEntries_more (h : nextElement first t = .ok (.more u)) :
    readEntries first t =
      readEntry u >>= fun (entry, v) =>
        (readEntries false v).map fun (entries, rest) =>
          (entry :: entries, rest) := by
  conv => lhs; rw [readEntries]
  split
  case h_1 hfault => cases hfault.symm.trans h
  case h_2 hclosed => cases hclosed.symm.trans h
  case h_3 hmore =>
    cases hmore.symm.trans h
    split
    case h_1 hentry =>
      rw [hentry]
      rfl
    case h_2 hentry =>
      conv => rhs; rw [hentry]
      rfl

end Entries

private theorem readEntries_elementsText (first : Bool)
    (elements : List Document) (t : Text) :
    (readEntries first (Document.elementsText first elements ++ t)).toOption =
      (elements.mapM entryOf?).map (·, t) := by
  induction elements generalizing first with
  | nil =>
      rw [readEntries_closed (Document.nextElement_closed first t)]
      rfl
  | cons element rest ih =>
      rw [readEntries_more
        (Document.nextElement_elementsText first element rest t),
        toOption_bind, readEntry_write, List.mapM_cons]
      cases entryOf? element with
      | none => rfl
      | some entry =>
          change ((readEntries false _).map _).toOption =
            (rest.mapM entryOf? >>= _).map _
          rw [toOption_map, ih]
          cases rest.mapM entryOf? with
          | none => rfl
          | some entries => rfl

/-- What is read from the text of a document is what the document gives. -/
theorem read_write (d : Document) : (read d.write).toOption = entriesOf? d := by
  have hskip := d.skipSpace_write []
  rw [List.append_nil] at hskip
  obtain ⟨c, rest, hwrite, hleads⟩ := d.exists_leads
  by_cases hlist : ∃ elements, d = .array elements
  · obtain ⟨elements, rfl⟩ := hlist
    have hentries := readEntries_elementsText true elements []
    rw [List.append_nil] at hentries
    rw [read, hskip, Document.write_array]
    change (readEntries true _ >>= _).toOption = elements.mapM entryOf?
    rw [toOption_bind, hentries]
    cases elements.mapM entryOf? with
    | none => rfl
    | some manifest => rfl
  · have hnone : entriesOf? d = none := by
      cases d with
      | array elements => exact absurd ⟨elements, rfl⟩ hlist
      | _ => rfl
    rw [read, hskip, hwrite, hnone]
    split
    case h_1 => rfl
    case h_2 heq =>
      cases heq
      exact absurd hleads.isArray hlist
    case h_3 => rfl

end Manifest

end TextOverride
