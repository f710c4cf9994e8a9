import TextOverride.Proofs.Json.Numerals

namespace TextOverride.Json

theorem colon_cons (t : Text) : colon (':' :: t) = .ok t := rfl

theorem delimited_comma (t : Text) : Delimited (',' :: t) :=
  delimited_cons (by decide) t

theorem skipSpace_of_not {c : Char} (h : isSpace c = false) (t : Text) :
    skipSpace (c :: t) = c :: t :=
  List.dropWhile_cons_of_neg (by simp [h])

theorem ne_of_isDigit {c l : Char} (hc : c.isDigit = true)
    (hl : l.isDigit = false) : c ≠ l := by
  rintro rfl
  cases hc.symm.trans hl

theorem isSpace_of_isDigit {c : Char} (h : c.isDigit = true) :
    isSpace c = false := by
  have htab : (c == '\t') = false :=
    beq_eq_false_iff_ne.mpr (ne_of_isDigit h rfl)
  have hfeed : (c == '\n') = false :=
    beq_eq_false_iff_ne.mpr (ne_of_isDigit h rfl)
  have hreturn : (c == '\r') = false :=
    beq_eq_false_iff_ne.mpr (ne_of_isDigit h rfl)
  have hblank : (c == ' ') = false :=
    beq_eq_false_iff_ne.mpr (ne_of_isDigit h rfl)
  rw [isSpace, htab, hfeed, hreturn, hblank]
  rfl

namespace Document

/-- A property may be assumed of all that a list or an object holds. -/
@[elab_as_elim]
theorem induction {motive : Document → Prop} (null : motive .null)
    (bool : ∀ value, motive (.bool value))
    (number : ∀ value, motive (.number value))
    (string : ∀ value, motive (.string value))
    (array : ∀ elements, (∀ element ∈ elements, motive element) →
      motive (.array elements))
        (object : ∀ members, (∀ member ∈ members, motive member.2) →
          motive (.object members)) :
    ∀ d, motive d
  | .null => null
  | .bool value => bool value
  | .number value => number value
  | .string value => string value
  | .array elements => array elements fun element _ =>
      induction null bool number string array object element
  | .object members => object members fun member _ =>
      induction null bool number string array object member.2
  termination_by d => sizeOf d
  decreasing_by
    · have := List.sizeOf_lt_of_mem ‹element ∈ elements›
      simp only [Document.array.sizeOf_spec]
      omega
    · have hmember := List.sizeOf_lt_of_mem ‹member ∈ members›
      have hvalue : sizeOf member.2 < sizeOf member := by
        cases member
        simp only [Prod.mk.sizeOf_spec]
        omega
      simp only [Document.object.sizeOf_spec]
      omega

/-! Lists and objects behind their opening bracket. -/

/-- Behind the opening bracket, or (when not `first`) behind an element. -/
def elementsText (first : Bool) : List Document → Text
  | [] => [']']
  | element :: rest =>
      (if first then [] else [',']) ++
        (element.write ++ elementsText false rest)

def membersText (first : Bool) : List (Text × Document) → Text
  | [] => ['\x7d']
  | (key, value) :: rest =>
      (if first then [] else [',']) ++
        '"' ::
        (stringTail key ++ ':' :: (value.write ++ membersText false rest))

private theorem writeElements_eq (elements : List Document) :
    writeElements elements = elementsText false elements := by
  induction elements with
  | nil => rw [writeElements, elementsText]
  | cons element rest ih =>
      rw [writeElements, ih, elementsText]
      rfl

private theorem writeMembers_eq (members : List (Text × Document)) :
    writeMembers members = membersText false members := by
  induction members with
  | nil => rw [writeMembers, membersText]
  | cons member rest ih =>
      rw [writeMembers, ih, membersText, writeString_eq]
      simp

theorem write_array (elements : List Document) :
    (Document.array elements).write = '[' :: elementsText true elements := by
  cases elements with
  | nil => rw [write, elementsText]
  | cons element rest =>
      rw [write, writeElements_eq, elementsText]
      rfl

theorem write_object (members : List (Text × Document)) :
    (Document.object members).write = '\x7b' :: membersText true members := by
  cases members with
  | nil => rw [write, membersText]
  | cons member rest =>
      rw [write, writeMembers_eq, membersText, writeString_eq]
      simp

theorem delimited_elementsText (elements : List Document) (t : Text) :
    Delimited (elementsText false elements ++ t) := by
  cases elements with
  | nil => exact delimited_cons (by decide) t
  | cons => exact delimited_comma _

theorem delimited_membersText (members : List (Text × Document)) (t : Text) :
    Delimited (membersText false members ++ t) := by
  cases members with
  | nil => exact delimited_cons (by decide) t
  | cons => exact delimited_comma _

def IsScalar : Document → Prop
  | .array _ => False
  | .object _ => False
  | _ => True

inductive Leads : Char → Document → Prop
  | null : Leads 'n' .null
  | boolTrue : Leads 't' (.bool true)
  | boolFalse : Leads 'f' (.bool false)
  | minus (n : Number) : Leads '-' (.number n)
  | digit {c : Char} (h : c.isDigit = true) (n : Number) : Leads c (.number n)
  | string (s : Text) : Leads '"' (.string s)
  | array (elements : List Document) : Leads '[' (.array elements)
  | object (members : List (Text × Document)) : Leads '\x7b' (.object members)

theorem exists_leads (d : Document) :
    ∃ c rest, d.write = c :: rest ∧ Leads c d := by
  cases d with
  | null => exact ⟨_, _, rfl, .null⟩
  | bool value =>
      cases value with
      | false => exact ⟨_, _, rfl, .boolFalse⟩
      | true => exact ⟨_, _, rfl, .boolTrue⟩
  | string s => exact ⟨_, _, rfl, .string s⟩
  | array elements => exact ⟨_, _, write_array elements, .array elements⟩
  | object members => exact ⟨_, _, write_object members, .object members⟩
  | number n =>
      rcases n.write_cases with
        ⟨_, hwrite⟩ | ⟨_, hwrite, c, rest, hmagnitude, hdigit⟩
      · exact ⟨_, _, hwrite, .minus n⟩
      · exact ⟨c, rest, hwrite.trans hmagnitude, .digit hdigit n⟩

namespace Leads

variable {c : Char} {d : Document}

theorem isSpace (h : Leads c d) : Json.isSpace c = false := by
  cases h with
  | digit hdigit => exact isSpace_of_isDigit hdigit
  | _ => rfl

theorem ne_close (h : Leads c d) : c ≠ ']' := by
  rintro rfl
  cases h with
  | digit hdigit => cases hdigit

theorem isString (h : Leads '"' d) : ∃ s, d = .string s := by
  cases h with
  | digit hdigit => cases hdigit
  | string s => exact ⟨s, rfl⟩

theorem isArray (h : Leads '[' d) : ∃ elements, d = .array elements := by
  cases h with
  | digit hdigit => cases hdigit
  | array elements => exact ⟨elements, rfl⟩

private theorem isObject (h : Leads '\x7b' d) :
    ∃ members, d = .object members := by
  cases h with
  | digit hdigit => cases hdigit
  | object members => exact ⟨members, rfl⟩

theorem ne_list (h : Leads c d) (hd : d.IsScalar) : c ≠ '[' := by
  rintro rfl
  obtain ⟨_, rfl⟩ := h.isArray
  exact hd

theorem ne_object (h : Leads c d) (hd : d.IsScalar) : c ≠ '\x7b' := by
  rintro rfl
  obtain ⟨_, rfl⟩ := h.isObject
  exact hd

end Leads

theorem skipSpace_write (d : Document) (t : Text) :
    skipSpace (d.write ++ t) = d.write ++ t := by
  obtain ⟨c, rest, hwrite, hleads⟩ := d.exists_leads
  rw [hwrite]
  exact skipSpace_of_not hleads.isSpace _

/-! What the next element or member is found to be. -/

private theorem nextElement_first {c : Char} (hspace : isSpace c = false)
    (hclose : c ≠ ']') (t : Text) :
    nextElement true (c :: t) = .ok (.more (c :: t)) := by
  rw [nextElement, skipSpace_of_not hspace]
  split
  case h_1 heq => cases heq
  case h_2 heq =>
    cases heq
    exact absurd rfl hclose
  case h_3 heq =>
    cases heq
    rfl

private theorem nextElement_later {c : Char} (hspace : isSpace c = false)
    (hclose : c ≠ ']') (t : Text) :
    nextElement false (',' :: c :: t) = .ok (.more (c :: t)) := by
  change afterListComma (c :: t) = _
  rw [afterListComma, skipSpace_of_not hspace]
  split
  case h_1 heq => cases heq
  case h_2 heq =>
    cases heq
    exact absurd rfl hclose
  case h_3 => rfl

theorem nextElement_elementsText (first : Bool) (element : Document)
    (rest : List Document) (t : Text) :
    nextElement first (elementsText first (element :: rest) ++ t) =
      .ok (.more (element.write ++ (elementsText false rest ++ t))) := by
  obtain ⟨c, tail, hwrite, hleads⟩ := element.exists_leads
  rw [elementsText, hwrite]
  simp only [List.append_assoc, List.cons_append]
  cases first with
  | true => exact nextElement_first hleads.isSpace hleads.ne_close _
  | false => exact nextElement_later hleads.isSpace hleads.ne_close _

theorem nextElement_closed (first : Bool) (t : Text) :
    nextElement first (elementsText first [] ++ t) = .ok (.closed t) := by
  rfl

theorem nextMember_membersText (first : Bool) (key : Text) (value : Document)
    (rest : List (Text × Document)) (t : Text) :
    nextMember first (membersText first ((key, value) :: rest) ++ t) =
      .ok (.more (stringTail key ++ ':' ::
        (value.write ++ (membersText false rest ++ t)))) := by
  rw [membersText]
  simp only [List.append_assoc, List.cons_append]
  cases first with
  | true => rfl
  | false => rfl

theorem nextMember_closed (first : Bool) (t : Text) :
    nextMember first (membersText first [] ++ t) = .ok (.closed t) := by
  rfl

private theorem noControl_elementsText {elements : List Document}
    (h : ∀ element ∈ elements, NoControl element.write) (first : Bool) :
    NoControl (elementsText first elements) := by
  induction elements generalizing first with
  | nil => exact (by decide : NoControl [']'])
  | cons element rest ih =>
      obtain ⟨helement, hrest⟩ := List.forall_mem_cons.mp h
      rw [elementsText]
      refine NoControl.append ?_ (helement.append (ih hrest false))
      cases first <;> decide

private theorem noControl_membersText {members : List (Text × Document)}
    (h : ∀ member ∈ members, NoControl member.2.write) (first : Bool) :
    NoControl (membersText first members) := by
  induction members generalizing first with
  | nil => exact (by decide : NoControl ['\x7d'])
  | cons member rest ih =>
      obtain ⟨hvalue, hrest⟩ := List.forall_mem_cons.mp h
      have hkey : NoControl (writeString member.1) :=
        noControl_writeString member.1
      have htail :
          NoControl (':' :: (member.2.write ++ membersText false rest)) :=
        List.forall_mem_cons.mpr ⟨by decide, hvalue.append (ih hrest false)⟩
      rw [membersText]
      refine NoControl.append ?_ (hkey.append htail)
      cases first <;> decide

theorem noControl_write (d : Document) : NoControl d.write := by
  induction d using Document.induction with
  | null => exact (by decide : NoControl "null".toList)
  | bool value => cases value with
    | true => exact (by decide : NoControl "true".toList)
    | false => exact (by decide : NoControl "false".toList)
  | number n =>
      rw [write]
      exact n.noControl_write
  | string s =>
      rw [write]
      exact noControl_writeString s
  | array elements ih =>
      rw [write_array]
      exact List.forall_mem_cons.mpr ⟨by decide, noControl_elementsText ih true⟩
  | object members ih =>
      rw [write_object]
      exact List.forall_mem_cons.mpr ⟨by decide, noControl_membersText ih true⟩

end Document

end TextOverride.Json
