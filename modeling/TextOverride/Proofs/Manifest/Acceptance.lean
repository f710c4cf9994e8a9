import Mathlib.Data.List.Forall2
import TextOverride.Error
import TextOverride.Proofs.Manifest.Reading

namespace TextOverride

open Json

def ManifestEntry.text (entry : ManifestEntry) : Manifest.Field → Text
  | .promptKey => entry.promptKey
  | .variableName => entry.variableName
  | .targetFile => entry.targetFile

namespace Manifest

def valuesOf (key : Text) (members : List (Text × Document)) : List Document :=
  (members.filter (·.1 = key)).map Prod.snd

/-- The document stands for the entry. Members with other keys do not matter. -/
inductive Gives : Document → ManifestEntry → Prop
  | object {members : List (Text × Document)} {entry : ManifestEntry}
      (h : ∀ field : Field, valuesOf field.name members =
        [.string (entry.text field)]) :
      Gives (.object members) entry
  | list (key name file : Text) :
      Gives (.array [.string key, .string name, .string file]) ⟨key, name, file⟩

theorem ofName?_eq_some_iff {name : Text} {field : Field} :
    Field.ofName? name = some field ↔ name = field.name := by
  constructor
  · intro h
    have hname := List.find?_some h
    exact (beq_iff_eq.mp hname).symm
  · rintro rfl
    cases field <;> rfl

private theorem name_injective {field other : Field}
    (h : field.name = other.name) :
    field = other := by
  have hname := ofName?_eq_some_iff.mpr h
  rw [ofName?_eq_some_iff.mpr rfl] at hname
  exact Option.some.inj hname

section ValuesOf

variable {key name : Text} {d : Document} {members : List (Text × Document)}

private theorem valuesOf_cons_self :
    valuesOf key ((key, d) :: members) = d :: valuesOf key members := by
  rw [valuesOf, List.filter_cons_of_pos (by simp), List.map_cons, valuesOf]

private theorem valuesOf_cons_of_ne (h : name ≠ key) :
    valuesOf key ((name, d) :: members) = valuesOf key members := by
  rw [valuesOf, List.filter_cons_of_neg (by simpa using h), valuesOf]

end ValuesOf

def Draft.kept (draft : Draft) (field : Field) : List Document :=
  (draft field).toList.map .string

theorem text?_eq_some_iff {d : Document} {s : Text} :
    d.text? = some s ↔ d = .string s := by
  cases d <;> simp [Document.text?]

theorem Draft.kept_of_none {draft : Draft} {field : Field}
    (h : draft field = none) :
    draft.kept field = [] := by
  rw [kept, h]
  rfl

theorem Draft.kept_of_some {draft : Draft} {field : Field} {s : Text}
    (h : draft field = some s) : draft.kept field = [.string s] := by
  rw [kept, h]
  rfl

/-- A draft has one value for a field at most, and that is a string. -/
theorem Draft.of_kept_eq_cons {draft : Draft} {field : Field} {d : Document}
    {rest : List Document} (h : d :: rest = draft.kept field) :
    (∃ s, d = .string s) ∧ rest = [] := by
  cases hfield : draft field with
  | none => cases h.trans (kept_of_none hfield)
  | some s =>
      obtain ⟨hstring, hrest⟩ :=
        List.cons_eq_cons.mp (h.trans (kept_of_some hfield))
      exact ⟨⟨s, hstring⟩, hrest⟩

private theorem Draft.kept_inj {draft draft' : Draft} :
    (∀ field, draft.kept field = draft'.kept field) ↔ draft = draft' := by
  constructor
  · intro h
    funext field
    have hkept := h field
    rw [kept, kept] at hkept
    have hinj : Function.Injective Document.string :=
      fun _ _ heq => Document.string.inj heq
    have hlist := List.map_injective_iff.mpr hinj hkept
    exact Option.ext fun s =>
      by rw [← Option.mem_toList, ← Option.mem_toList, hlist]
  · rintro rfl _
    rfl

private theorem Draft.kept_set (draft : Draft) (taken : Field) (s : Text)
    (field : Field) :
    (draft.set taken s).kept field = if field = taken then [.string s]
      else draft.kept field := by
  rw [kept, kept, set]
  split <;> rfl

/-- A field takes part in a step by the value that comes for it. -/
theorem Draft.take?_eq (draft : Draft) (taken : Field) (d : Document) :
    draft.take? (taken.name, d) =
      match draft taken, d.text? with
      | none, some s => some (draft.set taken s)
      | _, _ => none := by
  rw [take?]
  simp only [ofName?_eq_some_iff.mpr rfl]
  cases draft taken with
  | some value => rfl
  | none => cases d.text? <;> rfl

/-- The members are all taken if what the draft has for a field and the values
that come for it are together one string at most. -/
theorem foldlM_take?_eq_some_iff {members : List (Text × Document)}
    {draft draft' : Draft} :
    members.foldlM Draft.take? draft = some draft' ↔
      ∀ field, draft.kept field ++ valuesOf field.name members =
        draft'.kept field := by
  induction members generalizing draft with
  | nil =>
      simp only [List.foldlM_nil, valuesOf, List.filter_nil, List.map_nil,
        List.append_nil, Draft.kept_inj]
      exact Option.some_inj
  | cons member rest ih =>
      obtain ⟨key, d⟩ := member
      rw [List.foldlM_cons]
      cases hname : Field.ofName? key with
      | none =>
          have hother (field : Field) : key ≠ field.name := fun h => by
            cases hname.symm.trans (ofName?_eq_some_iff.mpr h)
          simp only [valuesOf_cons_of_ne (hother _), Draft.take?, hname]
          exact ih
      | some taken =>
          obtain rfl := ofName?_eq_some_iff.mp hname
          -- A value too many stops the fold, and one that is no string; neither
          -- comes to one string on the right.
          rw [Draft.take?_eq]
          cases hdraft : draft taken with
          | some value =>
              refine iff_of_false (fun hnone => by cases hnone) fun h => ?_
              have hkept := h taken
              rw [Draft.kept_of_some hdraft, valuesOf_cons_self] at hkept
              cases (Draft.of_kept_eq_cons hkept).2
          | none =>
              cases htext : d.text? with
              | none =>
                  refine iff_of_false (fun hnone => by cases hnone) fun h => ?_
                  have hkept := h taken
                  rw [Draft.kept_of_none hdraft, valuesOf_cons_self] at hkept
                  obtain ⟨⟨s, rfl⟩, _⟩ := Draft.of_kept_eq_cons hkept
                  cases htext
              | some s =>
                  obtain rfl := text?_eq_some_iff.mp htext
                  refine ih.trans (forall_congr' fun field => ?_)
                  rw [Draft.kept_set]
                  split
                  case isTrue heq =>
                    rw [heq, valuesOf_cons_self, Draft.kept_of_none hdraft]
                    rfl
                  case isFalse hne =>
                    rw [valuesOf_cons_of_ne fun h =>
                      hne (name_injective h).symm]

private theorem entry_eq_ok_iff {draft : Draft} {entry : ManifestEntry} :
    draft.entry = .ok entry ↔ ∀ field,
      draft field = some (entry.text field) := by
  constructor
  · intro h
    rw [Draft.entry] at h
    split at h
    case h_1 => cases h
    case h_2 => cases h
    case h_3 => cases h
    case h_4 hkey hname hfile =>
      cases h
      intro field
      cases field with
      | promptKey => exact hkey
      | variableName => exact hname
      | targetFile => exact hfile
  · intro h
    rw [Draft.entry, h .promptKey, h .variableName, h .targetFile]
    rfl

private theorem entryOf?_object_eq_some_iff {members : List (Text × Document)}
    {entry : ManifestEntry} :
    entryOf? (.object members) = some entry ↔
      ∀ field : Field, valuesOf field.name members =
        [.string (entry.text field)] := by
  let draft' : Draft := fun field => some (entry.text field)
  have hdraft (draft : Draft) : draft.entry.toOption = some entry ↔
      draft = draft' := by
    rw [Json.toOption_eq_some_iff, entry_eq_ok_iff, funext_iff]
  calc entryOf? (.object members) = some entry
      ↔ members.foldlM Draft.take? .empty = some draft' := by
        rw [entryOf?, Option.bind_eq_some_iff]
        simp only [hdraft, exists_eq_right]
    _ ↔ ∀ field, Draft.empty.kept field ++ valuesOf field.name members =
    draft'.kept field :=
        foldlM_take?_eq_some_iff
    _ ↔ ∀ field : Field, valuesOf field.name members =
    [.string (entry.text field)] := Iff.rfl

private theorem nextText?_eq_some_iff {elements rest : List Document}
    {s : Text} :
    nextText? elements = some (s, rest) ↔ elements = .string s :: rest := by
  cases elements with
  | nil => exact iff_of_false nofun nofun
  | cons element others =>
      simp only [nextText?, Option.map_eq_some_iff, text?_eq_some_iff,
        Prod.mk.injEq, List.cons.injEq]
      constructor
      · rintro ⟨_, rfl, rfl, rfl⟩
        exact ⟨rfl, rfl⟩
      · rintro ⟨rfl, rfl⟩
        exact ⟨s, rfl, rfl, rfl⟩

private theorem listed?_eq_some_iff {elements : List Document}
    {entry : ManifestEntry} :
    listed? elements = some entry ↔
      elements = [.string entry.promptKey, .string entry.variableName,
        .string entry.targetFile] := by
  simp only [listed?, Option.bind_eq_bind, Option.bind_eq_some_iff, Prod.exists,
    nextText?_eq_some_iff]
  constructor
  · rintro ⟨key, _, rfl, name, _, rfl, file, rest, rfl, h⟩
    obtain ⟨hrest, hentry⟩ := Option.ite_none_right_eq_some.mp h
    obtain rfl := List.isEmpty_iff.mp hrest
    cases hentry
    rfl
  · rintro rfl
    exact ⟨_, _, rfl, _, _, rfl, _, _, rfl, rfl⟩

/-! Entries and manifests. -/

private theorem entryOf?_eq_some_iff {d : Document} {entry : ManifestEntry} :
    entryOf? d = some entry ↔ Gives d entry := by
  constructor
  · intro h
    cases d with
    | object members => exact .object (entryOf?_object_eq_some_iff.mp h)
    | array elements =>
        obtain rfl := listed?_eq_some_iff.mp h
        exact .list entry.promptKey entry.variableName entry.targetFile
    | _ => cases h
  · intro h
    cases h with
    | object h => exact entryOf?_object_eq_some_iff.mpr h
    | list key name file => rfl

example :
    entryOf? (.object
      [("note".toList, .array [.null]), ("targetFile".toList, .string ['f']),
    ("promptKey".toList, .string ['k']),
      ("variableName".toList, .string ['n'])]) =
    some ⟨['k'], ['n'], ['f']⟩ :=
  rfl

theorem mapM_entryOf?_eq_some_iff {elements : List Document}
    {manifest : Manifest} :
    elements.mapM entryOf? = some manifest ↔
      List.Forall₂ Gives elements manifest := by
  induction elements generalizing manifest with
  | nil =>
      rw [List.mapM_nil, List.forall₂_nil_left_iff]
      exact Option.some_inj.trans eq_comm
  | cons element rest ih =>
      simp only [List.mapM_cons, Option.bind_eq_bind, Option.bind_eq_some_iff,
        List.forall₂_cons_left_iff, entryOf?_eq_some_iff, ih]
      constructor
      · rintro ⟨entry, hentry, others, hothers, h⟩
        exact ⟨entry, others, hentry, hothers, (Option.some.inj h).symm⟩
      · rintro ⟨entry, others, hentry, hothers, rfl⟩
        exact ⟨entry, hentry, others, hothers, rfl⟩

private theorem entriesOf?_eq_some_iff {d : Document} {manifest : Manifest} :
    entriesOf? d = some manifest ↔
      ∃ elements, d = .array elements ∧
        List.Forall₂ Gives elements manifest := by
  constructor
  · intro h
    cases d with
    | array elements => exact ⟨elements, rfl, mapM_entryOf?_eq_some_iff.mp h⟩
    | _ => cases h
  · rintro ⟨elements, rfl, h⟩
    exact mapM_entryOf?_eq_some_iff.mpr h

/-- The text of a document is taken for a manifest if the document is a list of
what stands for the entries, one behind the other. Every other document is
refused as an invalid manifest. -/
theorem read_write_accepts (path : Path) (d : Document) :
    let result := (read d.write).mapError (Error.manifestInvalid path d.write)
    (∀ manifest, result = .ok manifest ↔
      ∃ elements, d = .array elements ∧ List.Forall₂ Gives elements manifest) ∧
    ((∃ manifest, result = .ok manifest) ∨
      ∃ e, result = .error e ∧ e.code = .manifestInvalid) := by
  intro result
  have hgiven (manifest : Manifest) : read d.write = .ok manifest ↔
      ∃ elements, d = .array elements ∧
      List.Forall₂ Gives elements manifest := by
    rw [← Json.toOption_eq_some_iff, read_write, entriesOf?_eq_some_iff]
  subst result
  cases h : read d.write with
  | ok manifest =>
      refine ⟨fun other => Iff.trans ?_ (hgiven other), .inl ⟨manifest, rfl⟩⟩
      rw [h]
      exact ⟨fun heq => congrArg _ (Except.ok.inj heq), fun heq =>
        congrArg _ (Except.ok.inj heq)⟩
  | error fault =>
      refine ⟨fun other => Iff.trans ?_ (hgiven other), .inr ⟨_, rfl, rfl⟩⟩
      rw [h]
      exact iff_of_false nofun nofun

/-- A manifest that is written is read back, entry by entry. -/
theorem read_document_write (manifest : Manifest) :
    read manifest.document.write = .ok manifest := by
  rw [← Json.toOption_eq_some_iff, read_write]
  refine mapM_entryOf?_eq_some_iff.mpr ?_
  rw [List.forall₂_map_left_iff, List.forall₂_same]
  intro entry _
  refine .object fun field => ?_
  cases field <;> rfl

end Manifest

end TextOverride
