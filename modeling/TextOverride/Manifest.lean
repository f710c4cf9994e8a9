import TextOverride.Json.Document
import TextOverride.Json.Skip

namespace TextOverride

structure ManifestEntry where
  promptKey : Text
  variableName : Text
  targetFile : Text
  deriving DecidableEq, Repr

abbrev Manifest := List ManifestEntry

namespace Manifest

inductive Field
  | promptKey
  | variableName
  | targetFile
  deriving DecidableEq, Repr

def Field.name : Field → Text
  | .promptKey => "promptKey".toList
  | .variableName => "variableName".toList
  | .targetFile => "targetFile".toList

/-- The fields in the order in which a list gives them. -/
def Field.all : List Field := [.promptKey, .variableName, .targetFile]

def Field.ofName? (name : Text) : Option Field :=
  Field.all.find? (·.name == name)

def Field.wanted : Field → Text
  | .promptKey => "a string".toList
  | .variableName => "a string".toList
  | .targetFile => "path string".toList

def entryWanted : Text := "struct ManifestEntry".toList

def listWanted : Text := "a sequence".toList

abbrev Draft := Field → Option Text

def Draft.empty : Draft := fun _ => none

def Draft.set (draft : Draft) (field : Field) (value : Text) : Draft :=
  fun f => if f = field then some value else draft f

def Draft.entry (draft : Draft) : Except Field ManifestEntry :=
  match draft .promptKey, draft .variableName, draft .targetFile with
  | none, _, _ => .error .promptKey
  | _, none, _ => .error .variableName
  | _, _, none => .error .targetFile
  | some key, some name, some file => .ok ⟨key, name, file⟩

open Json

def readItem (field : Field) (position : Nat) (t : Text) :
    Except Fault (Text × Text) := do
  match ← nextElement (position == 0) t with
  | .closed rest =>
      throw (.here
        (.wrongLength position (entryWanted ++ " with 3 elements".toList)) rest)
  | .more rest => stringValue field.wanted rest

def readList (t : Text) : Except Fault (ManifestEntry × Text) := do
  let (key, t) ← readItem .promptKey 0 t
  let (name, t) ← readItem .variableName 1 t
  let (file, t) ← readItem .targetFile 2 t
  return (⟨key, name, file⟩, ← closeList t)

theorem readItem_length {field : Field} {position : Nat} {t s rest : Text}
    (h : readItem field position t = .ok (s, rest)) :
    rest.length < t.length := by
  unfold readItem at h
  cases hn : nextElement (position == 0) t with
  | error fault => simp [hn, bind, Except.bind] at h
  | ok next =>
      simp only [hn, bind, Except.bind] at h
      cases next with
      | closed u => simp [throw, throwThe, MonadExceptOf.throw] at h
      | more u =>
          have := nextElement_length hn
          have := stringValue_length h
          omega

theorem readList_length {t rest : Text} {e : ManifestEntry}
    (h : readList t = .ok (e, rest)) : rest.length < t.length := by
  simp only [readList, bind, Except.bind, pure, Except.pure] at h
  grind [→ readItem_length, → closeList_length]

/-- Blames the place behind a key, and behind the end of the object if the key
is all that is left of it. -/
def duplicate (field : Field) (t : Text) : Fault :=
  match skipSpace t with
  | '\x7d' :: rest => .here (.duplicateField field.name) rest
  | rest => .here (.duplicateField field.name) rest

/-- Members that are no fields are passed over. -/
def readMember (draft : Draft) (key t : Text) : Except Fault (Draft × Text) :=
  match Field.ofName? key with
  | some field =>
      if (draft field).isSome then .error (duplicate field t)
      else do
        let (value, rest) ← stringValue field.wanted (← colon t)
        return (draft.set field value, rest)
  | none => do
      let rest ← skipValue (← colon t)
      return (draft, rest)

theorem readMember_length {draft draft' : Draft} {key t rest : Text}
    (h : readMember draft key t = .ok (draft', rest)) :
    rest.length < t.length := by
  unfold readMember at h
  cases hc : colon t with
  | error fault => simp only [hc, bind, Except.bind] at h; grind
  | ok u =>
      have := colon_length hc
      simp only [hc, bind, Except.bind, pure, Except.pure] at h
      split at h
      · split at h
        · simp at h
        · next field _ _ =>
            cases hs : stringValue field.wanted u with
            | error fault => simp [hs] at h
            | ok result =>
                have := stringValue_length hs
                grind
      · cases hs : skipValue u with
        | error fault => simp [hs] at h
        | ok v =>
            have := skipOpen_length hs
            grind

/-- An entry that is an object, behind its bracket or one of its members. -/
def readObject (draft : Draft) (first : Bool) (t : Text) :
    Except Fault (ManifestEntry × Text) :=
  match h : nextMember first t with
  | .error fault => .error fault
  | .ok (.closed rest) =>
      match draft.entry with
      | .ok entry => .ok (entry, rest)
      | .error field => .error (.here (.missingField field.name) rest)
  | .ok (.more u) =>
      match h' : string u with
      | .error fault => .error fault
      | .ok (key, v) =>
          match h'' : readMember draft key v with
          | .error fault => .error fault
          | .ok (draft, w) =>
              have := nextMember_length h
              have := string_length h'
              have := readMember_length h''
              readObject draft false w
  termination_by t.length
  decreasing_by omega

def readEntry (t : Text) : Except Fault (ManifestEntry × Text) :=
  match skipSpace t with
  | [] => .error (.ahead .endInValue [])
  | '[' :: rest => readList rest
  | '\x7b' :: rest => readObject .empty true rest
  | rest => .error (wrongType entryWanted rest)

theorem readObject_length {draft : Draft} {first : Bool} {t rest : Text}
    {e : ManifestEntry} (h : readObject draft first t = .ok (e, rest)) :
    rest.length ≤ t.length := by
  fun_induction readObject draft first t generalizing rest <;>
    grind [→ nextMember_closed_length, → nextMember_length, → string_length,
      → readMember_length]

theorem readEntry_length {t rest : Text} {e : ManifestEntry}
    (h : readEntry t = .ok (e, rest)) : rest.length < t.length := by
  have := skipSpace_length t
  unfold readEntry at h
  grind [→ readList_length, → readObject_length]

def readEntries (first : Bool) (t : Text) : Except Fault (Manifest × Text) :=
  match h : nextElement first t with
  | .error fault => .error fault
  | .ok (.closed rest) => .ok ([], rest)
  | .ok (.more u) =>
      match h' : readEntry u with
      | .error fault => .error fault
      | .ok (entry, v) =>
          have := nextElement_length h
          have := readEntry_length h'
          (readEntries false v).map fun (entries, rest) =>
            (entry :: entries, rest)
  termination_by t.length
  decreasing_by omega

def read (t : Text) : Except Fault Manifest :=
  match skipSpace t with
  | [] => .error (.ahead .endInValue [])
  | '[' :: rest => do
      let (entries, rest) ← readEntries true rest
      match skipSpace rest with
      | [] => return entries
      | rest => throw (.ahead .trailingCharacters rest)
  | rest => .error (wrongType listWanted rest)

end Manifest

def ManifestEntry.document (entry : ManifestEntry) : Json.Document :=
  .object [(Manifest.Field.name .promptKey, .string entry.promptKey),
    (Manifest.Field.name .variableName, .string entry.variableName),
    (Manifest.Field.name .targetFile, .string entry.targetFile)]

def Manifest.document (manifest : Manifest) : Json.Document :=
  .array (manifest.map ManifestEntry.document)

end TextOverride
