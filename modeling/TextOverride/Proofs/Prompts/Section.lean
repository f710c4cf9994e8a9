import Mathlib.Data.List.TakeWhile
import TextOverride.Prompts
import TextOverride.Proofs.Text.Lines

namespace TextOverride.Prompts

def IsKey (key : Text) : Prop :=
  key ≠ [] ∧ ∀ c ∈ key, 'a' ≤ c ∧ c ≤ 'z' ∨ 'A' ≤ c ∧ c ≤ 'Z' ∨ c = '_'

/-- The key, a colon, and then only White_Space. -/
def KeyLine (key line : Text) : Prop :=
  IsKey key ∧ ∃ blanks : Text, blanks.Blank ∧ line = key ++ ':' :: blanks

theorem isKeyChar_iff {c : Char} :
    isKeyChar c = true ↔ 'a' ≤ c ∧ c ≤ 'z' ∨ 'A' ≤ c ∧ c ≤ 'Z' ∨ c = '_' := by
  have lower : c.isLower = true ↔ 'a' ≤ c ∧ c ≤ 'z' :=
    (Bool.and_eq_true_iff).trans
      (and_congr decide_eq_true_iff decide_eq_true_iff)
  have upper : c.isUpper = true ↔ 'A' ≤ c ∧ c ≤ 'Z' := decide_eq_true_iff
  have alpha : c.isAlpha = true ↔ c.isUpper = true ∨ c.isLower = true :=
    Bool.or_eq_true_iff
  rw [isKeyChar, Bool.or_eq_true, alpha, lower, upper, beq_iff_eq]
  constructor
  · rintro ((h | h) | h)
    · exact .inr (.inl h)
    · exact .inl h
    · exact .inr (.inr h)
  · rintro (h | h | h)
    · exact .inl (.inr h)
    · exact .inl (.inl h)
    · exact .inr h

instance (key : Text) : Decidable (IsKey key) :=
  decidable_of_iff (key ≠ [] ∧ key.all isKeyChar = true)
    (by simp only [List.all_eq_true, isKeyChar_iff, IsKey])

theorem IsKey.isKeyChar {key : Text} (h : IsKey key) {c : Char} (hc : c ∈ key) :
    isKeyChar c = true :=
  isKeyChar_iff.mpr (h.2 c hc)

private theorem IsKey.takeWhile {key : Text} (h : IsKey key) (rest : Text) :
    (key ++ ':' :: rest).takeWhile Prompts.isKeyChar = key := by
  rw [List.takeWhile_append_of_pos fun c hc => h.isKeyChar hc]
  exact List.append_nil key

private theorem IsKey.dropWhile {key : Text} (h : IsKey key) (rest : Text) :
    (key ++ ':' :: rest).dropWhile Prompts.isKeyChar = ':' :: rest := by
  rw [List.dropWhile_append_of_pos fun c hc => h.isKeyChar hc]
  rfl

theorem keyLine?_eq_some_iff {key line : Text} :
    keyLine? line = some key ↔ KeyLine key line := by
  constructor
  · intro h
    have hline : line.takeWhile isKeyChar ++ line.dropWhile isKeyChar = line :=
      List.takeWhile_append_dropWhile
    have hchars : ∀ c ∈ line.takeWhile isKeyChar, isKeyChar c = true :=
      fun c hc => List.mem_takeWhile_imp hc
    rw [keyLine?] at h
    generalize line.takeWhile isKeyChar = taken at h hline hchars
    generalize line.dropWhile isKeyChar = rest at h hline
    split at h
    case h_1 => cases h
    case h_2 taken blanks hne =>
      split at h
      case isTrue hblank =>
        cases h
        exact ⟨⟨hne, fun c hc => isKeyChar_iff.mp (hchars c hc)⟩, blanks,
          hblank, hline.symm⟩
      case isFalse => cases h
    case h_3 => cases h
  · rintro ⟨hkey, blanks, hblanks, rfl⟩
    rw [keyLine?, hkey.takeWhile, hkey.dropWhile]
    cases key with
    | nil => exact absurd rfl hkey.1
    | cons c key => exact if_pos hblanks

/-! Cutting lines into sections. -/

@[simp] theorem sections_nil : sections [] = ([], []) := rfl

theorem sections_cons_body {line : Text} (h : keyLine? line = none)
    (rest : List Text) :
    sections (line :: rest) =
      (line :: (sections rest).1, (sections rest).2) := by
  rw [sections, h]

theorem sections_cons_key {key line : Text} (h : keyLine? line = some key)
    (rest : List Text) :
    sections (line :: rest) =
      ([], ⟨key, (sections rest).1⟩ :: (sections rest).2) := by
  rw [sections, h]

theorem sections_fst (lines : List Text) :
    (sections lines).1 = lines.takeWhile fun line =>
      (keyLine? line).isNone := by
  induction lines with
  | nil => rfl
  | cons line rest ih =>
      cases hkey : keyLine? line with
      | none =>
          rw [sections_cons_body hkey,
            List.takeWhile_cons_of_pos (by rw [hkey]; rfl), ih]
      | some key =>
          rw [sections_cons_key hkey,
            List.takeWhile_cons_of_neg (by rw [hkey]; exact nofun)]

/-- What stands before a key line does not change what follows. -/
theorem sections_append_key {key line : Text} (h : keyLine? line = some key)
    (before rest : List Text) :
    sections (before ++ line :: rest) =
      ((sections before).1, (sections before).2 ++
        (sections (line :: rest)).2) := by
  induction before with
  | nil =>
      rw [List.nil_append, sections_cons_key h, sections_nil, List.nil_append]
  | cons first before ih =>
      cases hfirst : keyLine? first with
      | none =>
          rw [List.cons_append, sections_cons_body hfirst,
            sections_cons_body hfirst, ih]
      | some other =>
          rw [List.cons_append, sections_cons_key hfirst,
            sections_cons_key hfirst, ih, List.cons_append]

theorem sections_body_append {body : List Text}
    (h : ∀ line ∈ body, keyLine? line = none) (rest : List Text) :
    sections (body ++ rest) =
      (body ++ (sections rest).1, (sections rest).2) := by
  induction body with
  | nil => rfl
  | cons line body ih =>
      rw [List.cons_append, sections_cons_body (h line List.mem_cons_self),
        ih fun other hother =>
          h other (List.mem_cons_of_mem _ hother), List.cons_append]

theorem exists_keyLine_of_mem_sections {lines : List Text} {s : Section}
    (h : s ∈ (sections lines).2) :
    ∃ line ∈ lines, keyLine? line = some s.key := by
  induction lines with
  | nil => cases h
  | cons line rest ih =>
      have later (hmem : s ∈ (sections rest).2) :
          ∃ line' ∈ line :: rest, keyLine? line' = some s.key := by
        obtain ⟨other, hother, hkey⟩ := ih hmem
        exact ⟨other, List.mem_cons_of_mem _ hother, hkey⟩
      cases hkey : keyLine? line with
      | none =>
          rw [sections_cons_body hkey] at h
          exact later h
      | some key =>
          rw [sections_cons_key hkey] at h
          rcases List.mem_cons.mp h with rfl | hmem
          · exact ⟨line, List.mem_cons_self, hkey⟩
          · exact later hmem

/-! Blocks: the lines of a value, between blank lines. -/

def Trimmed (lines : List Text) : Prop :=
  (∀ line ∈ lines.head?, ¬ Text.Blank line) ∧
    ∀ line ∈ lines.getLast?, ¬ Text.Blank line

instance (lines : List Text) : Decidable (Trimmed lines) :=
  inferInstanceAs (Decidable (_ ∧ _))

theorem trimEnd_cons_of_nil {rest : List Text} (h : trimEnd rest = [])
    (line : Text) :
    trimEnd (line :: rest) = if Text.Blank line then [] else [line] := by
  rw [trimEnd, h]

theorem trimEnd_cons_of_kept {next : Text} {rest kept : List Text}
    (h : trimEnd rest = next :: kept) (line : Text) :
    trimEnd (line :: rest) = line :: next :: kept := by
  rw [trimEnd, h]

private theorem trimEnd_append_blank (lines : List Text) {blanks : List Text}
    (h : ∀ line ∈ blanks, Text.Blank line) : trimEnd (lines ++ blanks) =
    trimEnd lines := by
  induction lines with
  | nil =>
      induction blanks with
      | nil => rfl
      | cons line blanks ih =>
          have hrest : trimEnd blanks = [] :=
            ih fun other hother => h other (.tail _ hother)
          rw [List.nil_append, trimEnd_cons_of_nil hrest]
          exact if_pos (h line List.mem_cons_self)
  | cons line lines ih => rw [List.cons_append, trimEnd, trimEnd, ih]

private theorem trimEnd_eq_self {lines : List Text}
    (h : ∀ line ∈ lines.getLast?, ¬ Text.Blank line) : trimEnd lines =
    lines := by
  induction lines with
  | nil => rfl
  | cons line rest ih =>
      cases rest with
      | nil => exact if_neg (h line rfl)
      | cons next rest => exact trimEnd_cons_of_kept (ih h) line

private theorem exists_trimEnd (lines : List Text) :
    ∃ blanks, lines = trimEnd lines ++ blanks ∧
      (∀ line ∈ blanks, Text.Blank line) ∧
      ∀ line ∈ (trimEnd lines).getLast?, ¬ Text.Blank line := by
  induction lines with
  | nil => exact ⟨[], rfl, by simp [trimEnd]⟩
  | cons line rest ih =>
      obtain ⟨blanks, hsplit, hblanks, hlast⟩ := ih
      cases hrest : trimEnd rest with
      | nil =>
          rw [hrest, List.nil_append] at hsplit
          rw [trimEnd_cons_of_nil hrest]
          by_cases hline : Text.Blank line
          · rw [if_pos hline]
            refine ⟨line :: blanks, by rw [hsplit, List.nil_append], ?_,
              by simp⟩
            exact List.forall_mem_cons.mpr ⟨hline, hblanks⟩
          · rw [if_neg hline]
            exact ⟨blanks, by rw [hsplit, List.singleton_append], hblanks,
              by simpa using hline⟩
      | cons next kept =>
          rw [hrest] at hsplit hlast
          rw [trimEnd_cons_of_kept hrest]
          exact ⟨blanks, congrArg (line :: ·) hsplit, hblanks, hlast⟩

theorem trim_frame {before kept after : List Text} (hkept : Trimmed kept)
    (hbefore : ∀ line ∈ before, Text.Blank line)
    (hafter : ∀ line ∈ after, Text.Blank line) :
    trim (before ++ kept ++ after) = kept := by
  have blank_of {lines : List Text} (h : ∀ line ∈ lines, Text.Blank line) :
      ∀ line ∈ lines, Text.blank line = true :=
    fun line hline => Text.blank_eq_true_iff.mpr (h line hline)
  rw [trim, List.append_assoc, List.dropWhile_append_of_pos (blank_of hbefore)]
  cases kept with
  | nil =>
      rw [List.nil_append, List.dropWhile_eq_nil_iff.mpr (blank_of hafter)]
      rfl
  | cons line kept =>
      have hline : ¬ Text.blank line = true := fun h =>
        hkept.1 line rfl (Text.blank_eq_true_iff.mp h)
      rw [List.cons_append, List.dropWhile_cons_of_neg hline,
        ← List.cons_append, trimEnd_append_blank _ hafter,
        trimEnd_eq_self hkept.2]

theorem exists_trim (lines : List Text) :
    ∃ before after, lines = before ++ trim lines ++ after ∧
      Trimmed (trim lines) ∧
      (∀ line ∈ before, Text.Blank line) ∧ ∀ line ∈ after, Text.Blank line := by
  obtain ⟨after, hsplit, hafter, hlast⟩ :=
    exists_trimEnd (lines.dropWhile Text.blank)
  rw [← trim] at hsplit hlast
  refine ⟨lines.takeWhile Text.blank, after, ?_, ⟨?_, hlast⟩, ?_, hafter⟩
  · rw [List.append_assoc, ← hsplit, List.takeWhile_append_dropWhile]
  · intro line hline hblank
    have hhead : (lines.dropWhile Text.blank).head? = some line := by
      rw [hsplit, List.head?_append, Option.mem_def.mp hline, Option.some_or]
    have hstop := List.head?_dropWhile_not Text.blank lines
    rw [hhead] at hstop
    exact Bool.eq_false_iff.mp hstop (Text.blank_eq_true_iff.mpr hblank)
  · intro line hline
    exact Text.blank_eq_true_iff.mp (List.mem_takeWhile_imp hline)

end TextOverride.Prompts
