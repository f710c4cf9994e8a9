import Mathlib.Tactic.SplitIfs
import TextOverride.Json.Document
import TextOverride.Json.Skip

namespace TextOverride.Json

private theorem string_escaped {c : Char} {t rest : Text}
    (h : escape t = .ok (c, rest)) :
    string ('\\' :: t) = (string rest).map fun (s, rest) => (c :: s, rest) := by
  rw [string]
  split
  case h_1 fault hfault => cases hfault.symm.trans h
  case h_2 c' rest' hescape =>
    cases hescape.symm.trans h
    rfl

private theorem string_plain {c : Char} (hquote : c ≠ '"')
    (hbackslash : c ≠ '\\') (hspace : ¬ c < ' ') (t : Text) :
    string (c :: t) = (string t).map fun (s, rest) => (c :: s, rest) := by
  rw [string]
  · exact if_neg hspace
  · exact hquote
  · exact hbackslash

private theorem skipString_escaped {t rest : Text}
    (h : skipEscape t = .ok rest) :
    skipString ('\\' :: t) = skipString rest := by
  rw [skipString]
  split
  case h_1 fault hfault => cases hfault.symm.trans h
  case h_2 rest' hescape =>
    cases hescape.symm.trans h
    rfl

private theorem skipString_plain {c : Char} (hquote : c ≠ '"')
    (hbackslash : c ≠ '\\') (hspace : ¬ c < ' ') (t : Text) :
    skipString (c :: t) = skipString t := by
  rw [skipString]
  · exact if_neg hspace
  · exact hquote
  · exact hbackslash

private theorem escape_letter {l c : Char} (h : escapeLetter? l = some c)
    (t : Text) :
    escape (l :: t) = .ok (c, t) := by
  rw [escape]
  · simp only [h]
  · rintro rfl
    cases h

private theorem skipEscape_letter {l c : Char} (h : escapeLetter? l = some c)
    (t : Text) :
    skipEscape (l :: t) = .ok t := by
  rw [skipEscape]
  · simp only [h, Option.isSome_some, if_true]
  · rintro rfl
    cases h

theorem hexNumber?_hexDigit :
    ∀ n < 32, hexNumber? ['0', '0', hexDigit (n / 16), hexDigit (n % 16)] =
      some n := by
  decide

theorem fourHex_hexDigit {n : Nat} (h : n < 32) (t : Text) :
    fourHex ('0' :: '0' :: hexDigit (n / 16) :: hexDigit (n % 16) :: t) =
      .ok (n, t) := by
  have hsize : ¬ Text.byteSize
      ('0' :: '0' :: hexDigit (n / 16) :: hexDigit (n % 16) :: t) < 4 := by
    have hfirst := Char.utf8Size_pos (hexDigit (n / 16))
    have hsecond := Char.utf8Size_pos (hexDigit (n % 16))
    have hzero : '0'.utf8Size = 1 := rfl
    simp only [Text.byteSize_cons]
    omega
  rw [fourHex, if_neg hsize]
  simp only [hexNumber?_hexDigit n h]

private theorem unicodeEscape_hexDigit {n : Nat} (h : n < 32) (t : Text) :
    unicodeEscape ('0' :: '0' :: hexDigit (n / 16) :: hexDigit (n % 16) :: t) =
      .ok (Char.ofNat n, t) := by
  have htrailing : ¬ isTrailing n := fun hn => by
    have := hn.1
    omega
  have hleading : ¬ isLeading n := fun hn => by
    have := hn.1
    omega
  simp only [unicodeEscape, fourHex_hexDigit h, if_neg htrailing,
    if_neg hleading]

theorem lt_space_iff {c : Char} : c < ' ' ↔ c.toNat < 32 := by
  rw [Char.lt_def, UInt32.lt_iff_toNat_lt]
  rfl

private theorem not_control_of_escapeLetter? {l c : Char}
    (h : escapeLetter? l = some c) : ¬ l < ' ' := by
  unfold escapeLetter? at h
  split at h
  case h_9 => cases h
  all_goals decide

theorem not_control_hexDigit : ∀ n < 16, ¬ hexDigit n < ' ' := by
  decide

def NoControl (t : Text) : Prop := ∀ c ∈ t, ¬ c < ' '

instance (t : Text) : Decidable (NoControl t) :=
  List.decidableBAll (fun c => ¬ c < ' ') t

/-- A character stands for itself, or there is an escape for it. -/
inductive Spelled (c : Char) : Text → Prop
  | plain (hquote : c ≠ '"') (hbackslash : c ≠ '\\')
      (hspace : ¬ c < ' ') : Spelled c [c]
  | escaped {tail : Text} (hescape : ∀ t, escape (tail ++ t) = .ok (c, t))
      (hskip : ∀ t, skipEscape (tail ++ t) = .ok t) (htail : NoControl tail) :
      Spelled c ('\\' :: tail)

namespace Spelled

variable {c : Char} {written : Text}

private theorem letter {l : Char} (h : escapeLetter? l = some c) :
    Spelled c ['\\', l] :=
  .escaped (escape_letter h) (skipEscape_letter h)
    (List.forall_mem_singleton.mpr (not_control_of_escapeLetter? h))

private theorem control (h : c < ' ') :
    Spelled c
      ['\\', 'u', '0', '0', hexDigit (c.toNat / 16),
        hexDigit (c.toNat % 16)] := by
  have hlt : c.toNat < 32 := lt_space_iff.mp h
  refine .escaped (fun t => ?_) (fun t => ?_) ?_
  · have hescape := unicodeEscape_hexDigit hlt t
    rw [Char.ofNat_toNat] at hescape
    exact hescape
  · exact congrArg (Except.map Prod.snd) (fourHex_hexDigit hlt t)
  · have hhigh := not_control_hexDigit (c.toNat / 16) (by omega)
    have hlow := not_control_hexDigit (c.toNat % 16) (by omega)
    simp only [NoControl, List.forall_mem_cons]
    exact ⟨by decide, by decide, by decide, hhigh, hlow, nofun⟩

private theorem string (h : Spelled c written) (t : Text) :
    Json.string (written ++ t) = (Json.string t).map fun (s, rest) =>
      (c :: s, rest) := by
  cases h with
  | plain hquote hbackslash hspace =>
      exact string_plain hquote hbackslash hspace t
  | escaped hescape _ _ => exact string_escaped (hescape t)

private theorem skipString (h : Spelled c written) (t : Text) :
    Json.skipString (written ++ t) = Json.skipString t := by
  cases h with
  | plain hquote hbackslash hspace =>
      exact skipString_plain hquote hbackslash hspace t
  | escaped _ hskip _ => exact skipString_escaped (hskip t)

private theorem noControl (h : Spelled c written) : NoControl written := by
  cases h with
  | plain _ _ hspace => exact List.forall_mem_singleton.mpr hspace
  | escaped _ _ htail => exact List.forall_mem_cons.mpr ⟨by decide, htail⟩

end Spelled

theorem spelled_writeChar (c : Char) : Spelled c (writeChar c) := by
  rw [writeChar]
  split_ifs with htaken hback htab hfeed hform hreturn hcontrol
  · refine .letter ?_
    rcases htaken with rfl | rfl <;> rfl
  · exact hback ▸ .letter rfl
  · exact htab ▸ .letter rfl
  · exact hfeed ▸ .letter rfl
  · exact hform ▸ .letter rfl
  · exact hreturn ▸ .letter rfl
  · exact .control hcontrol
  · obtain ⟨hquote, hbackslash⟩ := not_or.mp htaken
    exact .plain hquote hbackslash hcontrol

/-! A whole string. -/

def stringTail (s : Text) : Text := s.flatMap writeChar ++ ['"']

theorem writeString_eq (s : Text) : writeString s = '"' :: stringTail s := rfl

theorem stringTail_cons (c : Char) (s : Text) :
    stringTail (c :: s) = writeChar c ++ stringTail s := by
  rw [stringTail, List.flatMap_cons, List.append_assoc, stringTail]

theorem string_stringTail (s rest : Text) :
    string (stringTail s ++ rest) = .ok (s, rest) := by
  induction s with
  | nil =>
      rw [stringTail, List.flatMap_nil, List.nil_append,
        List.singleton_append, string]
  | cons c s ih =>
      rw [stringTail_cons, List.append_assoc, (spelled_writeChar c).string, ih]
      rfl

theorem skipString_stringTail (s rest : Text) :
    skipString (stringTail s ++ rest) = .ok rest := by
  induction s with
  | nil =>
      rw [stringTail, List.flatMap_nil, List.nil_append, List.singleton_append,
        skipString]
  | cons c s ih =>
      rw [stringTail_cons, List.append_assoc,
        (spelled_writeChar c).skipString, ih]

theorem NoControl.append {t u : Text} (ht : NoControl t) (hu : NoControl u) :
    NoControl (t ++ u) :=
  List.forall_mem_append.mpr ⟨ht, hu⟩

theorem noControl_writeString (s : Text) : NoControl (writeString s) := by
  have hchars : NoControl (s.flatMap writeChar) := by
    intro c hc
    obtain ⟨d, _, hd⟩ := List.mem_flatMap.mp hc
    exact (spelled_writeChar d).noControl c hd
  exact List.forall_mem_cons.mpr ⟨by decide, hchars.append (by decide)⟩

end TextOverride.Json
