import TextOverride.Proofs.Json.Strings

namespace TextOverride

namespace Text

theorem isDigit_of_mem_ofNat {n : Nat} {c : Char} (h : c ∈ ofNat n) :
    c.isDigit = true :=
  Nat.isDigit_of_mem_toDigits (by decide) (by decide) h

theorem exists_ofNat_eq (n : Nat) :
    ∃ c rest, ofNat n = c :: rest ∧ c.isDigit = true := by
  obtain ⟨c, rest, hdigits⟩ :=
    List.exists_cons_of_ne_nil (Nat.toDigits_ne_nil (n := n) (b := 10))
  have hmem : c ∈ ofNat n := by
    rw [ofNat, hdigits]
    exact List.mem_cons_self
  exact ⟨c, rest, hdigits, isDigit_of_mem_ofNat hmem⟩

private theorem digitChar_ne_zero :
    ∀ n < 10, 0 < n → Nat.digitChar n ≠ '0' := by
  decide

private theorem head?_ofNat_ne_zero {n : Nat} (h : 0 < n) :
    (ofNat n).head? ≠ some '0' := by
  induction n using Nat.strongRecOn with
  | ind n ih =>
      by_cases hlt : n < 10
      · rw [ofNat, Nat.toDigits_of_lt_base hlt, List.head?_cons]
        exact fun hzero => digitChar_ne_zero n hlt h (Option.some.inj hzero)
      · have hquotient : 0 < n / 10 := by omega
        have hhead := ih (n / 10) (by omega) hquotient
        obtain ⟨c, rest, hdigits, _⟩ := exists_ofNat_eq (n / 10)
        rw [hdigits, List.head?_cons] at hhead
        rw [ofNat, Nat.toDigits_of_base_le (by decide) (by omega), ← ofNat,
          hdigits, List.cons_append, List.head?_cons]
        exact hhead

/-- A zero stands alone, and every other number starts with another digit. -/
theorem ofNat_cases (n : Nat) :
    ofNat n = ['0'] ∨ ∃ c rest, ofNat n = c :: rest ∧ c ≠ '0' ∧
      c.isDigit = true := by
  by_cases h : n = 0
  · rw [h]
    exact .inl rfl
  · obtain ⟨c, rest, hdigits, hdigit⟩ := exists_ofNat_eq n
    refine .inr ⟨c, rest, hdigits, ?_, hdigit⟩
    rintro rfl
    exact head?_ofNat_ne_zero (Nat.pos_of_ne_zero h)
      (congrArg List.head? hdigits)

end Text

namespace Json

def DigitFree (t : Text) : Prop := ∀ c ∈ t.head?, c.isDigit = false

/-- The text goes on with no numeral before it. -/
def Delimited (t : Text) : Prop :=
  ∀ c ∈ t.head?, c.isDigit = false ∧ c ≠ '.' ∧ c ≠ 'e' ∧ c ≠ 'E'

theorem delimited_cons {c : Char}
    (h : c.isDigit = false ∧ c ≠ '.' ∧ c ≠ 'e' ∧ c ≠ 'E') (t : Text) :
    Delimited (c :: t) := by
  rintro _ ⟨⟩
  exact h

theorem Delimited.digitFree {t : Text} (h : Delimited t) : DigitFree t :=
  fun c hc => (h c hc).1

section Digits

variable {digits t : Text}

theorem takeWhile_isDigit (hdigits : ∀ c ∈ digits, c.isDigit = true)
    (ht : DigitFree t) :
    (digits ++ t).takeWhile Char.isDigit = digits := by
  rw [List.takeWhile_append_of_pos hdigits]
  cases t with
  | nil => rw [List.takeWhile_nil, List.append_nil]
  | cons c t =>
      rw [List.takeWhile_cons_of_neg (by simp [ht c rfl]), List.append_nil]

theorem dropWhile_isDigit (hdigits : ∀ c ∈ digits, c.isDigit = true)
    (ht : DigitFree t) :
    (digits ++ t).dropWhile Char.isDigit = t := by
  rw [List.dropWhile_append_of_pos hdigits]
  cases t with
  | nil => rfl
  | cons c t => rw [List.dropWhile_cons_of_neg (by simp [ht c rfl])]

end Digits

theorem takeWhile_ofNat (n : Nat) {t : Text} (ht : DigitFree t) :
    (Text.ofNat n ++ t).takeWhile Char.isDigit = Text.ofNat n :=
  takeWhile_isDigit (fun _ => Text.isDigit_of_mem_ofNat) ht

theorem dropWhile_ofNat (n : Nat) {t : Text} (ht : DigitFree t) :
    (Text.ofNat n ++ t).dropWhile Char.isDigit = t :=
  dropWhile_isDigit (fun _ => Text.isDigit_of_mem_ofNat) ht

private theorem whole_ofNat (atEnd : Cause) (n : Nat) {t : Text}
    (ht : DigitFree t) :
    whole atEnd (Text.ofNat n ++ t) = .ok (Text.ofNat n, t) := by
  have htake := takeWhile_ofNat n ht
  have hdrop := dropWhile_ofNat n ht
  rcases Text.ofNat_cases n with hzero | ⟨c, rest, hdigits, hne, hdigit⟩
  · rw [hzero, List.singleton_append]
    cases t with
    | nil => rfl
    | cons c t => simp [whole, ht c rfl]
  · rw [hdigits, List.cons_append] at htake hdrop ⊢
    rw [whole]
    · rw [if_pos hdigit, htake, hdrop]
    · exact hne

namespace Number

def fractionText (n : Number) : Text :=
  if n.fraction = [] then [] else '.' :: n.fraction.map digit

def exponentPart (n : Number) : Text := (n.exponent.map exponentText).getD []

def magnitude (n : Number) : Text :=
  Text.ofNat n.whole ++ (n.fractionText ++ n.exponentPart)

theorem write_eq (n : Number) :
    n.write = (if n.negative then ['-'] else []) ++ n.magnitude := by
  simp only [write, magnitude, fractionText, exponentPart, List.append_assoc]

def numeral (n : Number) : Numeral where
  whole := Text.ofNat n.whole
  fraction := n.fraction.map digit
  exponent := n.exponent.map fun e => (decide (0 ≤ e), Text.ofNat e.natAbs)

private theorem isDigit_digit : ∀ d, (digit d).isDigit = true := by
  decide

variable {t : Text}

private theorem exponent_exponentText (atEnd : Cause) (e : Int)
    (ht : DigitFree t) :
    Json.exponent atEnd (exponentText e ++ t) =
      .ok (some (decide (0 ≤ e), Text.ofNat e.natAbs), t) := by
  have htake := takeWhile_ofNat e.natAbs ht
  have hdrop := dropWhile_ofNat e.natAbs ht
  obtain ⟨c, rest, hdigits, hdigit⟩ := Text.exists_ofNat_eq e.natAbs
  have hread (sign : Bool) :
      exponentDigits atEnd sign (Text.ofNat e.natAbs ++ t) =
        .ok (some (sign, Text.ofNat e.natAbs), t) := by
    rw [hdigits, List.cons_append] at htake hdrop ⊢
    rw [exponentDigits, if_pos hdigit, htake, hdrop]
  rw [exponentText, List.cons_append, List.cons_append, Json.exponent,
    if_pos (.inl rfl)]
  by_cases h : e < 0
  · rw [if_pos h, List.singleton_append, List.cons_append, exponentSign, hread,
      decide_eq_false (by omega)]
  · have hplus : exponentSign (Text.ofNat e.natAbs ++ t) =
        (true, Text.ofNat e.natAbs ++ t) := by
      rw [hdigits, List.cons_append, exponentSign]
      · rintro _ ⟨⟩
        cases hdigit
      · rintro _ ⟨⟩
        cases hdigit
    rw [if_neg h, List.nil_append, hplus, hread, decide_eq_true (by omega)]

private theorem exponent_exponentPart (atEnd : Cause) (n : Number)
    (ht : Delimited t) :
    Json.exponent atEnd (n.exponentPart ++ t) =
      .ok (n.numeral.exponent, t) := by
  rw [exponentPart, numeral]
  cases n.exponent with
  | none =>
      cases t with
      | nil => rfl
      | cons c t =>
          obtain ⟨_, _, hlower, hupper⟩ := ht c rfl
          exact if_neg (not_or.mpr ⟨hlower, hupper⟩)
  | some e => exact exponent_exponentText atEnd e ht.digitFree

theorem exponentPart_append_cases (n : Number) (t : Text) :
    n.exponentPart ++ t = t ∨ ∃ rest, n.exponentPart ++ t = 'e' :: rest := by
  rw [exponentPart]
  cases n.exponent with
  | none => exact .inl rfl
  | some e => exact .inr ⟨_, rfl⟩

theorem digitFree_exponentPart (n : Number) (ht : Delimited t) :
    DigitFree (n.exponentPart ++ t) := by
  rcases n.exponentPart_append_cases t with h | ⟨rest, h⟩
  · rw [h]
    exact ht.digitFree
  · rw [h]
    rintro _ ⟨⟩
    rfl

private theorem fraction_fractionText (atEnd : Cause) (n : Number)
    (ht : Delimited t) :
    Json.fraction atEnd (n.fractionText ++ (n.exponentPart ++ t)) =
      .ok (n.numeral.fraction, n.exponentPart ++ t) := by
  have hfree := n.digitFree_exponentPart ht
  rw [fractionText, numeral]
  cases hfraction : n.fraction with
  | nil =>
      rw [if_pos rfl, List.nil_append]
      rcases n.exponentPart_append_cases t with h | ⟨rest, h⟩
      · rw [h]
        cases t with
        | nil => rfl
        | cons c t =>
            rw [Json.fraction]
            · rfl
            · rintro _ ⟨⟩
              exact (ht '.' rfl).2.1 rfl
      · rw [h]
        rfl
  | cons d ds =>
      have hdigits : ∀ c ∈ (d :: ds).map digit, c.isDigit = true := by
        intro c hc
        obtain ⟨d, _, rfl⟩ := List.mem_map.mp hc
        exact isDigit_digit d
      have htake := takeWhile_isDigit hdigits hfree
      have hdrop := dropWhile_isDigit hdigits hfree
      rw [if_neg (List.cons_ne_nil d ds), List.cons_append, Json.fraction,
        htake, hdrop]
      rfl

theorem numeral_magnitude (atEnd : Cause) (n : Number) (ht : Delimited t) :
    Json.numeral atEnd (n.magnitude ++ t) = .ok (n.numeral, t) := by
  have hfree : DigitFree (n.fractionText ++ (n.exponentPart ++ t)) := by
    rw [fractionText]
    split
    · exact n.digitFree_exponentPart ht
    · rintro _ ⟨⟩
      rfl
  rw [magnitude, List.append_assoc, List.append_assoc]
  simp only [Json.numeral, whole_ofNat atEnd n.whole hfree,
    n.fraction_fractionText atEnd ht, n.exponent_exponentPart atEnd ht, bind,
    Except.bind]
  rfl

private theorem noControl_ofNat (n : Nat) : NoControl (Text.ofNat n) := by
  intro c hc hlt
  have hdigit := Text.isDigit_of_mem_ofNat hc
  rw [lt_space_iff] at hlt
  simp only [Char.isDigit, Bool.and_eq_true, decide_eq_true_eq,
    UInt32.le_iff_toNat_le] at hdigit
  have hzero : 48 ≤ c.toNat := hdigit.1
  omega

theorem noControl_write (n : Number) : NoControl n.write := by
  have hfraction : NoControl n.fractionText := by
    rw [fractionText]
    split
    · exact nofun
    · refine List.forall_mem_cons.mpr ⟨by decide, fun c hc => ?_⟩
      obtain ⟨d, _, rfl⟩ := List.mem_map.mp hc
      exact not_control_hexDigit d (by omega)
  have hexponent : NoControl n.exponentPart := by
    rw [exponentPart]
    cases n.exponent with
    | none => exact nofun
    | some e =>
        refine List.forall_mem_cons.mpr ⟨by decide,
          NoControl.append ?_ (noControl_ofNat e.natAbs)⟩
        split <;> decide
  rw [write_eq]
  refine NoControl.append ?_
    ((noControl_ofNat n.whole).append (hfraction.append hexponent))
  split <;> decide

theorem write_cases (n : Number) :
    (n.negative = true ∧ n.write = '-' :: n.magnitude) ∨
      n.negative = false ∧ n.write = n.magnitude ∧
        ∃ c rest, n.magnitude = c :: rest ∧ c.isDigit = true := by
  rw [write_eq]
  cases n.negative with
  | true => exact .inl ⟨rfl, rfl⟩
  | false =>
      obtain ⟨c, rest, hdigits, hdigit⟩ := Text.exists_ofNat_eq n.whole
      refine .inr ⟨rfl, rfl, c, rest ++ (n.fractionText ++ n.exponentPart),
        ?_, hdigit⟩
      rw [magnitude, hdigits, List.cons_append]

end Number

end Json

end TextOverride
