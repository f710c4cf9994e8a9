import TextOverride.Text.Utf8

namespace TextOverride.Utf8

theorem toNat_ofNat {n : Nat} (h : n.isValidChar) :
    (Char.ofNat n).toNat = n := by
  rw [Char.ofNat, dif_pos h]
  rfl

theorem toUInt8_eq {n : Nat} {b : UInt8} (h : n = b.toNat) : n.toUInt8 = b := by
  rw [h]
  exact UInt8.ofNat_toNat

theorem toNat_toUInt8 {n : Nat} (h : n < 0x100) : n.toUInt8.toNat = n :=
  UInt8.toNat_ofNat_of_lt' h

theorem Continues.toNat {b : UInt8} (h : Continues b) :
    b.toNat = 0x80 + low b ∧ low b < 0x40 := by
  simp only [Continues, UInt8.le_iff_toNat_le, UInt8.reduceToNat] at h
  rw [low]
  omega

theorem SecondOfThree.toNat {a b : UInt8} (h : SecondOfThree a b) :
    b.toNat = 0x80 + low b ∧ low b < 0x40 ∧
      (a.toNat = 0xE0 → 0x20 ≤ low b) ∧ (a.toNat = 0xED → low b < 0x20) := by
  simp only [SecondOfThree, Continues, UInt8.le_iff_toNat_le, ← UInt8.toNat_inj,
    UInt8.reduceToNat] at h
  rw [low]
  split at h
  · omega
  · split at h
    · omega
    · omega

theorem SecondOfFour.toNat {a b : UInt8} (h : SecondOfFour a b) :
    b.toNat = 0x80 + low b ∧ low b < 0x40 ∧
      (a.toNat = 0xF0 → 0x10 ≤ low b) ∧ (a.toNat = 0xF4 → low b < 0x10) := by
  simp only [SecondOfFour, Continues, UInt8.le_iff_toNat_le, ← UInt8.toNat_inj,
    UInt8.reduceToNat] at h
  rw [low]
  split at h
  · omega
  · split at h
    · omega
    · omega

/-! What is read was a shortest form. -/

theorem encodeChar_one {a : UInt8} (ha : a < 0x80) :
    encodeChar (Char.ofNat a.toNat) = [a] := by
  have ha' : a.toNat < 0x80 := UInt8.lt_iff_toNat_lt.mp ha
  rw [encodeChar, toNat_ofNat (.inl (by omega)), if_pos ha', toUInt8_eq rfl]

theorem encodeChar_char2 {a b : UInt8} (ha : 0xC2 ≤ a ∧ a ≤ 0xDF)
    (hb : Continues b) :
    encodeChar (char2 a b) = [a, b] := by
  simp only [UInt8.le_iff_toNat_le, UInt8.reduceToNat] at ha
  have hb' := hb.toNat
  rw [char2, encodeChar, toNat_ofNat (.inl (by omega)), if_neg (by omega),
    if_pos (by omega)]
  simp only [List.cons.injEq, and_true]
  exact ⟨toUInt8_eq (by omega), toUInt8_eq (by omega)⟩

theorem encodeChar_char3 {a b c : UInt8} (ha : 0xE0 ≤ a ∧ a ≤ 0xEF)
    (hb : SecondOfThree a b) (hc : Continues c) :
    encodeChar (char3 a b c) = [a, b, c] := by
  simp only [UInt8.le_iff_toNat_le, UInt8.reduceToNat] at ha
  have hb' := hb.toNat
  have hc' := hc.toNat
  have hvalid :
      (a.toNat % 0x10 * 0x1000 + low b * 0x40 + low c).isValidChar := by
    rw [Nat.isValidChar]
    omega
  rw [char3, encodeChar, toNat_ofNat hvalid, if_neg (by omega),
    if_neg (by omega), if_pos (by omega)]
  simp only [List.cons.injEq, and_true]
  exact ⟨toUInt8_eq (by omega), toUInt8_eq (by omega), toUInt8_eq (by omega)⟩

theorem encodeChar_char4 {a b c d : UInt8} (ha : 0xF0 ≤ a ∧ a ≤ 0xF4)
    (hb : SecondOfFour a b) (hc : Continues c) (hd : Continues d) :
    encodeChar (char4 a b c d) = [a, b, c, d] := by
  simp only [UInt8.le_iff_toNat_le, UInt8.reduceToNat] at ha
  have hb' := hb.toNat
  have hc' := hc.toNat
  have hd' := hd.toNat
  have hvalid :
      (a.toNat % 8 * 0x40000 + low b * 0x1000 + low c * 0x40 +
        low d).isValidChar := by
    rw [Nat.isValidChar]
    omega
  rw [char4, encodeChar, toNat_ofNat hvalid, if_neg (by omega),
    if_neg (by omega), if_neg (by omega)]
  simp only [List.cons.injEq, and_true]
  exact ⟨toUInt8_eq (by omega), toUInt8_eq (by omega), toUInt8_eq (by omega),
    toUInt8_eq (by omega)⟩

theorem encodeChar_of_next? {a : UInt8} {bytes rest : Bytes} {c : Char}
    (h : next? a bytes = .ok (c, rest)) :
    a :: bytes = encodeChar c ++ rest := by
  revert h
  fun_cases next? a bytes with
  | case1 _ ha =>
      intro h
      cases h
      rw [encodeChar_one ha]
      rfl
  | case3 _ ha b rest hb =>
      intro h
      cases h
      rw [encodeChar_char2 ha hb]
      rfl
  | case7 _ _ ha b hb c rest hc =>
      intro h
      cases h
      rw [encodeChar_char3 ha hb hc]
      rfl
  | case13 _ _ _ ha b hb c hc d rest hd =>
      intro h
      cases h
      rw [encodeChar_char4 ha hb hc hd]
      rfl
  | _ =>
      intro h
      cases h

/-! Every shortest form is read. -/

theorem next?_two {a b : UInt8} (ha : 0xC2 ≤ a ∧ a ≤ 0xDF) (hb : Continues b)
    (rest : Bytes) :
    next? a (b :: rest) = .ok (char2 a b, rest) := by
  have hone : ¬ a < 0x80 := by
    simp only [UInt8.le_iff_toNat_le, UInt8.lt_iff_toNat_lt, UInt8.reduceToNat]
      at ha ⊢
    omega
  rw [next?.eq_def, if_neg hone, if_pos ha]
  exact if_pos hb

theorem next?_three {a b c : UInt8} (ha : 0xE0 ≤ a ∧ a ≤ 0xEF)
    (hb : SecondOfThree a b) (hc : Continues c) (rest : Bytes) :
    next? a (b :: c :: rest) = .ok (char3 a b c, rest) := by
  have hone : ¬ a < 0x80 := by
    simp only [UInt8.le_iff_toNat_le, UInt8.lt_iff_toNat_lt, UInt8.reduceToNat]
      at ha ⊢
    omega
  have htwo : ¬ (0xC2 ≤ a ∧ a ≤ 0xDF) := by
    simp only [UInt8.le_iff_toNat_le, UInt8.reduceToNat] at ha ⊢
    omega
  rw [next?.eq_def, if_neg hone, if_neg htwo, if_pos ha]
  simp only [if_pos hb, if_pos hc]

theorem next?_four {a b c d : UInt8} (ha : 0xF0 ≤ a ∧ a ≤ 0xF4)
    (hb : SecondOfFour a b) (hc : Continues c) (hd : Continues d)
    (rest : Bytes) :
    next? a (b :: c :: d :: rest) = .ok (char4 a b c d, rest) := by
  have hone : ¬ a < 0x80 := by
    simp only [UInt8.le_iff_toNat_le, UInt8.lt_iff_toNat_lt, UInt8.reduceToNat]
      at ha ⊢
    omega
  have htwo : ¬ (0xC2 ≤ a ∧ a ≤ 0xDF) := by
    simp only [UInt8.le_iff_toNat_le, UInt8.reduceToNat] at ha ⊢
    omega
  have hthree : ¬ (0xE0 ≤ a ∧ a ≤ 0xEF) := by
    simp only [UInt8.le_iff_toNat_le, UInt8.reduceToNat] at ha ⊢
    omega
  rw [next?.eq_def, if_neg hone, if_neg htwo, if_neg hthree, if_pos ha]
  simp only [if_pos hb, if_pos hc, if_pos hd]

theorem continues_of_mod (n : Nat) : Continues (0x80 + n % 0x40).toUInt8 := by
  have hb := toNat_toUInt8 (n := 0x80 + n % 0x40) (by omega)
  simp only [Continues, UInt8.le_iff_toNat_le, hb, UInt8.reduceToNat]
  omega

theorem low_of_mod (n : Nat) : low (0x80 + n % 0x40).toUInt8 = n % 0x40 := by
  rw [low, toNat_toUInt8 (by omega)]
  omega

theorem next?_encoded_one {n : Nat} (h : n < 0x80) (rest : Bytes) :
    next? n.toUInt8 rest = .ok (Char.ofNat n, rest) := by
  have ha : n.toUInt8.toNat = n := toNat_toUInt8 (by omega)
  rw [next?.eq_def, if_pos, ha]
  rw [UInt8.lt_iff_toNat_lt, ha]
  exact h

theorem next?_encoded_two {n : Nat} (hlow : 0x80 ≤ n) (hhigh : n < 0x800)
    (rest : Bytes) :
    next? (0xC0 + n / 0x40).toUInt8 ((0x80 + n % 0x40).toUInt8 :: rest) =
      .ok (Char.ofNat n, rest) := by
  have ha := toNat_toUInt8 (n := 0xC0 + n / 0x40) (by omega)
  have hvalue : (0xC0 + n / 0x40) % 0x20 * 0x40 + n % 0x40 = n := by omega
  rw [next?_two _ (continues_of_mod n), char2, ha, low_of_mod, hvalue]
  simp only [UInt8.le_iff_toNat_le, ha, UInt8.reduceToNat]
  omega

theorem next?_encoded_three {n : Nat} (hlow : 0x800 ≤ n) (hhigh : n < 0x10000)
    (hsurrogate : n < 0xD800 ∨ 0xDFFF < n) (rest : Bytes) :
    next? (0xE0 + n / 0x1000).toUInt8
        ((0x80 + n / 0x40 % 0x40).toUInt8 ::
          (0x80 + n % 0x40).toUInt8 :: rest) =
      .ok (Char.ofNat n, rest) := by
  have ha := toNat_toUInt8 (n := 0xE0 + n / 0x1000) (by omega)
  have hb := toNat_toUInt8 (n := 0x80 + n / 0x40 % 0x40) (by omega)
  have hvalue : (0xE0 + n / 0x1000) % 0x10 * 0x1000 + n / 0x40 % 0x40 * 0x40 +
      n % 0x40 = n := by
    omega
  rw [next?_three _ _ (continues_of_mod n), char3, ha, low_of_mod,
    low_of_mod, hvalue]
  · simp only [UInt8.le_iff_toNat_le, ha, UInt8.reduceToNat]
    omega
  · simp only [SecondOfThree, Continues, UInt8.le_iff_toNat_le,
      ← UInt8.toNat_inj, ha, hb, UInt8.reduceToNat]
    split
    · omega
    · split
      · omega
      · omega

theorem next?_encoded_four {n : Nat} (hlow : 0x10000 ≤ n) (hhigh : n < 0x110000)
    (rest : Bytes) :
    next? (0xF0 + n / 0x40000).toUInt8
        ((0x80 + n / 0x1000 % 0x40).toUInt8 ::
          (0x80 + n / 0x40 % 0x40).toUInt8 ::
          (0x80 + n % 0x40).toUInt8 :: rest) =
      .ok (Char.ofNat n, rest) := by
  have ha := toNat_toUInt8 (n := 0xF0 + n / 0x40000) (by omega)
  have hb := toNat_toUInt8 (n := 0x80 + n / 0x1000 % 0x40) (by omega)
  have hvalue :
      (0xF0 + n / 0x40000) % 8 * 0x40000 + n / 0x1000 % 0x40 * 0x1000 +
      n / 0x40 % 0x40 * 0x40 + n % 0x40 = n := by
    omega
  rw [next?_four _ _ (continues_of_mod _) (continues_of_mod n), char4, ha,
    low_of_mod, low_of_mod, low_of_mod, hvalue]
  · simp only [UInt8.le_iff_toNat_le, ha, UInt8.reduceToNat]
    omega
  · simp only [SecondOfFour, Continues, UInt8.le_iff_toNat_le,
      ← UInt8.toNat_inj, ha, hb, UInt8.reduceToNat]
    split
    · omega
    · split
      · omega
      · omega

theorem next?_encodeChar (c : Char) (rest : Bytes) :
    ∃ a tail, encodeChar c = a :: tail ∧
      next? a (tail ++ rest) = .ok (c, rest) := by
  have hvalid : c.toNat < 0xD800 ∨
      0xDFFF < c.toNat ∧ c.toNat < 0x110000 := c.valid
  suffices h : ∃ a tail, encodeChar c = a :: tail ∧
      next? a (tail ++ rest) = .ok (Char.ofNat c.toNat, rest) by
    rwa [Char.ofNat_toNat] at h
  rw [encodeChar]
  by_cases hone : c.toNat < 0x80
  · exact ⟨_, _, if_pos hone, next?_encoded_one hone rest⟩
  by_cases htwo : c.toNat < 0x800
  · exact ⟨_, _, (if_neg hone).trans (if_pos htwo),
      next?_encoded_two (Nat.le_of_not_lt hone) htwo rest⟩
  by_cases hthree : c.toNat < 0x10000
  · exact ⟨_, _, (if_neg hone).trans ((if_neg htwo).trans (if_pos hthree)),
      next?_encoded_three (Nat.le_of_not_lt htwo) hthree (by omega) rest⟩
  · exact ⟨_, _, (if_neg hone).trans ((if_neg htwo).trans (if_neg hthree)),
      next?_encoded_four (Nat.le_of_not_lt hthree) (by omega) rest⟩

theorem encode_cons (c : Char) (t : Text) :
    encode (c :: t) = encodeChar c ++ encode t :=
  List.flatMap_cons

theorem decodeFrom_cons_ok {offset : Nat} {a : UInt8} {bytes rest : Bytes}
    {c : Char} (h : next? a bytes = .ok (c, rest)) :
    decodeFrom offset (a :: bytes) =
      (decodeFrom (offset + c.utf8Size) rest).map (c :: ·) := by
  rw [decodeFrom.eq_def]
  split
  case h_1 hnil => cases hnil
  case h_2 a' bytes' hcons =>
    cases hcons
    split
    case h_1 hread =>
      rw [h] at hread
      cases hread
    case h_2 hread =>
      rw [h] at hread
      cases hread
      rfl

theorem decodeFrom_encode (offset : Nat) (t : Text) :
    decodeFrom offset (encode t) = .ok t := by
  induction t generalizing offset with
  | nil => rw [encode, List.flatMap_nil, decodeFrom]
  | cons c t ih =>
      obtain ⟨a, tail, hchar, hnext⟩ := next?_encodeChar c (encode t)
      rw [encode_cons, hchar, List.cons_append, decodeFrom_cons_ok hnext, ih]
      rfl

theorem encode_of_decodeFrom {offset : Nat} {bytes : Bytes} {t : Text}
    (h : decodeFrom offset bytes = .ok t) : bytes = encode t := by
  fun_induction decodeFrom offset bytes generalizing t with
  | case1 =>
      cases h
      rfl
  | case2 => cases h
  | case3 offset a bytes c rest hnext hlength ih =>
      cases hrest : decodeFrom (offset + c.utf8Size) rest with
      | error fault =>
          rw [hrest] at h
          cases h
      | ok t' =>
          rw [hrest] at h
          cases h
          rw [encode_cons, ← ih hrest]
          exact encodeChar_of_next? hnext

theorem decode_encode (t : Text) : decode (encode t) = .ok t :=
  decodeFrom_encode 0 t

theorem encode_of_decode {bytes : Bytes} {t : Text} (h : decode bytes = .ok t) :
    bytes = encode t :=
  encode_of_decodeFrom h

theorem encode_injective {s t : Text} (h : encode s = encode t) : s = t := by
  have hdecode : decode (encode s) = .ok t := h ▸ decode_encode t
  rw [decode_encode] at hdecode
  exact Except.ok.inj hdecode

end TextOverride.Utf8
