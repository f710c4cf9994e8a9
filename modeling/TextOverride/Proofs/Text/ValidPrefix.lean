import Mathlib.Order.Bounds.Defs
import TextOverride.Proofs.Text.Utf8

namespace TextOverride.Utf8

theorem encodeChar_eq (c : Char) : encodeChar c = String.utf8EncodeChar c := by
  have hvalid : c.toNat < 0xD800 ∨
      0xDFFF < c.toNat ∧ c.toNat < 0x110000 := c.valid
  have hval : c.val.toNat = c.toNat := rfl
  have hbyte {n m : Nat} (h : n = m) : n.toUInt8 = UInt8.ofNat m := h ▸ rfl
  simp only [encodeChar, String.utf8EncodeChar, hval]
  generalize c.toNat = n at hvalid
  by_cases hone : n < 0x80
  · rw [if_pos hone, if_pos (show n ≤ 127 by omega)]
  rw [if_neg hone, if_neg (show ¬ n ≤ 127 by omega)]
  by_cases htwo : n < 0x800
  · rw [if_pos htwo, if_pos (show n ≤ 2047 by omega)]
    simp only [List.cons.injEq, and_true]
    exact ⟨hbyte (by omega), hbyte (by omega)⟩
  rw [if_neg htwo, if_neg (show ¬ n ≤ 2047 by omega)]
  by_cases hthree : n < 0x10000
  · rw [if_pos hthree, if_pos (show n ≤ 65535 by omega)]
    simp only [List.cons.injEq, and_true]
    exact ⟨hbyte (by omega), hbyte (by omega), hbyte (by omega)⟩
  · rw [if_neg hthree, if_neg (show ¬ n ≤ 65535 by omega)]
    simp only [List.cons.injEq, and_true]
    exact ⟨hbyte (by omega), hbyte (by omega), hbyte (by omega),
      hbyte (by omega)⟩

theorem length_encodeChar (c : Char) : (encodeChar c).length = c.utf8Size := by
  rw [encodeChar_eq, String.length_utf8EncodeChar]

theorem encode_eq (t : Text) : encode t = t.flatMap String.utf8EncodeChar := by
  rw [encode, funext encodeChar_eq]

theorem exists_of_decodeFrom_error {offset : Nat} {bytes : Bytes}
    {fault : Fault} (h : decodeFrom offset bytes = .error fault) :
    ∃ t a rest, bytes = encode t ++ a :: rest ∧
      fault.validUpTo = offset + (encode t).length ∧
      next? a rest = .error fault.flaw := by
  fun_induction decodeFrom offset bytes with
  | case1 => cases h
  | case2 offset a rest flaw hnext =>
      cases h
      exact ⟨[], a, rest, rfl, rfl, hnext⟩
  | case3 offset a bytes c rest hnext hlength ih =>
      cases hrest : decodeFrom (offset + c.utf8Size) rest with
      | ok t =>
          rw [hrest] at h
          cases h
      | error found =>
          rw [hrest] at h
          cases h
          obtain ⟨t, b, later, rfl, hoffset, hstop⟩ := ih hrest
          refine ⟨c :: t, b, later, ?_, ?_, hstop⟩
          · rw [encodeChar_of_next? hnext, encode_cons, List.append_assoc]
          · rw [hoffset, encode_cons, List.length_append, length_encodeChar,
              Nat.add_assoc]

/-- Two texts at the start of the same bytes have the same characters for as
long as both go on, so neither goes on past a place where no character can be
read. -/
theorem length_encode_le {a : UInt8} {rest after : Bytes} {flaw : Flaw}
    {s t : Text} (hstop : next? a rest = .error flaw)
    (h : encode s ++ after = encode t ++ a :: rest) :
    (encode s).length ≤ (encode t).length := by
  induction t generalizing s with
  | nil =>
      cases s with
      | nil => exact Nat.le_refl _
      | cons c s =>
          obtain ⟨b, tail, hchar, hnext⟩ :=
            next?_encodeChar c (encode s ++ after)
          rw [encode_cons, List.append_assoc, hchar] at h
          rw [List.cons_append] at h
          injection h with hhead htail
          rw [hhead, htail] at hnext
          rw [hnext] at hstop
          cases hstop
  | cons d t ih =>
      cases s with
      | nil => exact Nat.zero_le _
      | cons c s =>
          obtain ⟨b, tail, hchar, hnext⟩ :=
            next?_encodeChar c (encode s ++ after)
          obtain ⟨b', tail', hchar', hnext'⟩ :=
            next?_encodeChar d (encode t ++ a :: rest)
          rw [encode_cons, encode_cons, List.append_assoc, List.append_assoc,
            hchar, hchar', List.cons_append, List.cons_append, List.cons.injEq]
              at h
          -- The same bytes begin with one character only.
          rw [h.1, h.2, hnext', Except.ok.injEq, Prod.mk.injEq] at hnext
          obtain ⟨rfl, hlater⟩ := hnext
          rw [encode_cons, encode_cons, List.length_append, List.length_append]
          exact Nat.add_le_add_left (ih hlater.symm) _

def Valid (bytes : Bytes) : Prop :=
  ∃ t : Text, bytes = t.flatMap String.utf8EncodeChar

theorem valid_iff {bytes : Bytes} : Valid bytes ↔ ∃ t, bytes = encode t :=
  exists_congr fun t => by rw [encode_eq]

theorem decode_eq_ok_iff {bytes : Bytes} {t : Text} :
    decode bytes = .ok t ↔ bytes = encode t := by
  constructor
  · exact encode_of_decode
  · rintro rfl
    exact decode_encode t

theorem isGreatest_of_decode {bytes : Bytes} {fault : Fault}
    (h : decode bytes = .error fault) :
    IsGreatest {n | n ≤ bytes.length ∧ Valid (bytes.take n)}
      fault.validUpTo := by
  obtain ⟨t, a, rest, rfl, hoffset, hstop⟩ := exists_of_decodeFrom_error h
  rw [hoffset, Nat.zero_add]
  constructor
  · refine ⟨?_, valid_iff.mpr ⟨t, List.take_left⟩⟩
    rw [List.length_append]
    exact Nat.le_add_right _ _
  · rintro n ⟨hle, hvalid⟩
    obtain ⟨s, hs⟩ := valid_iff.mp hvalid
    have hbytes :
        encode s ++ (encode t ++ a :: rest).drop n = encode t ++ a :: rest := by
      rw [← hs, List.take_append_drop]
    have hlength := length_encode_le hstop hbytes
    rwa [← hs, List.length_take_of_le hle] at hlength

end TextOverride.Utf8
