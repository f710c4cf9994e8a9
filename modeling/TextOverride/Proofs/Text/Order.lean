import TextOverride.Proofs.Text.Utf8

namespace TextOverride.Utf8

/-- Where the bytes first differ, the ones of the left are less. -/
inductive Precedes : Bytes → Bytes → Prop
  | here {a b : UInt8} {s t : Bytes} (h : a < b) : Precedes (a :: s) (b :: t)
  | there {a : UInt8} {s t : Bytes} (h : Precedes s t) : Precedes (a :: s)
      (a :: t)

theorem Precedes.append_lt {s t : Bytes} (h : Precedes s t) (s' t' : Bytes) :
    s ++ s' < t ++ t' := by
  induction h with
  | here h => exact List.cons_lt_cons_iff.mpr (.inl h)
  | there _ ih => exact List.cons_lt_cons_iff.mpr (.inr ⟨rfl, ih⟩)

/-- What comes later counts only where the first bytes agree. -/
theorem precedes_of_le {a b : Nat} {s t : Bytes} (ha : a < 0x100)
    (hb : b < 0x100) (hle : a ≤ b) (h : a = b → Precedes s t) :
    Precedes (a.toUInt8 :: s) (b.toUInt8 :: t) := by
  rcases Nat.eq_or_lt_of_le hle with heq | hlt
  · rw [heq]
    exact .there (h heq)
  · refine .here ?_
    rwa [UInt8.lt_iff_toNat_lt, toNat_toUInt8 ha, toNat_toUInt8 hb]

theorem precedes_of_lt {a b : Nat} {s t : Bytes} (hb : b < 0x100)
    (hlt : a < b) :
    Precedes (a.toUInt8 :: s) (b.toUInt8 :: t) :=
  precedes_of_le (Nat.lt_trans hlt hb) hb (Nat.le_of_lt hlt) fun heq =>
    absurd heq (Nat.ne_of_lt hlt)

theorem encodeChar_precedes {c d : Char} (h : c < d) :
    Precedes (encodeChar c) (encodeChar d) := by
  have hlt : c.toNat < d.toNat := h
  have hvalid : d.toNat < 0x110000 := by
    have hd : d.toNat < 0xD800 ∨
        0xDFFF < d.toNat ∧ d.toNat < 0x110000 := d.valid
    omega
  simp only [encodeChar]
  generalize c.toNat = n at hlt
  generalize d.toNat = m at hlt hvalid
  -- Longer forms have greater first bytes; in forms of one length the digits
  -- count from the left.
  split
  case isTrue =>
    split
    · exact precedes_of_lt (by omega) hlt
    · split
      · exact precedes_of_lt (by omega) (by omega)
      · split
        · exact precedes_of_lt (by omega) (by omega)
        · exact precedes_of_lt (by omega) (by omega)
  case isFalse =>
    rw [if_neg (show ¬ m < 0x80 by omega)]
    split
    case isTrue =>
      split
      · exact precedes_of_le (by omega) (by omega) (by omega) fun _ =>
          precedes_of_lt (by omega) (by omega)
      · split
        · exact precedes_of_lt (by omega) (by omega)
        · exact precedes_of_lt (by omega) (by omega)
    case isFalse =>
      rw [if_neg (show ¬ m < 0x800 by omega)]
      split
      case isTrue =>
        split
        · exact precedes_of_le (by omega) (by omega) (by omega) fun _ =>
            precedes_of_le (by omega) (by omega) (by omega) fun _ =>
              precedes_of_lt (by omega) (by omega)
        · exact precedes_of_lt (by omega) (by omega)
      case isFalse =>
        rw [if_neg (show ¬ m < 0x10000 by omega)]
        exact precedes_of_le (by omega) (by omega) (by omega) fun _ =>
          precedes_of_le (by omega) (by omega) (by omega) fun _ =>
            precedes_of_le (by omega) (by omega) (by omega) fun _ =>
              precedes_of_lt (by omega) (by omega)

theorem encode_lt_encode {s t : Text} (h : s < t) : encode s < encode t := by
  induction h with
  | @nil c t =>
      obtain ⟨a, tail, hchar, _⟩ := next?_encodeChar c []
      rw [encode_cons, hchar]
      exact .nil
  | cons _ ih =>
      rw [encode_cons, encode_cons]
      exact List.append_left_lt ih
  | rel h =>
      rw [encode_cons, encode_cons]
      exact (encodeChar_precedes h).append_lt _ _

end TextOverride.Utf8
