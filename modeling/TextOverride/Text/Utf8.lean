import TextOverride.Text

namespace TextOverride.Utf8

abbrev Bytes := List UInt8

/-- What is wrong after the longest valid prefix: `ill` counts the bytes that
form no character, `cut` is a beginning of a character at the end of the
bytes. -/
inductive Flaw
  | ill (length : Nat)
  | cut
  deriving DecidableEq, Repr

structure Fault where
  validUpTo : Nat
  flaw : Flaw
  deriving DecidableEq, Repr

def Fault.message (f : Fault) : Text :=
  match f.flaw with
  | .ill n =>
      "invalid utf-8 sequence of ".toList ++ Text.ofNat n ++
        " bytes from index ".toList ++ Text.ofNat f.validUpTo
  | .cut =>
      "incomplete utf-8 byte sequence from index ".toList ++
        Text.ofNat f.validUpTo

def encodeChar (c : Char) : Bytes :=
  let n := c.toNat
  if n < 0x80 then [n.toUInt8]
  else if n < 0x800 then [(0xC0 + n / 0x40).toUInt8, (0x80 + n % 0x40).toUInt8]
  else if n < 0x10000 then
    [(0xE0 + n / 0x1000).toUInt8, (0x80 + n / 0x40 % 0x40).toUInt8,
      (0x80 + n % 0x40).toUInt8]
  else
    [(0xF0 + n / 0x40000).toUInt8, (0x80 + n / 0x1000 % 0x40).toUInt8,
      (0x80 + n / 0x40 % 0x40).toUInt8, (0x80 + n % 0x40).toUInt8]

def encode (t : Text) : Bytes := t.flatMap encodeChar

def Continues (b : UInt8) : Prop := 0x80 ≤ b ∧ b ≤ 0xBF

instance (b : UInt8) : Decidable (Continues b) :=
  inferInstanceAs (Decidable (_ ∧ _))

/-- No overlong form and no surrogate follows a first byte of three. -/
def SecondOfThree (a b : UInt8) : Prop :=
  if a = 0xE0 then 0xA0 ≤ b ∧ b ≤ 0xBF
  else if a = 0xED then 0x80 ≤ b ∧ b ≤ 0x9F
  else Continues b

instance (a b : UInt8) : Decidable (SecondOfThree a b) := by
  unfold SecondOfThree; infer_instance

/-- No overlong form follows a first byte of four, and nothing above
U+10FFFF. -/
def SecondOfFour (a b : UInt8) : Prop :=
  if a = 0xF0 then 0x90 ≤ b ∧ b ≤ 0xBF
  else if a = 0xF4 then 0x80 ≤ b ∧ b ≤ 0x8F
  else Continues b

instance (a b : UInt8) : Decidable (SecondOfFour a b) := by
  unfold SecondOfFour; infer_instance

def low (b : UInt8) : Nat := b.toNat % 0x40

def char2 (a b : UInt8) : Char := Char.ofNat (a.toNat % 0x20 * 0x40 + low b)

def char3 (a b c : UInt8) : Char :=
  Char.ofNat (a.toNat % 0x10 * 0x1000 + low b * 0x40 + low c)

def char4 (a b c d : UInt8) : Char :=
  Char.ofNat (a.toNat % 8 * 0x40000 + low b * 0x1000 + low c * 0x40 + low d)

def next? (a : UInt8) (rest : Bytes) : Except Flaw (Char × Bytes) :=
  if a < 0x80 then .ok (Char.ofNat a.toNat, rest)
  else if 0xC2 ≤ a ∧ a ≤ 0xDF then
    match rest with
    | [] => .error .cut
    | b :: rest =>
        if Continues b then .ok (char2 a b, rest) else .error (.ill 1)
  else if 0xE0 ≤ a ∧ a ≤ 0xEF then
    match rest with
    | [] => .error .cut
    | b :: rest =>
        if SecondOfThree a b then
          match rest with
          | [] => .error .cut
          | c :: rest =>
              if Continues c then .ok (char3 a b c, rest) else .error (.ill 2)
        else .error (.ill 1)
  else if 0xF0 ≤ a ∧ a ≤ 0xF4 then
    match rest with
    | [] => .error .cut
    | b :: rest =>
        if SecondOfFour a b then
          match rest with
          | [] => .error .cut
          | c :: rest =>
              if Continues c then
                match rest with
                | [] => .error .cut
                | d :: rest =>
                    if Continues d then .ok (char4 a b c d, rest)
                      else .error (.ill 3)
              else .error (.ill 2)
        else .error (.ill 1)
  else .error (.ill 1)

theorem next?_length {a : UInt8} {bytes rest : Bytes} {c : Char}
    (h : next? a bytes = .ok (c, rest)) : rest.length ≤ bytes.length := by
  unfold next? at h
  grind

def decodeFrom (offset : Nat) (bytes : Bytes) : Except Fault Text :=
  match bytes with
  | [] => .ok []
  | a :: rest =>
      match h : next? a rest with
      | .error flaw => .error ⟨offset, flaw⟩
      | .ok (c, rest') =>
          have := next?_length h
          (decodeFrom (offset + c.utf8Size) rest').map (c :: ·)
  termination_by bytes.length
  decreasing_by exact Nat.lt_succ_of_le this

def decode (bytes : Bytes) : Except Fault Text := decodeFrom 0 bytes

end TextOverride.Utf8
