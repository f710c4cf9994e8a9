namespace TextOverride

abbrev Text := List Char

/-- The property White_Space of Unicode. -/
def isBlank (c : Char) : Bool :=
  (9 ≤ c.val && c.val ≤ 13) || c.val == 0x20 || c.val == 0x85 ||
    c.val == 0xA0 ||
    c.val == 0x1680 || (0x2000 ≤ c.val && c.val ≤ 0x200A) || c.val == 0x2028 ||
    c.val == 0x2029 || c.val == 0x202F || c.val == 0x205F || c.val == 0x3000

namespace Text

def Blank (t : Text) : Prop := ∀ c ∈ t, isBlank c = true

def blank (t : Text) : Bool := t.all isBlank

theorem blank_eq_true_iff {t : Text} : t.blank = true ↔ t.Blank := by
  simp [blank, Blank]

instance (t : Text) : Decidable t.Blank := decidable_of_iff _ blank_eq_true_iff

def ofNat (n : Nat) : Text := Nat.toDigits 10 n

def byteSize : Text → Nat
  | [] => 0
  | c :: t => c.utf8Size + byteSize t

@[simp] theorem byteSize_nil : byteSize [] = 0 := rfl

@[simp] theorem byteSize_cons (c : Char) (t : Text) :
    byteSize (c :: t) = c.utf8Size + byteSize t := rfl

@[simp] theorem byteSize_append (s t : Text) :
    byteSize (s ++ t) = byteSize s + byteSize t := by
  induction s with
  | nil => simp
  | cons c s ih => simp [ih, Nat.add_assoc]

def after? : (start : Text) → Text → Option Text
  | [], t => some t
  | _ :: _, [] => none
  | p :: start, c :: t => if p = c then after? start t else none

theorem after?_eq_some_iff {start t rest : Text} :
    after? start t = some rest ↔ t = start ++ rest := by
  fun_induction after? start t with
  | case1 => simp [eq_comm]
  | case2 => simp
  | case3 p start t ih => simp [ih]
  | case4 p start c t h => simp [Ne.symm h]

/-! Lines. `pieces` keeps every line feed at the end of its line, `lines` drops
it together with one carriage return before it. -/

def prepend (c : Char) : List Text → List Text
  | [] => [[c]]
  | piece :: rest => (c :: piece) :: rest

/-- Cuts after every line feed; the empty text has no pieces. -/
def pieces : Text → List Text
  | [] => []
  | c :: rest =>
      if c = '\n' then [c] :: pieces rest else prepend c (pieces rest)

/-- Drops a final line feed, and a carriage return directly before it. -/
def chomp : Text → Text
  | [] => []
  | ['\n'] => []
  | ['\r', '\n'] => []
  | c :: rest => c :: chomp rest

def lines (t : Text) : List Text := (pieces t).map chomp

def unlines (ls : List Text) : Text := ls.flatMap (· ++ ['\n'])

@[simp] theorem pieces_nil : pieces [] = [] := rfl

@[simp] theorem pieces_newline (t : Text) :
    pieces ('\n' :: t) = ['\n'] :: pieces t := rfl

theorem pieces_cons {c : Char} (h : c ≠ '\n') (t : Text) :
    pieces (c :: t) = prepend c (pieces t) := by
  simp [pieces, h]

@[simp] theorem flatten_prepend (c : Char) (ls : List Text) :
    (prepend c ls).flatten = c :: ls.flatten := by
  cases ls <;> rfl

@[simp] theorem flatten_pieces (t : Text) : (pieces t).flatten = t := by
  induction t with
  | nil => rfl
  | cons c rest ih => unfold pieces; split <;> simp [ih]

end Text

end TextOverride
