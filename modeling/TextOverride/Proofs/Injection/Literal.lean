import TextOverride.Proofs.Injection.Insertion

namespace TextOverride.Injection

def literal? : Text → Option (Text × Text)
  | [] => none
  | ['\\'] => none
  | '\\' :: taken :: rest =>
      (literal? rest).map fun (body, after) => ('\\' :: taken :: body, after)
  | c :: rest =>
      if c = '`' then some ([], rest)
      else (literal? rest).map fun (body, after) => (c :: body, after)

def unescape : Text → Text
  | [] => []
  | ['\\'] => ['\\']
  | '\\' :: taken :: rest => taken :: unescape rest
  | c :: rest => c :: unescape rest

private theorem literal?_taken (taken : Char) (rest : Text) :
    literal? ('\\' :: taken :: rest) =
      (literal? rest).map fun (body, after) =>
        ('\\' :: taken :: body, after) := rfl

private theorem literal?_close (rest : Text) :
    literal? ('`' :: rest) = some ([], rest) := rfl

private theorem literal?_plain {c : Char} (hbackslash : c ≠ '\\')
    (hdelimiter : c ≠ '`') (rest : Text) :
    literal? (c :: rest) =
      (literal? rest).map fun (body, after) => (c :: body, after) := by
  rw [literal?]
  · exact if_neg hdelimiter
  · exact fun hc _ => hbackslash hc
  · exact fun _ _ hc _ => hbackslash hc

private theorem unescape_taken (taken : Char) (rest : Text) :
    unescape ('\\' :: taken :: rest) = taken :: unescape rest := rfl

private theorem unescape_plain {c : Char} (hbackslash : c ≠ '\\')
    (rest : Text) :
    unescape (c :: rest) = c :: unescape rest := by
  rw [unescape]
  · exact fun hc _ => hbackslash hc
  · exact fun _ _ hc _ => hbackslash hc

theorem escape_cons (c : Char) (value : Text) :
    escape (c :: value) = escapeChar c ++ escape value := List.flatMap_cons

theorem escapeChar_taken {c : Char} (h : c = '\\' ∨ c = '`') :
    escapeChar c = ['\\', c] :=
  if_pos h

theorem escapeChar_plain {c : Char} (h : ¬ (c = '\\' ∨ c = '`')) :
    escapeChar c = [c] :=
  if_neg h

/-- The scan stands between two characters of the value at every step, so
whatever follows the closing backtick is not looked at. -/
theorem literal?_escape (value rest : Text) :
    literal? (escape value ++ '`' :: rest) = some (escape value, rest) := by
  induction value with
  | nil => exact literal?_close rest
  | cons c value ih =>
      rw [escape_cons]
      by_cases h : c = '\\' ∨ c = '`'
      · rw [escapeChar_taken h]
        simp only [List.cons_append, List.nil_append]
        rw [literal?_taken, ih]
        rfl
      · obtain ⟨hbackslash, hdelimiter⟩ := not_or.mp h
        rw [escapeChar_plain h, List.singleton_append, List.cons_append,
          literal?_plain hbackslash hdelimiter, ih]
        rfl

private theorem unescape_escape (value : Text) :
    unescape (escape value) = value := by
  induction value with
  | nil => rfl
  | cons c value ih =>
      rw [escape_cons]
      by_cases h : c = '\\' ∨ c = '`'
      · rw [escapeChar_taken h]
        simp only [List.cons_append, List.nil_append]
        rw [unescape_taken, ih]
      · rw [escapeChar_plain h, List.singleton_append,
          unescape_plain (not_or.mp h).1, ih]

def EndsLine (after : Text) : Prop :=
  after = [] ∨ ∃ (ending : LineEnding) (rest : Text),
    after = ending.text ++ rest

private theorem exists_injected (content : Text)
    (anchor : Fin content.pieces.length) (name value : Text) :
    ∃ start tail rest, insert content.pieces anchor name value =
        start ++ (assignment name value ++ tail) :: rest ∧
      start.length = anchor.val + 1 ∧ EndsLine (tail ++ rest.flatten) := by
  have hlt : anchor.val + 1 ≤ content.pieces.length := anchor.isLt
  cases h : LineEnding.of? (content.pieces.get anchor) with
  | some ending =>
      refine ⟨content.pieces.take (anchor + 1), ending.text,
        content.pieces.drop (anchor + 1), insert_of_terminated h name value,
        List.length_take_of_le hlt, .inr ⟨ending, _, rfl⟩⟩
  | none =>
      refine ⟨content.pieces.take anchor ++
        [content.pieces.get anchor ++
          (LineEnding.dominant content.pieces).text], [],
        content.pieces.drop (anchor + 1), ?_, ?_,
        .inl (beyond_of_unterminated h)⟩
      · rw [insert_of_unterminated h, List.append_nil, List.append_assoc,
          List.singleton_append]
      · rw [List.length_append, List.length_take_of_le
          (Nat.le_of_lt anchor.isLt),
          List.length_singleton]

/-- What an insertion writes is read back as the value, whatever the value is
and whatever the file holds: the literal closes where the assignment closes it,
and only the marker stands between it and the end of its line. -/
theorem insert_literal_read_back (content : Text)
    (anchor : Fin content.pieces.length) (name value : Text) :
    ∃ start element rest body after,
      insert content.pieces anchor name value = start ++ element :: rest ∧
      start.length = anchor.val + 1 ∧ assignment name value <+: element ∧
      assignment name value =
        name ++ " = `".toList ++ body ++ "`; // Injected by patcher.py".toList ∧
      element ++ rest.flatten =
        name ++ " = `".toList ++
          (body ++ '`' :: ("; // Injected by patcher.py".toList ++ after)) ∧
      literal? (body ++ '`' ::
          ("; // Injected by patcher.py".toList ++ after)) =
        some (body, "; // Injected by patcher.py".toList ++ after) ∧
      unescape body = value ∧ EndsLine after := by
  obtain ⟨start, tail, rest, hinsert, hstart, hends⟩ :=
    exists_injected content anchor name value
  have hassignment : assignment name value =
      name ++ " = `".toList ++ escape value ++
      "`; // Injected by patcher.py".toList := by
    simp only [assignment, List.append_assoc]
    rfl
  refine ⟨start, _, rest, escape value, tail ++ rest.flatten, hinsert, hstart,
    List.prefix_append _ tail, hassignment, ?_, literal?_escape value _,
    unescape_escape value,
    hends⟩
  rw [hassignment]
  simp only [List.append_assoc]
  rfl

end TextOverride.Injection
