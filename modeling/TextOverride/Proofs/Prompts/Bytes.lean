import Mathlib
import TextOverride.Error
import TextOverride.Prompts
import TextOverride.Proofs.Text.ValidPrefix

namespace TextOverride.Prompts

private theorem parseBytes_eq_ok_iff {bytes : Utf8.Bytes} {prompts : Prompts} :
    parseBytes bytes = .ok prompts ↔
      ∃ t, bytes = Utf8.encode t ∧ prompts = parse t := by
  simp only [← Utf8.decode_eq_ok_iff, parseBytes]
  cases Utf8.decode bytes with
  | error fault => simp [Except.map]
  | ok t => simp [Except.map, eq_comm]

private theorem exists_fault_of_not_valid {bytes : Utf8.Bytes}
    (h : ¬ Utf8.Valid bytes) :
    ∃ fault, Utf8.decode bytes = .error fault ∧
      parseBytes bytes = .error fault := by
  cases hdecode : Utf8.decode bytes with
  | ok t =>
      exact absurd (Utf8.valid_iff.mpr ⟨t, Utf8.decode_eq_ok_iff.mp hdecode⟩) h
  | error fault => exact ⟨fault, rfl, by rw [parseBytes, hdecode]; rfl⟩

/-- Bytes are parsed exactly if they are the UTF-8 of a text, and then as that
text. Any other bytes are refused, and the error names the greatest number of
bytes from their start on that are the UTF-8 of a text. -/
theorem parseBytes_or_longest_valid (bytes : Utf8.Bytes) :
    (∀ prompts, parseBytes bytes = .ok prompts ↔
      ∃ t : Text, bytes = t.flatMap String.utf8EncodeChar ∧ prompts = parse t) ∧
    ((¬ ∃ t : Text, bytes = t.flatMap String.utf8EncodeChar) →
      ∃ e n, (parseBytes bytes).mapError Error.promptFileNotUtf8 = .error e ∧
        e.code = .parseFailed ∧ e.report.detail =
          "byte offset ".toList ++ Text.ofNat n ∧
        IsGreatest {n | n ≤ bytes.length ∧
          ∃ t : Text, bytes.take n = t.flatMap String.utf8EncodeChar} n) := by
  constructor
  · intro prompts
    simp only [parseBytes_eq_ok_iff, Utf8.encode_eq]
  · intro h
    obtain ⟨fault, hdecode, hparse⟩ := exists_fault_of_not_valid h
    refine ⟨.promptFileNotUtf8 fault, fault.validUpTo, ?_, rfl, rfl,
      Utf8.isGreatest_of_decode hdecode⟩
    rw [hparse]
    rfl

/-- A key line, and then a surrogate that is cut off. -/
def surrogateBytes : Utf8.Bytes := [0x61, 0x3A, 0x0A, 0xC3, 0xA9, 0xED, 0xA0]

theorem parseBytes_or_longest_valid_surrogate :
    (¬ ∃ t : Text, surrogateBytes = t.flatMap String.utf8EncodeChar) ∧
      ∃ e, (parseBytes surrogateBytes).mapError Error.promptFileNotUtf8 =
        .error e ∧
        e.code = .parseFailed ∧ e.report.detail = "byte offset 5".toList ∧
        IsGreatest {n | n ≤ surrogateBytes.length ∧
          ∃ t : Text, surrogateBytes.take n = t.flatMap String.utf8EncodeChar}
            5 := by
  have hparse : parseBytes surrogateBytes = .error ⟨5, .ill 1⟩ := by cbv
  obtain ⟨hok, hfault⟩ := parseBytes_or_longest_valid surrogateBytes
  have hinvalid : ¬ ∃ t : Text,
      surrogateBytes = t.flatMap String.utf8EncodeChar := by
    rintro ⟨t, ht⟩
    cases hparse.symm.trans ((hok (parse t)).mpr ⟨t, ht, rfl⟩)
  obtain ⟨e, n, hresult, hcode, hdetail, hgreatest⟩ := hfault hinvalid
  have hdecode : Utf8.decode surrogateBytes = .error ⟨5, .ill 1⟩ := by cbv
  have hn : n = 5 := hgreatest.unique (Utf8.isGreatest_of_decode hdecode)
  subst hn
  have hoffset :
      "byte offset ".toList ++ Text.ofNat 5 = "byte offset 5".toList := by cbv
  exact ⟨hinvalid, e, hresult, hcode, hdetail.trans hoffset, hgreatest⟩

end TextOverride.Prompts
