import TextOverride.Proofs.Injection.Placement
import TextOverride.Proofs.Run.Steps
import TextOverride.Proofs.Statement.Scan

namespace TextOverride

open LineScan (Found)

variable {content name last : Text} {before body after : List Text}

namespace Injection

theorem getElem?_of_split {start : List Text}
    (hpieces : content.pieces = start ++ last :: after) :
    content.pieces[start.length]? = some last := by
  rw [hpieces, List.getElem?_append_right (Nat.le_refl _), Nat.sub_self,
    List.getElem?_cons_zero]

theorem get_of_split {start : List Text} {anchor : Fin content.pieces.length}
    (hpieces : content.pieces = start ++ last :: after)
    (hanchor : anchor.val = start.length) :
    content.pieces.get anchor = last := by
  have hlast := getElem?_of_split hpieces
  rw [← hanchor] at hlast
  exact (List.getElem?_eq_some_iff.mp hlast).2

theorem take_of_split {start : List Text}
    (hpieces : content.pieces = start ++ last :: after) :
    content.pieces.take (start.length + 1) = start ++ [last] := by
  rw [hpieces, List.append_cons]
  exact List.take_left' (by simp)

theorem drop_of_split {start : List Text}
    (hpieces : content.pieces = start ++ last :: after) :
    content.pieces.drop (start.length + 1) = after := by
  rw [hpieces, List.append_cons]
  exact List.drop_left' (by simp)

end Injection

namespace Settings

variable [LineScan.Patterns] (config : Config) (prompts : Prompts)

theorem patch_of_found
    (hpieces : content.pieces = before ++ (body ++ last :: after))
    (hfound : Found name before body last) (value : Text) :
    ∃ anchor : Fin content.pieces.length,
      anchor.val = before.length + body.length ∧
      (config.settings prompts).patch content name value =
        .ok (.ok ⟨before.length + body.length,
          (Injection.insert content.pieces anchor name value).flatten⟩) := by
  have hlocate := hfound.locate after
  rw [← hpieces] at hlocate
  rcases patch_cases (s := config.settings prompts) LineScan.locator_bounded
    content name value with
    ⟨reason, hmissed, _⟩ | ⟨statement, hstatement, hlt, hpatch⟩
  · cases hlocate.symm.trans hmissed
  · cases hlocate.symm.trans hstatement
    exact ⟨_, rfl, hpatch⟩

theorem patch_of_terminated {ending : LineEnding}
    (hpieces : content.pieces = before ++ (body ++ last :: after))
    (hfound : Found name before body last)
    (hending : LineEnding.of? last = some ending) (value : Text) :
    ∃ text : Text, (config.settings prompts).patch content name value =
        .ok (.ok ⟨before.length + body.length, text⟩) ∧
      text.pieces = before ++ (body ++ last ::
        ((Injection.assignment name value ++ ending.text).pieces ++
          after)) := by
  obtain ⟨anchor, hanchor, hpatch⟩ :=
    patch_of_found config prompts hpieces hfound value
  refine ⟨_, hpatch, ?_⟩
  rw [← List.append_assoc] at hpieces
  rw [← List.length_append] at hanchor
  have hget := Injection.get_of_split hpieces hanchor
  rw [Injection.pieces_insert_of_terminated (hget ▸ hending), hanchor,
    Injection.take_of_split hpieces, Injection.drop_of_split hpieces]
  simp only [List.append_assoc, List.singleton_append]

theorem patch_of_unterminated
    (hpieces : content.pieces = before ++ (body ++ last :: after))
    (hfound : Found name before body last)
    (hending : LineEnding.of? last = none) (value : Text) :
    after = [] ∧ ∃ text : Text,
      (config.settings prompts).patch content name value =
        .ok (.ok ⟨before.length + body.length, text⟩) ∧
      text.pieces = before ++ (body ++
        (last ++ (LineEnding.dominant content.pieces).text) ::
          (Injection.assignment name value).pieces) := by
  obtain ⟨anchor, hanchor, hpatch⟩ :=
    patch_of_found config prompts hpieces hfound value
  rw [← List.append_assoc] at hpieces
  rw [← List.length_append] at hanchor
  have hget := Injection.get_of_split hpieces hanchor
  constructor
  · rw [← Injection.drop_of_split hpieces, ← hanchor, ← Injection.pieces_beyond,
      Injection.beyond_of_unterminated (hget ▸ hending)]
    rfl
  · have htake :
        content.pieces.take (before ++ body).length = before ++ body := by
      rw [hpieces, List.take_left]
    refine ⟨_, hpatch, ?_⟩
    rw [Injection.pieces_insert_of_unterminated (hget ▸ hending), hget,
      hanchor, htake, List.append_assoc]

end Settings

/-! One name with one value after another. -/

/-- Every value in turn is a patch, with the statement in the same place. -/
inductive Repatched (s : Settings) (name : Text) (statement : Statement) :
    List Text → Text → Text → Prop
  | nil (content : Text) : Repatched s name statement [] content content
  | cons {value : Text} {values : List Text} {content middle final : Text}
      (hlocate : s.locator.locate content.pieces name = .ok statement)
      (hpatch : s.patch content name value = .ok (.ok ⟨statement.last, middle⟩))
      (hlater : Repatched s name statement values middle final) :
      Repatched s name statement (value :: values) content final

theorem flatten_of_pieces {lines : List Text}
    (hpieces : content.pieces = lines) :
    lines.flatten = content := by
  rw [← hpieces, Text.flatten_pieces]

/-- A new assignment pushes the older ones down by its own lines. -/
theorem repatched_of_terminated [LineScan.Patterns] (config : Config)
    (prompts : Prompts) {ending : LineEnding}
    (hfound : Found name before body last)
    (hending : LineEnding.of? last = some ending) (values : List Text)
    (hpieces : content.pieces = before ++ (body ++ last :: after)) :
    Repatched (config.settings prompts)
      name ⟨before.length, before.length + body.length⟩ values
      content ((before ++ (body ++ [last])).flatten ++
        values.reverse.flatMap
          (fun value => Injection.assignment name value ++ ending.text) ++
          after.flatten) := by
  induction values generalizing content after with
  | nil =>
      have hcontent : (before ++ (body ++ [last])).flatten ++ [] ++
          after.flatten = content := by
        rw [← flatten_of_pieces hpieces]
        simp only [List.flatten_append, List.flatten_cons, List.flatten_nil,
          List.append_assoc, List.append_nil]
      rw [List.reverse_nil, List.flatMap_nil, hcontent]
      exact .nil content
  | cons value values ih =>
      obtain ⟨text, hpatch, htext⟩ :=
        Settings.patch_of_terminated config prompts hpieces hfound hending value
      have hblock : values.reverse.flatMap
            (fun value => Injection.assignment name value ++ ending.text) ++
          ((Injection.assignment name value ++ ending.text).pieces ++
            after).flatten =
          (value :: values).reverse.flatMap
            (fun value => Injection.assignment name value ++ ending.text) ++
            after.flatten := by
        rw [List.reverse_cons, List.flatMap_append, List.flatMap_singleton,
          List.flatten_append, Text.flatten_pieces]
        simp only [List.append_assoc]
      refine .cons (by rw [hpieces]; exact hfound.locate after) hpatch ?_
      rw [List.append_assoc, ← hblock, ← List.append_assoc]
      exact ih htext

private theorem intercalate_concat (separator : Text) (lines : List Text)
    (line : Text) :
    separator.intercalate (lines ++ [line]) =
      lines.flatMap (· ++ separator) ++ line := by
  induction lines with
  | nil => exact List.intercalate_singleton
  | cons first lines ih =>
      rw [List.cons_append, List.intercalate_cons_of_ne_nil (by simp), ih,
        List.flatMap_cons]
      simp only [List.append_assoc]

/-- An unterminated end of a text gets its ending from the first assignment. For
every later one it is a terminated line. -/
theorem repatched_of_unterminated [LineScan.Patterns] (config : Config)
    (prompts : Prompts) (hfound : Found name before body last)
    (hending : LineEnding.of? last = none) {values : List Text}
    (hvalues : values ≠ [])
    (hpieces : content.pieces = before ++ (body ++ last :: after)) :
    ∃ separator : LineEnding,
      LineEnding.of? (last ++ (LineEnding.dominant content.pieces).text) =
        some separator ∧
      Repatched (config.settings prompts)
        name ⟨before.length, before.length + body.length⟩ values
        content (content ++ (LineEnding.dominant content.pieces).text ++
          separator.text.intercalate
            (values.reverse.map (Injection.assignment name))) := by
  obtain ⟨value, values, rfl⟩ := List.exists_cons_of_ne_nil hvalues
  obtain ⟨rfl, text, hpatch, htext⟩ :=
    Settings.patch_of_unterminated config prompts hpieces hfound hending value
  generalize LineEnding.dominant content.pieces = lead at htext ⊢
  obtain ⟨separator, hseparator⟩ :=
    LineEnding.exists_of?_eq (lead.feed_suffix_text last)
  have hfound' : Found name before body (last ++ lead.text) :=
    hfound.append_last (lead.not_mem_text (by decide) (by decide))
  have hlater :=
    repatched_of_terminated config prompts hfound' hseparator values htext
  have hfinal : (before ++ (body ++ [last ++ lead.text])).flatten ++
        values.reverse.flatMap
        (fun value => Injection.assignment name value ++ separator.text) ++
          (Injection.assignment name value).pieces.flatten =
      content ++ lead.text ++
        separator.text.intercalate
        ((value :: values).reverse.map (Injection.assignment name)) := by
    rw [List.reverse_cons, List.map_append, List.map_singleton,
      intercalate_concat, List.flatMap_map, Text.flatten_pieces,
      ← flatten_of_pieces hpieces]
    simp only [List.flatten_append, List.flatten_cons, List.flatten_nil,
      List.append_assoc, List.append_nil]
  rw [hfinal] at hlater
  exact ⟨separator, hseparator,
    .cons (by rw [hpieces]; exact hfound.locate []) hpatch hlater⟩

/-- Patching again and again finds the statement where it was, and puts the
newest assignment directly behind it. The oldest one stays the last. -/
theorem repatched_newest_first [LineScan.Patterns] (config : Config)
    (prompts : Prompts) {statement : Statement}
    (hlocate : LineScan.locate content.pieces name = .ok statement)
    {values : List Text} (hvalues : values ≠ []) :
    ∃ line final, content.pieces[statement.last]? = some line ∧
      Repatched (config.settings prompts) name statement values content final ∧
      (∀ ending, LineEnding.of? line = some ending →
        final = Injection.upTo content.pieces statement.last ++
          values.reverse.flatMap
            (fun value => Injection.assignment name value ++ ending.text) ++
          Injection.beyond content.pieces statement.last) ∧
      (LineEnding.of? line = none →
        Injection.beyond content.pieces statement.last = [] ∧
        ∃ separator : LineEnding,
          LineEnding.of? (line ++ (LineEnding.dominant content.pieces).text) =
            some separator ∧
          final = content ++ (LineEnding.dominant content.pieces).text ++
            separator.text.intercalate
              (values.reverse.map (Injection.assignment name))) := by
  obtain ⟨before, body, last, after, hpieces, hfound, rfl⟩ :=
    LineScan.locate_eq_ok_iff.mp hlocate
  have hsplit : content.pieces = (before ++ body) ++ last :: after := by
    rw [hpieces, List.append_assoc]
  have hline : content.pieces[before.length + body.length]? = some last := by
    rw [← List.length_append]
    exact Injection.getElem?_of_split hsplit
  have hbeyond : Injection.beyond content.pieces (before.length + body.length) =
      after.flatten := by
    rw [Injection.beyond, ← List.length_append, Injection.drop_of_split hsplit]
  refine ⟨last, ?_⟩
  cases hending : LineEnding.of? last with
  | some ending =>
      refine ⟨_, hline, repatched_of_terminated config prompts hfound hending
        values hpieces, ?_, ?_⟩
      · intro other hother
        cases hother
        dsimp only
        rw [hbeyond, Injection.upTo, ← List.length_append,
          Injection.take_of_split hsplit, List.append_assoc before]
      · intro hnone
        cases hnone
  | none =>
      obtain ⟨separator, hseparator, hrepatched⟩ :=
        repatched_of_unterminated config prompts hfound hending hvalues hpieces
      obtain ⟨rfl, _⟩ :=
        Settings.patch_of_unterminated config prompts hpieces hfound hending []
      refine ⟨_, hline, hrepatched, ?_, ?_⟩
      · intro other hother
        cases hother
      · intro _
        exact ⟨hbeyond, separator, hseparator, rfl⟩

def patchRun : Config := .patching ".".toList ["A".toList, "B".toList]

/-- The first value looks like a declaration of the name. -/
theorem repatched_newest_first_unterminated :
    LineScan.locate (Text.pieces "const A = 1;".toList) "A".toList =
      .ok ⟨0, 0⟩ ∧
      ["const A = 2;".toList, "b".toList] ≠ [] ∧
      Repatched (patchRun.settings .empty) "A".toList ⟨0, 0⟩
        ["const A = 2;".toList, "b".toList] "const A = 1;".toList
        ("const A = 1;\nA = `b`; // Injected by patcher.py\n" ++
          "A = `const A = 2;`; // Injected by patcher.py").toList := by
  have hlocate : LineScan.locate (Text.pieces "const A = 1;".toList)
      "A".toList = .ok ⟨0, 0⟩ := rfl
  have hvalues : ["const A = 2;".toList, "b".toList] ≠ [] :=
    List.cons_ne_nil _ _
  obtain ⟨line, final, hline, hrepatched, _, hunterminated⟩ :=
    repatched_newest_first patchRun .empty hlocate hvalues
  cases hline
  obtain ⟨_, separator, hseparator, hfinal⟩ := hunterminated (by decide)
  cases hseparator
  cases hfinal
  exact ⟨hlocate, hvalues, hrepatched⟩

/-! Two names. -/

/-- A line ending cannot make a line of the text a declaration. -/
theorem not_declares_ending {ending : LineEnding}
    (h : ∀ line ∈ content.pieces, LineScan.declares name line = false) :
    ∀ line ∈ (content ++ ending.text).pieces,
      LineScan.declares name line = false := by
  have hending : '=' ∉ ending.text :=
    ending.not_mem_text (by decide) (by decide)
  intro line hline
  rcases Text.mem_pieces_append_ending hline with
    hmem | ⟨start, hmem, rfl⟩ | rfl
  · exact h line hmem
  · rw [LineScan.declares_append hending]
    exact h start hmem
  · exact LineScan.declares_append hending name []

private theorem exists_ending_of_split {start : List Text}
    (hpieces : content.pieces = start ++ last :: after) (hafter : after ≠ []) :
    ∃ ending, LineEnding.of? last = some ending := by
  have hlt : start.length + 1 < content.pieces.length := by
    have := List.length_pos_iff.mpr hafter
    rw [hpieces, List.length_append, List.length_cons]
    omega
  obtain ⟨line, _, hline⟩ := Text.pieces_terminated hlt
  have hlast :=
    (List.getElem?_eq_some_iff.mp (Injection.getElem?_of_split hpieces)).2
  rw [← hlast, hline]
  exact LineEnding.exists_of?_eq (List.suffix_append line ['\n'])

/-- With the first assignment in it, the text still has the second statement
behind the first one; with the second assignment in it, the first statement is
where it was. -/
theorem exists_patched_both [LineScan.Patterns] (config : Config)
    (prompts : Prompts) {name₁ name₂ : Text}
    {before body₁ between body₂ after : List Text} {last₁ last₂ : Text}
    {ending₁ ending₂ : LineEnding}
    (hpieces : content.pieces =
      before ++ (body₁ ++ last₁ :: (between ++ (body₂ ++ last₂ :: after))))
    (hfound₁ : Found name₁ before body₁ last₁)
    (hending₁ : LineEnding.of? last₁ = some ending₁)
    (hfound₂ : Found name₂ (before ++ (body₁ ++ last₁ :: between)) body₂ last₂)
    (hending₂ : LineEnding.of? last₂ = some ending₂) (value₁ value₂ : Text)
    (hclear :
      ∀ line ∈ (Injection.assignment name₁ value₁ ++ ending₁.text).pieces,
      LineScan.declares name₂ line = false) :
    ∃ (first second final : Text) (last : Nat),
      (config.settings prompts).patch content name₁ value₁ =
        .ok (.ok ⟨before.length + body₁.length, first⟩) ∧
      (config.settings prompts).patch first name₂ value₂ =
        .ok (.ok ⟨last, final⟩) ∧
      (config.settings prompts).patch content name₂ value₂ =
        .ok (.ok
          ⟨(before ++ (body₁ ++ last₁ :: between)).length + body₂.length,
            second⟩) ∧
      (config.settings prompts).patch second name₁ value₁ =
        .ok (.ok ⟨before.length + body₁.length, final⟩) ∧
      final.pieces = before ++ (body₁ ++ last₁ ::
        ((Injection.assignment name₁ value₁ ++ ending₁.text).pieces ++
          (between ++ (body₂ ++ last₂ ::
          ((Injection.assignment name₂ value₂ ++ ending₂.text).pieces ++
            after))))) := by
  have hpieces₂ : content.pieces =
      (before ++ (body₁ ++ last₁ :: between)) ++ (body₂ ++ last₂ :: after) := by
    rw [hpieces]
    simp only [List.append_assoc, List.cons_append]
  obtain ⟨first, hfirst, hpieces_first⟩ :=
    Settings.patch_of_terminated config prompts hpieces hfound₁ hending₁ value₁
  obtain ⟨second, hsecond, hpieces_second⟩ :=
    Settings.patch_of_terminated config prompts hpieces₂ hfound₂ hending₂ value₂
  -- The first assignment comes before the second statement, and does not
  -- declare its name.
  have hfound₂' : Found name₂ ((before ++ (body₁ ++ [last₁])) ++
      ((Injection.assignment name₁ value₁ ++ ending₁.text).pieces ++ between))
        body₂ last₂ := by
    rw [List.append_cons body₁, ← List.append_assoc before] at hfound₂
    exact hfound₂.insert_before hclear
  have hsplit_first : first.pieces = ((before ++ (body₁ ++ [last₁])) ++
      ((Injection.assignment name₁ value₁ ++ ending₁.text).pieces ++
        between)) ++
        (body₂ ++ last₂ :: after) := by
    rw [hpieces_first]
    simp only [List.append_assoc, List.cons_append, List.nil_append]
  obtain ⟨final, hfinal, hpieces_final⟩ :=
    Settings.patch_of_terminated config prompts hsplit_first hfound₂'
      hending₂ value₂
  have hsplit_second : second.pieces =
      before ++ (body₁ ++ last₁ :: (between ++ (body₂ ++ last₂ ::
      ((Injection.assignment name₂ value₂ ++ ending₂.text).pieces ++
        after)))) := by
    rw [hpieces_second]
    simp only [List.append_assoc, List.cons_append]
  obtain ⟨final', hfinal', hpieces_final'⟩ :=
    Settings.patch_of_terminated config prompts hsplit_second hfound₁
      hending₁ value₁
  have hsame : final' = final := by
    rw [← flatten_of_pieces hpieces_final, ← flatten_of_pieces hpieces_final']
    simp only [List.append_assoc, List.cons_append, List.nil_append]
  rw [hsame] at hfinal' hpieces_final'
  exact ⟨first, second, final, _, hfirst, hfinal, hsecond, hfinal',
    hpieces_final'⟩

/-- Two names of one text can be patched in either order. The assignment to the
name that ends first must not declare the other one; the other way round nothing
is asked, for the scan for the first name is over before it comes to the
assignment to the second. -/
theorem patches_commute [LineScan.Patterns] (config : Config)
    (prompts : Prompts) {name₁ name₂ : Text} {statement₁ statement₂ : Statement}
    (hlocate₁ : LineScan.locate content.pieces name₁ = .ok statement₁)
    (hlocate₂ : LineScan.locate content.pieces name₂ = .ok statement₂)
    (hlt : statement₁.last < statement₂.last) {line : Text}
    (hline : content.pieces[statement₂.last]? = some line)
    (hfeed : ['\n'] <:+ line) (value₁ value₂ : Text)
    (hclear : ∀ line ∈ (Injection.assignment name₁ value₁).pieces,
      LineScan.declares name₂ line = false) :
    ∃ (first second final : Text) (last : Nat) (ending₁ ending₂ : LineEnding)
      (middle : Text),
      (config.settings prompts).patch content name₁ value₁ =
        .ok (.ok ⟨statement₁.last, first⟩) ∧
      (config.settings prompts).patch first name₂ value₂ =
        .ok (.ok ⟨last, final⟩) ∧
      (config.settings prompts).patch content name₂ value₂ =
        .ok (.ok ⟨statement₂.last, second⟩) ∧
      (config.settings prompts).patch second name₁ value₁ =
        .ok (.ok ⟨statement₁.last, final⟩) ∧
      Injection.upTo content.pieces statement₂.last =
        Injection.upTo content.pieces statement₁.last ++ middle ∧
      final = Injection.upTo content.pieces statement₁.last ++
        (Injection.assignment name₁ value₁ ++ ending₁.text) ++ middle ++
        (Injection.assignment name₂ value₂ ++ ending₂.text) ++
        Injection.beyond content.pieces statement₂.last := by
  obtain ⟨before, body₁, last₁, after₁, hpieces₁, hfound₁, rfl⟩ :=
    LineScan.locate_eq_ok_iff.mp hlocate₁
  obtain ⟨before₂, body₂, last₂, after₂, hpieces₂, hfound₂, rfl⟩ :=
    LineScan.locate_eq_ok_iff.mp hlocate₂
  obtain ⟨between, rfl, rfl⟩ :=
    hfound₁.exists_between hfound₂ (hpieces₁.symm.trans hpieces₂) hlt
  have hsplit₁ := hpieces₁.trans (List.append_assoc before body₁ _).symm
  have hsplit₂ := hpieces₂.trans (List.append_assoc _ body₂ _).symm
  obtain ⟨ending₁, hending₁⟩ := exists_ending_of_split hsplit₁ (by simp)
  obtain ⟨ending₂, hending₂⟩ : ∃ ending,
      LineEnding.of? last₂ = some ending := by
    have hlast₂ := Injection.getElem?_of_split hsplit₂
    rw [List.length_append, hline] at hlast₂
    rw [← Option.some.inj hlast₂]
    exact LineEnding.exists_of?_eq hfeed
  obtain ⟨first, second, final, last, hfirst, hfinal, hsecond, hfinal',
      hpieces⟩ :=
    exists_patched_both config prompts hpieces₁ hfound₁ hending₁ hfound₂
      hending₂ value₁ value₂
      (not_declares_ending hclear)
  refine ⟨first, second, final, last, ending₁, ending₂,
    (between ++ (body₂ ++ [last₂])).flatten, hfirst, hfinal, hsecond,
    hfinal', ?_, ?_⟩
  · rw [Injection.upTo, Injection.upTo, ← List.length_append,
      ← List.length_append, Injection.take_of_split hsplit₁,
      Injection.take_of_split hsplit₂]
    simp only [List.flatten_append, List.flatten_cons, List.flatten_nil,
      List.append_assoc, List.append_nil]
  · rw [Injection.upTo, Injection.beyond, ← List.length_append,
      ← List.length_append, Injection.take_of_split hsplit₁,
      Injection.drop_of_split hsplit₂,
      ← flatten_of_pieces hpieces]
    simp only [List.flatten_append, List.flatten_cons, List.flatten_nil,
      List.append_assoc, List.append_nil, Text.flatten_pieces]

/-- The value of the second name looks like a declaration of the first one. -/
theorem patches_commute_declaring :
    LineScan.locate (Text.pieces "const A = 1;\nlet B = 2;\n".toList)
      "A".toList = .ok ⟨0, 0⟩ ∧
      LineScan.locate (Text.pieces "const A = 1;\nlet B = 2;\n".toList)
        "B".toList = .ok ⟨1, 1⟩ ∧
      (∀ line ∈ (Injection.assignment "A".toList "x\ny".toList).pieces,
        LineScan.declares "B".toList line = false) ∧
      ∃ (first second final : Text) (last : Nat),
        (patchRun.settings .empty).patch "const A = 1;\nlet B = 2;\n".toList
          "A".toList
          "x\ny".toList = .ok (.ok ⟨0, first⟩) ∧
        (patchRun.settings .empty).patch first "B".toList
          "const A = 3;".toList =
          .ok (.ok ⟨last, final⟩) ∧
        (patchRun.settings .empty).patch "const A = 1;\nlet B = 2;\n".toList
          "B".toList
          "const A = 3;".toList = .ok (.ok ⟨1, second⟩) ∧
        (patchRun.settings .empty).patch second "A".toList "x\ny".toList =
          .ok (.ok ⟨0, final⟩) := by
  have hlocate₁ : LineScan.locate
      (Text.pieces "const A = 1;\nlet B = 2;\n".toList) "A".toList =
    .ok ⟨0, 0⟩ := rfl
  have hlocate₂ : LineScan.locate
      (Text.pieces "const A = 1;\nlet B = 2;\n".toList) "B".toList =
    .ok ⟨1, 1⟩ := rfl
  have hline : (Text.pieces "const A = 1;\nlet B = 2;\n".toList)[1]? =
    some "let B = 2;\n".toList := rfl
  have hclear : ∀ line ∈ (Injection.assignment "A".toList "x\ny".toList).pieces,
      LineScan.declares "B".toList line = false := by decide
  obtain ⟨first, second, final, last, _, _, _, h₁, h₂, h₃, h₄, _⟩ :=
    patches_commute patchRun .empty hlocate₁ hlocate₂ (by decide) hline
      (by decide) "x\ny".toList
      "const A = 3;".toList hclear
  exact ⟨hlocate₁, hlocate₂, hclear, first, second, final, last, h₁, h₂, h₃, h₄⟩

end TextOverride
