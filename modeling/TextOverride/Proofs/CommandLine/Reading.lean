import TextOverride.Proofs.CommandLine.Choices

namespace TextOverride.CommandLine

def ValueOption.name : ValueOption → Text
  | .manifest => "manifest".toList
  | .baseDir => "base-dir".toList
  | .allow => "allow".toList

def Flag.name : Flag → Text
  | .dryRun => "dry-run".toList
  | .logJson => "log-json".toList

theorem ValueOption.name_ne_nil (about : ValueOption) : about.name ≠ [] := by
  cases about <;> exact List.cons_ne_nil _ _

theorem ValueOption.not_mem_name (about : ValueOption) : '=' ∉ about.name := by
  cases about <;> decide

private theorem Flag.name_ne_nil (about : Flag) : about.name ≠ [] := by
  cases about <;> exact List.cons_ne_nil _ _

private theorem Flag.not_mem_name (about : Flag) : '=' ∉ about.name := by
  cases about <;> decide

/-- A lone dash, or a text that does not begin with one. -/
def Plain (t : Text) : Prop := t = ['-'] ∨ t.head? ≠ some '-'

theorem Plain.ne_cons {t : Text} (h : Plain t) (c : Char) (rest : Text) :
    t ≠ '-' :: c :: rest := by
  rintro rfl
  rcases h with h | h
  · cases h
  · exact h rfl

inductive Spells : Choice → List Text → Prop
  | prompts {path : Path} (h : Plain path) : Spells (.prompts path) [path]
  | joined (about : ValueOption) (value : Text) :
      Spells (.option about value) ["--".toList ++ (about.name ++ '=' :: value)]
  | apart (about : ValueOption) {value : Text} (h : Plain value) :
      Spells (.option about value) ["--".toList ++ about.name, value]
  | flag (about : Flag) : Spells (.flag about) ["--".toList ++ about.name]

inductive SpellsAll : List Choice → List Text → Prop
  | nil : SpellsAll [] []
  | cons {choice : Choice} {words : List Text} {choices : List Choice}
      {arguments : List Text}
      (h : Spells choice words) (hlater : SpellsAll choices arguments) :
      SpellsAll (choice :: choices) (words ++ arguments)

theorem splitValue_bare {name : Text} (h : '=' ∉ name) :
    splitValue name = (name, none) := by
  have hdrop : name.dropWhile (· != '=') = [] :=
    List.dropWhile_eq_nil_iff.mpr fun c hc => bne_iff_ne.mpr fun heq =>
      h (heq ▸ hc)
  rw [splitValue, hdrop]

private theorem splitValue_joined {name : Text} (h : '=' ∉ name)
    (value : Text) :
    splitValue (name ++ '=' :: value) = (name, some value) := by
  have hname : ∀ c ∈ name, (c != '=') = true :=
    fun c hc => bne_iff_ne.mpr fun heq => h (heq ▸ hc)
  have hdrop : (name ++ '=' :: value).dropWhile (· != '=') = '=' :: value :=
    List.dropWhile_append_of_pos hname
  have htake : (name ++ '=' :: value).takeWhile (· != '=') = name :=
    (List.takeWhile_append_of_pos hname).trans (List.append_nil name)
  rw [splitValue, hdrop, htake]

namespace Reading

/-- The line is read up to here, and comes to the settled choices. -/
structure Reads (r : Reading) (s : Settled) : Prop where
  options : r.positionalOnly = false
  settle : r.settle = .ok s

variable {r : Reading} {s s' : Settled}

private theorem reads_start : start.Reads .nothing := ⟨rfl, rfl⟩

theorem Reads.settled_eq (h : r.Reads s) :
    r.settled.settle r.pending = .ok s := by
  have hsettle := h.settle
  rw [Reading.settle] at hsettle
  cases hpending : r.settled.settle r.pending with
  | error e =>
      rw [hpending] at hsettle
      cases hsettle
  | ok settled =>
      rw [hpending] at hsettle
      exact congrArg Except.ok (Except.ok.inj hsettle)

theorem Reads.complete (h : r.Reads s) (about : ValueOption) :
    r.pending ≠ .option about none := by
  intro hpending
  have hsettle := h.settled_eq
  rw [hpending] at hsettle
  cases hsettle

theorem argument_long (hoptions : r.positionalOnly = false) {text : Text}
    (h : text ≠ []) :
    r.argument ("--".toList ++ text) = r.long text := by
  obtain ⟨c, rest, rfl⟩ := List.exists_cons_of_ne_nil h
  simp [argument, hoptions]

private theorem argument_value (hoptions : r.positionalOnly = false)
    {about : ValueOption} (hpending : r.pending = .option about none) {t : Text}
    (h : Plain t) :
    r.argument t = .ok { r with pending := .option about (some t) } := by
  unfold argument
  rw [if_neg (ne_true_of_eq_false hoptions)]
  split
  case h_1 | h_2 | h_3 => exact absurd rfl (h.ne_cons _ _)
  case h_4 => rw [hpending]

private theorem argument_positional (hoptions : r.positionalOnly = false)
    (hpending : ∀ about, r.pending ≠ .option about none) {t : Text}
    (h : Plain t) :
    r.argument t = r.positional t := by
  unfold argument
  rw [if_neg (ne_true_of_eq_false hoptions)]
  split
  case h_1 | h_2 | h_3 => exact absurd rfl (h.ne_cons _ _)
  case h_4 =>
    split
    case h_1 about hwaits => exact absurd hwaits (hpending about)
    case h_2 => rfl

private theorem long_joined (r : Reading) (about : ValueOption) (value : Text) :
    r.long (about.name ++ '=' :: value) = (do
      let settled ← r.settle
      return { r with
        settled := ← usage (settled.setOption about value), pending :=
  .nothing }) := by
  rw [long, splitValue_joined about.not_mem_name]
  cases about <;> rfl

private theorem long_option (r : Reading) (about : ValueOption) :
    r.long about.name = (do
      return { r with
        settled := ← r.settle, pending := .option about none }) := by
  rw [long, splitValue_bare about.not_mem_name]
  cases about <;> rfl

private theorem long_flag (r : Reading) (about : Flag) :
    r.long about.name = (do
      let settled ← r.settle
      return { r with
        settled := ← usage (settled.setFlag about), pending := .nothing }) := by
  rw [long, splitValue_bare about.not_mem_name]
  cases about <;> rfl

private theorem Reads.joined (h : r.Reads s) {about : ValueOption}
    {value : Text} (hadd : s.setOption about value = .ok s') :
    ∃ r', r.argument ("--".toList ++ (about.name ++ '=' :: value)) = .ok r' ∧
      r'.Reads s' := by
  have hlong : about.name ++ '=' :: value ≠ [] :=
    List.append_ne_nil_of_left_ne_nil about.name_ne_nil _
  refine ⟨⟨s', .nothing, r.positionalOnly⟩, ?_, h.options, rfl⟩
  rw [argument_long h.options hlong, long_joined, h.settle]
  simp only [bind, Except.bind, hadd, usage]
  rfl

private theorem Reads.flag (h : r.Reads s) {about : Flag}
    (hadd : s.setFlag about = .ok s') :
    ∃ r', r.argument ("--".toList ++ about.name) = .ok r' ∧ r'.Reads s' := by
  refine ⟨⟨s', .nothing, r.positionalOnly⟩, ?_, h.options, rfl⟩
  rw [argument_long h.options about.name_ne_nil, long_flag, h.settle]
  simp only [bind, Except.bind, hadd, usage]
  rfl

private theorem Reads.apart (h : r.Reads s) {about : ValueOption} {value : Text}
    (hplain : Plain value) (hadd : s.setOption about value = .ok s') :
    ∃ r', ["--".toList ++ about.name, value].foldlM argument r = .ok r' ∧
      r'.Reads s' := by
  have hoption : r.argument ("--".toList ++ about.name) =
      .ok ⟨s, .option about none, r.positionalOnly⟩ := by
    rw [argument_long h.options about.name_ne_nil, long_option, h.settle]
    rfl
  have hvalue :=
    @argument_value ⟨s, .option about none, r.positionalOnly⟩ h.options _ rfl
      _ hplain
  refine ⟨⟨s, .option about (some value), r.positionalOnly⟩, ?_, h.options, ?_⟩
  · rw [List.foldlM_cons, hoption]
    exact congrArg (· >>= pure) hvalue
  · change usage (s.setOption about value) = _
    rw [hadd]
    rfl

private theorem Reads.unsettled (h : r.Reads s) (hnone : s.prompts = none) :
    r.settled.prompts = none ∧ ∀ path, r.pending ≠ .prompts path := by
  have hsettled := h.settled_eq
  cases hpending : r.pending with
  | nothing =>
      rw [hpending] at hsettled
      cases hsettled
      exact ⟨hnone, nofun⟩
  | prompts path =>
      rw [hpending] at hsettled
      obtain ⟨_, _, hok⟩ := exists_of_bind_eq_ok hsettled
      cases hok
      cases hnone
  | option about value? =>
      cases value? with
      | none => exact absurd hpending (h.complete about)
      | some value =>
          rw [hpending] at hsettled
          exact ⟨(Settled.prompts_of_setOption hsettled).symm.trans
            hnone, nofun⟩

private theorem positional_of_unsettled (hsettle : r.settle = .ok s)
    (hprompts : r.settled.prompts = none)
    (hpending : ∀ path, r.pending ≠ .prompts path) (path : Path) :
    r.positional path = .ok ⟨s, .prompts path, r.positionalOnly⟩ := by
  rw [positional, hprompts]
  simp only [hsettle]
  rfl

private theorem Reads.positional (h : r.Reads s) {path : Path}
    (hplain : Plain path) (hadd : s.add (.prompts path) = .ok s') :
    ∃ r', r.argument path = .ok r' ∧ r'.Reads s' := by
  obtain ⟨hnone, hsettle⟩ := Settled.settle_of_add hadd
  obtain ⟨hprompts, hpending⟩ := h.unsettled hnone
  refine ⟨⟨s, .prompts path, r.positionalOnly⟩, ?_, h.options,
    congrArg usage hsettle⟩
  rw [argument_positional h.options h.complete hplain]
  exact positional_of_unsettled h.settle hprompts hpending path

/-- One choice more, however it is written. -/
theorem Reads.step (h : r.Reads s) {choice : Choice} {words : List Text}
    (hadd : s.add choice = .ok s') (hspells : Spells choice words) :
    ∃ r', words.foldlM argument r = .ok r' ∧ r'.Reads s' := by
  have one {word : Text}
      (hread : ∃ r', r.argument word = .ok r' ∧ r'.Reads s') :
      ∃ r', [word].foldlM argument r = .ok r' ∧ r'.Reads s' := by
    obtain ⟨r', hargument, hreads⟩ := hread
    exact ⟨r', congrArg (· >>= pure) hargument, hreads⟩
  cases hspells with
  | prompts hplain => exact one (h.positional hplain hadd)
  | joined => exact one (h.joined hadd)
  | apart _ hplain => exact h.apart hplain hadd
  | flag => exact one (h.flag hadd)

private theorem Reads.run (h : r.Reads s) {choices : List Choice}
    {arguments : List Text} (hadds : choices.foldlM Settled.add s = .ok s')
    (hspells : SpellsAll choices arguments) :
    ∃ r', arguments.foldlM argument r = .ok r' ∧ r'.Reads s' := by
  induction hspells generalizing r s with
  | nil =>
      cases hadds
      exact ⟨r, rfl, h⟩
  | cons hwords _ ih =>
      rw [List.foldlM_cons] at hadds
      obtain ⟨middle, hadd, hlater⟩ := exists_of_bind_eq_ok hadds
      obtain ⟨between, hread, hreads⟩ := h.step hadd hwords
      obtain ⟨r', hreadLater, hreadsLater⟩ := ih hreads hlater
      refine ⟨r', ?_, hreadsLater⟩
      rw [List.foldlM_append, hread]
      exact hreadLater

end Reading

/-! The command. -/

private theorem settled_of_spelled {s : Settled} {choices : List Choice}
    {arguments : List Text}
    (hadds : choices.foldlM Settled.add .nothing = .ok s)
    (hspells : SpellsAll choices arguments) :
    settled arguments = .ok s := by
  obtain ⟨r, hread, hreads⟩ := Reading.reads_start.run hadds hspells
  rw [settled, hread]
  exact hreads.settle

private theorem parse_of_settled {arguments : List Text} {s : Settled}
    {prompts : Path} (h : settled arguments = .ok s)
    (hprompts : s.prompts = some prompts) :
    parse arguments = .ok (.run (s.config prompts) s.logJson) := by
  rw [parse, h]
  simp only [hprompts]

def standardNames : List Text :=
  ["SUMMARIZE_TOOL_OUTPUT_PROMPT".toList, "EDIT_SYS_PROMPT".toList]

/-- The choices of a line may come in any order, and every value joined to its
option or apart from it: the command is the same. -/
theorem parse_any_order {prompts : Path} {manifest baseDir : Option Path}
    {allow : List Text} {dryRun logJson : Bool} (hprompts : prompts ≠ [])
    (hmanifest : manifest ≠ some []) (hbase : baseDir ≠ some [])
    {choices : List Choice}
    (horder : choices.Perm
      (Settled.choices ⟨some prompts, manifest, baseDir, allow, dryRun,
        logJson⟩))
    {arguments : List Text} (hspells : SpellsAll choices arguments) :
    ∃ config, parse arguments = .ok (.run config logJson) ∧
      config.prompts = prompts ∧ config.manifest = manifest ∧
      config.manifestPath = manifest.getD
        (Path.join config.base "patch_config.json".toList) ∧
      config.base = baseDir.getD ".".toList ∧ config.dryRun = dryRun ∧
      config.allow =
        (if allow = [] then AllowList.standard else AllowList.ofNames allow) ∧
      ∀ name, config.allow.contains name = true ↔
        name ∈ if allow = [] then standardNames else allow := by
  generalize hgiven :
    (⟨some prompts, manifest, baseDir, allow, dryRun, logJson⟩ : Settled) =
      given at horder
  have hproper : ∀ choice ∈ given.choices, choice.Proper := by
    subst hgiven
    exact Settled.choices_proper (fun h => hprompts (Option.some.inj h))
      hmanifest hbase
  obtain ⟨s, hadds, hmem⟩ := Settled.exists_addAll_of_perm horder hproper
  obtain ⟨hsame, _, _, _, _, hlog⟩ := Settled.same_of_mem_choices hmem
  have hparse := parse_of_settled (settled_of_spelled hadds hspells)
    (hsame.trans (congrArg Settled.prompts hgiven.symm))
  rw [Settled.config_congr hmem, hlog] at hparse
  subst hgiven
  refine ⟨_, hparse, rfl, rfl, rfl, rfl, rfl, rfl, fun name => ?_⟩
  rw [AllowList.contains_iff, Settled.config]
  split
  · exact AllowList.mem_keys_ofNames_iff
  · exact AllowList.mem_keys_ofNames_iff

def shuffledChoices : List Choice :=
  [.option .allow "-".toList, .flag .logJson, .option .manifest "--x=y".toList,
    .prompts "-".toList, .option .baseDir "allow".toList,
    .option .allow "B".toList]

def shuffledArguments : List Text :=
  ["--allow".toList, "-".toList, "--log-json".toList, "--manifest=--x=y".toList,
    "-".toList, "--base-dir".toList, "allow".toList, "--allow=B".toList]

theorem parse_any_order_shuffled :
    shuffledChoices.Perm (Settled.choices ⟨some "-".toList, some "--x=y".toList,
        some "allow".toList, ["B".toList, "-".toList], false, true⟩) ∧
      SpellsAll shuffledChoices shuffledArguments ∧
      ∃ config, parse shuffledArguments = .ok (.run config true) ∧
        config.prompts = "-".toList ∧ config.manifestPath = "--x=y".toList ∧
        config.base = "allow".toList ∧ config.dryRun = false ∧
        ∀ name, config.allow.contains name = true ↔
          name ∈ ["B".toList, "-".toList] := by
  have horder :
      shuffledChoices.Perm (Settled.choices ⟨some "-".toList,
        some "--x=y".toList,
      some "allow".toList, ["B".toList, "-".toList], false, true⟩) := by decide
  have hspells : SpellsAll shuffledChoices shuffledArguments :=
    .cons (.apart .allow (.inl rfl)) <| .cons (.flag .logJson) <|
      .cons (.joined .manifest _) <| .cons (.prompts (.inl rfl)) <|
      .cons (.apart .baseDir (.inr (by decide))) <|
      .cons (.joined .allow _) .nil
  obtain ⟨config, hparse, hprompts, _, hmanifest, hbase, hdry, _, hallow⟩ :=
    parse_any_order (by decide) (by decide) (by decide) horder hspells
  exact ⟨horder, hspells, config, hparse, hprompts, hmanifest, hbase,
    hdry, hallow⟩

end TextOverride.CommandLine
