import TextOverride.CommandLine
import TextOverride.Proofs.AllowList
import TextOverride.Proofs.Run.Steps

namespace TextOverride.CommandLine

inductive Choice
  | prompts (path : Path)
  | option (about : ValueOption) (value : Text)
  | flag (about : Flag)
  deriving DecidableEq, Repr

namespace Choice

def parameter : Choice → Parameter
  | .prompts _ => .prompts
  | .option about _ => .option about
  | .flag about => .flag about

def Proper : Choice → Prop
  | .prompts path => path ≠ []
  | .option .allow _ => True
  | .option _ path => path ≠ []
  | .flag _ => True

end Choice

def parameters : List Parameter :=
  [.prompts, .option .manifest, .option .baseDir, .option .allow, .flag .dryRun,
    .flag .logJson]

namespace Settled

variable {s s' : Settled}

def chosen (s : Settled) : Parameter → List Choice
  | .prompts => s.prompts.toList.map .prompts
  | .option .manifest => s.manifest.toList.map (.option .manifest)
  | .option .baseDir => s.baseDir.toList.map (.option .baseDir)
  | .option .allow => s.allow.map (.option .allow)
  | .flag .dryRun => if s.dryRun then [.flag .dryRun] else []
  | .flag .logJson => if s.logJson then [.flag .logJson] else []

def choices (s : Settled) : List Choice := parameters.flatMap s.chosen

@[simp] theorem chosen_nothing (parameter : Parameter) :
    nothing.chosen parameter = [] := by
  rcases parameter with _ | ⟨_ | _ | _⟩ | ⟨_ | _⟩ <;> rfl

private theorem parameter_of_mem_chosen {parameter : Parameter}
    {choice : Choice} (h : choice ∈ s.chosen parameter) :
    choice.parameter = parameter := by
  have hif {c : Prop} [Decidable c] {about : Flag}
      (h : choice ∈ if c then [Choice.flag about] else []) : choice =
      .flag about := by
    split at h
    · exact List.mem_singleton.mp h
    · cases h
  rcases parameter with _ | ⟨_ | _ | _⟩ | ⟨_ | _⟩
  case flag.dryRun => rw [hif h, Choice.parameter]
  case flag.logJson => rw [hif h, Choice.parameter]
  all_goals
    obtain ⟨_, _, rfl⟩ := List.mem_map.mp h
    rfl

private theorem filter_chosen (s : Settled) (parameter other : Parameter) :
    (s.chosen other).filter (·.parameter = parameter) =
      if other = parameter then s.chosen parameter else [] := by
  split
  case isTrue h =>
    subst h
    exact List.filter_eq_self.mpr fun choice hmem =>
      decide_eq_true (parameter_of_mem_chosen hmem)
  case isFalse h =>
    refine List.filter_eq_nil_iff.mpr fun choice hmem hparameter => h ?_
    rw [← parameter_of_mem_chosen hmem, of_decide_eq_true hparameter]

theorem filter_choices (s : Settled) (parameter : Parameter) :
    s.choices.filter (·.parameter = parameter) = s.chosen parameter := by
  simp only [choices, parameters, List.flatMap_cons, List.flatMap_nil,
    List.filter_append, filter_chosen, List.filter_nil]
  rcases parameter with _ | ⟨_ | _ | _⟩ | ⟨_ | _⟩ <;> simp

theorem mem_choices_iff {choice : Choice} :
    choice ∈ s.choices ↔ choice ∈ s.chosen choice.parameter := by
  rw [← filter_choices, List.mem_filter, and_iff_left (decide_eq_true rfl)]

private theorem length_chosen_le {parameter : Parameter}
    (h : parameter ≠ .option .allow) : (s.chosen parameter).length ≤ 1 := by
  rcases parameter with _ | ⟨_ | _ | _⟩ | ⟨_ | _⟩
  case option.allow => exact absurd rfl h
  case flag.dryRun =>
    rw [chosen]
    split <;> simp
  case flag.logJson =>
    rw [chosen]
    split <;> simp
  all_goals
    rw [chosen, List.length_map, Option.length_toList]
    split <;> simp

/-! Settling one choice after the other. -/

def add (s : Settled) : Choice → Except UsageError Settled
  | .prompts value =>
      do return { s with prompts := ← path .prompts s.prompts value }
  | .option about value => s.setOption about value
  | .flag about => s.setFlag about

private theorem path_eq_ok {parameter : Parameter} {value : Path}
    (h : value ≠ []) :
    path parameter none value = .ok value :=
  if_neg h

private theorem eq_none_of_map_toList {α : Type} {known : Option α}
    {f : α → Choice} (h : known.toList.map f = []) : known = none :=
  Option.toList_eq_nil_iff.mp (List.map_eq_nil_iff.mp h)

private theorem eq_false_of_ite {known : Bool} {choice : Choice}
    (h : (if known then [choice] else []) = []) : known = false := by
  cases known with
  | false => rfl
  | true => cases h

theorem prompts_of_setOption {about : ValueOption} {value : Text}
    (h : s.setOption about value = .ok s') : s'.prompts = s.prompts := by
  cases about with
  | manifest | baseDir =>
      obtain ⟨_, _, hok⟩ := exists_of_bind_eq_ok h
      cases hok
      rfl
  | allow =>
      cases h
      rfl

theorem settle_of_add {value : Path} (h : s.add (.prompts value) = .ok s') :
    s.prompts = none ∧ s.settle (.prompts value) = .ok s' := by
  rw [add] at h
  cases hprompts : s.prompts with
  | none =>
      rw [hprompts] at h
      exact ⟨rfl, h⟩
  | some known =>
      rw [hprompts] at h
      cases h

/-- A choice that may still be made stands last among those about the same. -/
theorem exists_add {choice : Choice} (hproper : choice.Proper)
    (hfree : choice.parameter ≠ .option .allow →
      s.chosen choice.parameter = []) :
    ∃ s', s.add choice = .ok s' ∧ ∀ parameter,
      s'.chosen parameter = s.chosen parameter ++
        [choice].filter (·.parameter = parameter) := by
  obtain ⟨prompts, manifest, baseDir, allow, dryRun, logJson⟩ := s
  rcases choice with value | ⟨_ | _ | _, value⟩ | ⟨_ | _⟩
  case prompts | option.manifest | option.baseDir =>
    obtain rfl := eq_none_of_map_toList (hfree nofun)
    refine ⟨_, congrArg (Except.map _) (path_eq_ok hproper),
      fun parameter => ?_⟩
    rcases parameter with _ | ⟨_ | _ | _⟩ | ⟨_ | _⟩ <;>
      simp [chosen, Choice.parameter]
  case option.allow =>
    refine ⟨_, rfl, fun parameter => ?_⟩
    rcases parameter with _ | ⟨_ | _ | _⟩ | ⟨_ | _⟩ <;>
      simp [chosen, Choice.parameter]
  case flag.dryRun | flag.logJson =>
    obtain rfl := eq_false_of_ite (hfree nofun)
    refine ⟨_, rfl, fun parameter => ?_⟩
    rcases parameter with _ | ⟨_ | _ | _⟩ | ⟨_ | _⟩ <;>
      simp [chosen, Choice.parameter]

private theorem exists_addAll {choices : List Choice}
    (hproper : ∀ choice ∈ choices, choice.Proper)
    (honce : ∀ parameter, parameter ≠ .option .allow →
      (s.chosen parameter ++ choices.filter (·.parameter = parameter)).length ≤
        1) :
    ∃ s', choices.foldlM add s = .ok s' ∧ ∀ parameter,
      s'.chosen parameter = s.chosen parameter ++
        choices.filter (·.parameter = parameter) := by
  induction choices generalizing s with
  | nil => exact ⟨s, rfl, fun parameter => (List.append_nil _).symm⟩
  | cons choice rest ih =>
      obtain ⟨hhead, hrest⟩ := List.forall_mem_cons.mp hproper
      have hfree (h : choice.parameter ≠ .option .allow) :
          s.chosen choice.parameter = [] := by
        have hlength := honce choice.parameter h
        simp only [List.length_append, List.filter_cons, decide_true, if_true,
          List.length_cons] at hlength
        exact List.length_eq_zero_iff.mp (by omega)
      obtain ⟨middle, hadd, hmiddle⟩ := exists_add hhead hfree
      -- Of what is chosen and what is still to come together, nothing changes
      -- along the line.
      have hsplit (parameter : Parameter) :
          middle.chosen parameter ++ rest.filter (·.parameter = parameter) =
            s.chosen parameter ++ (choice :: rest).filter
            (·.parameter = parameter) := by
        rw [hmiddle, List.append_assoc, ← List.filter_append,
          List.singleton_append]
      obtain ⟨s', hadds, hchosen⟩ :=
        ih hrest fun parameter h => hsplit parameter ▸ honce parameter h
      refine ⟨s', ?_, fun parameter =>
        (hchosen parameter).trans (hsplit parameter)⟩
      rw [List.foldlM_cons, hadd]
      exact hadds

theorem same_of_mem_choices
    (h : ∀ choice, choice ∈ s.choices ↔ choice ∈ s'.choices) :
    s.prompts = s'.prompts ∧ s.manifest = s'.manifest ∧ s.baseDir = s'.baseDir ∧
      (∀ name, name ∈ s.allow ↔ name ∈ s'.allow) ∧ s.dryRun = s'.dryRun ∧
      s.logJson = s'.logJson := by
  simp only [mem_choices_iff] at h
  refine ⟨Option.ext fun path => ?_, Option.ext fun path =>
    ?_, Option.ext fun path => ?_,
    fun name => ?_, Bool.eq_iff_iff.mpr ?_, Bool.eq_iff_iff.mpr ?_⟩
  · simpa [chosen, Choice.parameter] using h (.prompts path)
  · simpa [chosen, Choice.parameter] using h (.option .manifest path)
  · simpa [chosen, Choice.parameter] using h (.option .baseDir path)
  · simpa [chosen, Choice.parameter] using h (.option .allow name)
  · simpa [chosen, Choice.parameter] using h (.flag .dryRun)
  · simpa [chosen, Choice.parameter] using h (.flag .logJson)

theorem config_congr (h : ∀ choice, choice ∈ s.choices ↔ choice ∈ s'.choices)
    (prompts : Path) :
    s.config prompts = s'.config prompts := by
  obtain ⟨_, hmanifest, hbase, hallow, hdry, _⟩ := same_of_mem_choices h
  have hnone : s.allow = [] ↔ s'.allow = [] := by
    simp only [List.eq_nil_iff_forall_not_mem, hallow]
  simp only [config, hmanifest, hbase, hdry, hnone,
    AllowList.ofNames_congr hallow]

theorem choices_proper (hprompts : s.prompts ≠ some [])
    (hmanifest : s.manifest ≠ some []) (hbase : s.baseDir ≠ some []) :
    ∀ choice ∈ s.choices, choice.Proper := by
  intro choice hmem
  rw [mem_choices_iff] at hmem
  rcases choice with path | ⟨_ | _ | _, value⟩ | about
  case prompts =>
    rintro rfl
    exact hprompts (by simpa [chosen, Choice.parameter] using hmem)
  case option.manifest =>
    rintro rfl
    exact hmanifest (by simpa [chosen, Choice.parameter] using hmem)
  case option.baseDir =>
    rintro rfl
    exact hbase (by simpa [chosen, Choice.parameter] using hmem)
  case option.allow => trivial
  case flag => trivial

/-- In any order the choices come to the same, up to the order of the names. -/
theorem exists_addAll_of_perm {choices : List Choice}
    (horder : choices.Perm s.choices)
    (hproper : ∀ choice ∈ s.choices, choice.Proper) :
    ∃ s', choices.foldlM add .nothing = .ok s' ∧
      ∀ choice, choice ∈ s'.choices ↔ choice ∈ s.choices := by
  have hfilter (parameter : Parameter) :
      (choices.filter (·.parameter = parameter)).Perm (s.chosen parameter) := by
    rw [← s.filter_choices]
    exact horder.filter _
  obtain ⟨s', hadds, hchosen⟩ : ∃ s',
      choices.foldlM add .nothing = .ok s' ∧ _ := by
    refine exists_addAll
      (fun choice hmem => hproper choice (horder.mem_iff.mp hmem)) ?_
    intro parameter hparameter
    rw [chosen_nothing, List.nil_append, (hfilter parameter).length_eq]
    exact length_chosen_le hparameter
  refine ⟨s', hadds, fun choice => ?_⟩
  rw [mem_choices_iff, mem_choices_iff, hchosen, chosen_nothing,
    List.nil_append]
  exact (hfilter choice.parameter).mem_iff

end Settled

end TextOverride.CommandLine
