import TextOverride.Proofs.Statement
import TextOverride.Proofs.Statement.Declaration

namespace TextOverride.LineScan

/-- A statement of the name lies between two parts of the lines: it is its
`body` and its `last` line. -/
structure Found [Patterns] (name : Text) (before body : List Text)
    (last : Text) : Prop where
  accepted : Patterns.accepts name = true
  name_ne_nil : name ≠ []
  not_before : ∀ line ∈ before, declares name line = false
  declared : ∃ line rest, body ++ [last] = line :: rest ∧
    declares name line = true
  not_body : ∀ line ∈ body, terminator ∉ line
  terminated : terminator ∈ last

variable {name last : Text} {before body : List Text}

theorem findIdx?_eq_some_iff_append {α : Type} {p : α → Bool} {items : List α}
    {n : Nat} :
    items.findIdx? p = some n ↔
      ∃ start item rest, items = start ++ item :: rest ∧ start.length = n ∧
        p item = true ∧
        ∀ other ∈ start, p other = false := by
  induction items generalizing n with
  | nil =>
      refine iff_of_false nofun ?_
      rintro ⟨start, item, rest, hitems, _⟩
      exact List.cons_ne_nil item rest (List.append_eq_nil_iff.mp hitems.symm).2
  | cons head items ih =>
      rw [List.findIdx?_cons]
      cases hhead : p head with
      | true =>
          rw [if_pos rfl]
          constructor
          · intro h
            cases h
            exact ⟨[], head, items, rfl, rfl, hhead, nofun⟩
          · rintro ⟨start, item, rest, hitems, rfl, _, hstart⟩
            cases start with
            | nil => rfl
            | cons first start =>
                cases hitems
                rw [hstart head List.mem_cons_self] at hhead
                cases hhead
      | false =>
          rw [if_neg Bool.false_ne_true, Option.map_eq_some_iff]
          constructor
          · rintro ⟨n, hn, rfl⟩
            obtain ⟨start, item, rest, rfl, rfl, hitem, hstart⟩ := ih.mp hn
            exact ⟨head :: start, item, rest, rfl, rfl, hitem,
              List.forall_mem_cons.mpr ⟨hhead, hstart⟩⟩
          · rintro ⟨start, item, rest, hitems, rfl, hitem, hstart⟩
            cases start with
            | nil =>
                cases hitems
                rw [hhead] at hitem
                cases hitem
            | cons first start =>
                cases hitems
                refine ⟨start.length,
                  ih.mpr ⟨start, item, rest, rfl, rfl, hitem, ?_⟩, rfl⟩
                exact (List.forall_mem_cons.mp hstart).2

private theorem declaration?_eq_some_iff [Patterns] {lines : List Text}
    {n : Nat} :
    declaration? lines name = some n ↔
      Patterns.accepts name = true ∧ name ≠ [] ∧
        ∃ start line rest, lines = start ++ line :: rest ∧ start.length = n ∧
          declares name line = true ∧
          ∀ other ∈ start, declares name other = false := by
  rw [declaration?, ← findIdx?_eq_some_iff_append]
  by_cases hname : name = []
  · rw [if_pos hname]
    exact iff_of_false nofun fun h => h.2.1 hname
  by_cases haccepts : Patterns.accepts name = true
  · rw [if_neg hname, if_neg ((Bool.not_eq_false _).mpr haccepts),
      and_iff_right haccepts, and_iff_right hname]
  · rw [if_neg hname, if_pos ((Bool.not_eq_true _).mp haccepts)]
    exact iff_of_false nofun fun h => haccepts h.1

private theorem terminator?_append_eq_some_iff {start lines : List Text}
    {n : Nat} :
    terminator? (start ++ lines) start.length = some n ↔
      ∃ body last rest, lines = body ++ last :: rest ∧
        start.length + body.length = n ∧
        terminator ∈ last ∧ ∀ line ∈ body, terminator ∉ line := by
  have hcontains (line : Text) : line.contains terminator = false ↔
      terminator ∉ line := by
    rw [← Bool.not_eq_true, List.contains_iff_mem]
  rw [terminator?, List.drop_left, Option.map_eq_some_iff]
  simp only [findIdx?_eq_some_iff_append, List.contains_iff_mem, hcontains]
  constructor
  · rintro ⟨n, ⟨body, last, rest, rfl, rfl, hlast, hbody⟩, rfl⟩
    exact ⟨body, last, rest, rfl, rfl, hlast, hbody⟩
  · rintro ⟨body, last, rest, rfl, rfl, hlast, hbody⟩
    exact ⟨body.length, ⟨body, last, rest, rfl, rfl, hlast, hbody⟩, rfl⟩

theorem locate_eq_ok_iff [Patterns] {lines : List Text}
    {statement : Statement} :
    locate lines name = .ok statement ↔
      ∃ before body last after, lines = before ++ (body ++ last :: after) ∧
        Found name before body last ∧
        statement = ⟨before.length, before.length + body.length⟩ := by
  rw [locate, Locator.locate_eq_ok_iff]
  change declaration? lines name = _ ∧ terminator? lines _ = _ ↔ _
  constructor
  · rintro ⟨hfirst, hlast⟩
    obtain ⟨haccepts, hname, before, line, rest, rfl, hlength, hdeclares,
        hbefore⟩ :=
      declaration?_eq_some_iff.mp hfirst
    -- The terminator is sought from the declaring line on, which may hold it.
    rw [← hlength] at hlast
    obtain ⟨body, last, after, hsplit, hend, hterminated, hbody⟩ :=
      terminator?_append_eq_some_iff.mp hlast
    refine ⟨before, body, last, after, by rw [hsplit],
      ⟨haccepts, hname, hbefore, ?_, hbody, hterminated⟩, ?_⟩
    · cases body with
      | nil =>
          cases hsplit
          exact ⟨line, [], rfl, hdeclares⟩
      | cons first body =>
          cases hsplit
          exact ⟨line, body ++ [last], rfl, hdeclares⟩
    · rw [hend, hlength]
  · rintro ⟨before, body, last, after, rfl, hfound, rfl⟩
    obtain ⟨line, rest, hline, hdeclares⟩ := hfound.declared
    constructor
    · refine declaration?_eq_some_iff.mpr ⟨hfound.accepted, hfound.name_ne_nil,
        before, line, rest ++ after, ?_, rfl, hdeclares, hfound.not_before⟩
      rw [← List.cons_append, ← hline, List.append_assoc, List.singleton_append]
    · exact terminator?_append_eq_some_iff.mpr
        ⟨body, last, after, rfl, rfl, hfound.terminated, hfound.not_body⟩

theorem Found.locate [Patterns] (h : Found name before body last)
    (after : List Text) :
    LineScan.locate (before ++ (body ++ last :: after)) name =
      .ok ⟨before.length, before.length + body.length⟩ :=
  locate_eq_ok_iff.mpr ⟨before, body, last, after, rfl, h, rfl⟩

theorem no_feed_of_locate [Patterns] {content : Text} {statement : Statement}
    (h : LineScan.locate content.pieces name = .ok statement) :
    '\n' ∉ name := by
  obtain ⟨before, body, last, after, hpieces, hfound, _⟩ :=
    locate_eq_ok_iff.mp h
  obtain ⟨line, rest, hline, hdeclares⟩ := hfound.declared
  have hmem : line ∈ body ++ [last] := hline ▸ List.mem_cons_self
  have hmem' : line ∈ content.pieces := by
    rw [hpieces, List.append_cons body]
    exact List.mem_append_right before (List.mem_append_left after hmem)
  exact no_feed_of_declares hmem' hdeclares

/-- What comes to the last line without an equals sign is not looked at. -/
theorem Found.append_last [Patterns] (h : Found name before body last)
    {ending : Text} (hending : '=' ∉ ending) :
    Found name before body (last ++ ending) where
  accepted := h.accepted
  name_ne_nil := h.name_ne_nil
  not_before := h.not_before
  declared := by
    obtain ⟨line, rest, hline, hdeclares⟩ := h.declared
    cases body with
    | nil =>
        cases hline
        exact ⟨last ++ ending, [], rfl,
          (declares_append hending name last).trans hdeclares⟩
    | cons first body =>
        cases hline
        exact ⟨line, body ++ [last ++ ending], rfl, hdeclares⟩
  not_body := h.not_body
  terminated := List.mem_append_left ending h.terminated

theorem Found.insert_before [Patterns] {start lines : List Text}
    (h : Found name (start ++ before) body last)
    (hlines : ∀ line ∈ lines, declares name line = false) :
    Found name (start ++ (lines ++ before)) body last :=
  { h with
    not_before := by
      obtain ⟨hstart, hbefore⟩ := List.forall_mem_append.mp h.not_before
      exact List.forall_mem_append.mpr ⟨hstart,
        List.forall_mem_append.mpr ⟨hlines, hbefore⟩⟩ }

/-- Of two statements the one that ends later lies behind the other one. -/
theorem Found.exists_between [Patterns] {other last' : Text}
    {before' body' after after' : List Text} (h : Found name before body last)
    (h' : Found other before' body' last')
    (hlines : before ++ (body ++ last :: after) =
      before' ++ (body' ++ last' :: after'))
        (hlt : before.length + body.length < before'.length + body'.length) :
    ∃ between, before' = before ++ (body ++ last :: between) ∧
      after = between ++ (body' ++ last' :: after') := by
  -- Otherwise the end of the first statement would be a line of the second
  -- one's body.
  have hle : before.length + body.length < before'.length := by
    refine Decidable.byContradiction fun hle => ?_
    have hlast :
        (before ++ (body ++ last :: after))[before.length + body.length]? =
        some last := by
      rw [List.getElem?_append_right (Nat.le_add_right _ _),
        Nat.add_sub_cancel_left, List.getElem?_append_right (Nat.le_refl _),
        Nat.sub_self, List.getElem?_cons_zero]
    rw [hlines, List.getElem?_append_right (Nat.le_of_not_lt hle),
      List.getElem?_append_left (by omega)] at hlast
    exact h'.not_body last (List.mem_of_getElem? hlast) h.terminated
  have hsplit : (before ++ (body ++ [last])) ++ after =
      before' ++ (body' ++ last' :: after') := by
    rw [← hlines, List.append_assoc, List.append_assoc, List.singleton_append]
  rcases List.append_eq_append_iff.mp hsplit with
    ⟨between, hbefore, hafter⟩ | ⟨overlap, hbefore, hafter⟩
  · exact ⟨between, by
      rw [hbefore, List.append_assoc, List.append_assoc, List.singleton_append],
      hafter⟩
  · have hlength := congrArg List.length hbefore
    simp only [List.length_append, List.length_singleton] at hlength
    have hnil : overlap = [] := List.eq_nil_of_length_eq_zero (by omega)
    rw [hnil, List.append_nil] at hbefore
    exact ⟨[], hbefore.symm, by
      rw [hafter, hnil, List.nil_append, List.nil_append]⟩

end TextOverride.LineScan
