import TextOverride.Proofs.Statement.Declaration
import TextOverride.Proofs.Text.Endings

namespace TextOverride.LineScan

variable {line other name : Text} {lines others : List Text}

private theorem declares_congr (h : Text.SameBody line other) (name : Text) :
    declares name line = declares name other := by
  have hequals {ending : Text} (hending : ending.Ending) : '=' ∉ ending :=
    fun hmem => by
    rcases hending '=' hmem with heq | heq <;> cases heq
  obtain ⟨body, ending, ending', hending, hending', rfl, rfl⟩ := h
  rw [declares_append (hequals hending), declares_append (hequals hending')]

private theorem contains_terminator_congr (h : Text.SameBody line other) :
    line.contains terminator = other.contains terminator := by
  have happend {ending : Text} (hending : ending.Ending) (body : Text) :
      (body ++ ending).contains terminator = body.contains terminator := by
    rw [Bool.eq_iff_iff, List.contains_iff_mem, List.contains_iff_mem,
      List.mem_append]
    refine or_iff_left fun hmem => ?_
    rcases hending terminator hmem with heq | heq <;> cases heq
  obtain ⟨body, ending, ending', hending, hending', rfl, rfl⟩ := h
  rw [happend hending, happend hending']

theorem findIdx?_congr {p : Text → Bool}
    (hp : ∀ {line other}, Text.SameBody line other → p line = p other)
    (h : List.Forall₂ Text.SameBody lines others) :
    lines.findIdx? p = others.findIdx? p := by
  induction h with
  | nil => rfl
  | cons hline _ ih => rw [List.findIdx?_cons, List.findIdx?_cons, hp hline, ih]

private theorem declaration?_congr [Patterns]
    (h : List.Forall₂ Text.SameBody lines others) (name : Text) :
    declaration? lines name = declaration? others name := by
  rw [declaration?, declaration?,
    findIdx?_congr (fun hline => declares_congr hline name) h]

private theorem terminator?_congr (h : List.Forall₂ Text.SameBody lines others)
    (start : Nat) :
    terminator? lines start = terminator? others start := by
  rw [terminator?, terminator?,
    findIdx?_congr contains_terminator_congr (List.forall₂_drop start h)]

private theorem locate_congr [Patterns]
    (h : List.Forall₂ Text.SameBody lines others) (name : Text) :
    locate lines name = locate others name := by
  have hdeclaration := declaration?_congr h name
  have hterminator := terminator?_congr h
  simp only [locate, Locator.locate, locator, hdeclaration, hterminator]

/-- A statement is found on the same lines, or missed for the same reason,
whether the lines have their endings or not, and whatever the endings are. The
name may hold any characters, also line feeds. -/
theorem locate_endings [Patterns] (content name : Text) :
    locate content.lines name = locate content.pieces name ∧
      locate content.toCrlf.pieces name = locate content.pieces name :=
  ⟨locate_congr (Text.forall₂_lines content) name,
    locate_congr (Text.forall₂_pieces_toCrlf content) name⟩

/-- A carriage return of the name is one of the line, and none of its ending. -/
example :
    locate (Text.pieces "a\nlet A\r=\r\n;".toList) "A\r".toList =
      .ok ⟨1, 2⟩ := rfl

end TextOverride.LineScan
