import Mathlib.Data.List.Forall2
import TextOverride.Proofs.Json.Decoding
import TextOverride.Proofs.Run.Machine
import TextOverride.Proofs.Text.Lines

namespace TextOverride

namespace Text

theorem unlines_cons (line : Text) (rest : List Text) :
    unlines (line :: rest) = line ++ '\n' :: unlines rest := by
  rw [unlines, List.flatMap_cons, List.append_assoc]
  rfl

theorem unlines_append (first rest : List Text) :
    unlines (first ++ rest) = unlines first ++ unlines rest :=
  List.flatMap_append

variable {ls : List Text}

private theorem pieces_unlines (h : ∀ line ∈ ls, '\n' ∉ line) :
    (unlines ls).pieces = ls.map (· ++ ['\n']) := by
  induction ls with
  | nil => rfl
  | cons line rest ih =>
      obtain ⟨hline, hrest⟩ := List.forall_mem_cons.mp h
      rw [unlines_cons, pieces_line hline, ih hrest, List.map_cons]

private theorem count_unlines
    (h : ∀ line ∈ ls, '\n' ∉ line) : (unlines ls).count '\n' =
    ls.length := by
  induction ls with
  | nil => rfl
  | cons line rest ih =>
      obtain ⟨hline, hrest⟩ := List.forall_mem_cons.mp h
      rw [unlines_cons, List.count_append, List.count_eq_zero.mpr hline,
        List.count_cons_self, ih hrest, List.length_cons]
      omega

end Text

namespace Machine

private theorem lines_say (machine : Machine) (channel : Channel)
    (line : Text) :
    (machine.say channel line).lines channel =
      machine.lines channel ++ [line] := by
  rw [lines, lines, say, List.filter_append, List.map_append]
  simp

theorem lines_log {logger : Log.Logger} (h : logger.sink = .buffer)
    (machine : Machine) (record : Log.Record) :
    (machine.log logger record).lines .buffer =
      machine.lines .buffer ++ [record.line logger.id machine.clock] := by
  rw [log, h]
  exact machine.lines_say .buffer _

end Machine

namespace Log

/-- The line is the JSON text of one object, with what a call says at a time. -/
def Tells (id : Nat) (line : Text) (call : Text × Record) : Prop :=
  Json.Document.read line = .ok (.object
    [("action".toList, .string call.2.action),
      ("level".toList, .string call.2.level.name),
      ("msg".toList, .string call.2.message),
      ("rid".toList, .number (.ofNat id)),
      ("subsystem".toList, .string call.2.subsystem),
      ("ts".toList, .string call.1)])

/-- The text is the log of the calls: it has a line feed for each of them, at
the end of a line that tells the call. -/
structure IsLog (id : Nat) (calls : List (Text × Record))
    (t : Text) : Prop where
  count_feed : t.count '\n' = calls.length
  exists_lines : ∃ ls, t.pieces = ls.map (· ++ ['\n']) ∧
    List.Forall₂ (Tells id) ls calls

private theorem Level.name_injective {level other : Level}
    (h : level.name = other.name) :
    level = other := by
  cases level <;> cases other <;> first | rfl | exact absurd h (by decide)

private theorem Tells.unique {id id' : Nat} {line : Text}
    {call call' : Text × Record} (h : Tells id line call)
    (h' : Tells id' line call') : call = call' := by
  obtain ⟨stamp, level, subsystem, action, message⟩ := call
  obtain ⟨stamp', level', subsystem', action', message'⟩ := call'
  have hobject := Except.ok.inj (h.symm.trans h')
  simp only [Json.Document.object.injEq, List.cons.injEq, Prod.mk.injEq,
    true_and, and_true, Json.Document.string.injEq] at hobject
  obtain ⟨haction, hlevel, hmessage, _, hsubsystem, hstamp⟩ := hobject
  rw [haction, Level.name_injective hlevel, hmessage, hsubsystem, hstamp]

/-- A text is the log of one list of calls only. -/
theorem IsLog.unique {id id' : Nat} {calls calls' : List (Text × Record)}
    {t : Text} (h : IsLog id calls t) (h' : IsLog id' calls' t) :
    calls = calls' := by
  obtain ⟨ls, hpieces, htells⟩ := h.exists_lines
  obtain ⟨ls', hpieces', htells'⟩ := h'.exists_lines
  have hinjective : Function.Injective fun line : Text => line ++ ['\n'] :=
    fun _ _ => List.append_cancel_right
  obtain rfl :=
    List.map_injective_iff.mpr hinjective (hpieces.symm.trans hpieces')
  clear h h' hpieces hpieces'
  induction htells generalizing calls' with
  | nil =>
      cases htells'
      rfl
  | cons htell _ ih =>
      cases htells' with
      | cons htell' hrest => rw [htell.unique htell', ih hrest]

private theorem Record.no_feed_line (record : Record) (id : Nat)
    (stamp : Text) :
    '\n' ∉ record.line id stamp := by
  intro hmem
  exact Json.Document.noControl_write (record.document id stamp) '\n' hmem
    (by decide)

private theorem Record.fitsIn_document (record : Record) (id : Nat)
    (stamp : Text) :
    (record.document id stamp).FitsIn Json.Document.nestingLimit := by
  intro member hmem
  simp only [List.mem_cons, List.not_mem_nil, or_false] at hmem
  rcases hmem with rfl | rfl | rfl | rfl | rfl | rfl <;> trivial

private theorem Record.tells_line (record : Record) (id : Nat) (stamp : Text) :
    Tells id (record.line id stamp) (stamp, record) :=
  Json.Document.read_write (record.fitsIn_document id stamp)

def callLines (id : Nat) (calls : List (Text × Record)) : List Text :=
  calls.map fun (stamp, record) => record.line id stamp

theorem isLog_callLines (id : Nat) (calls : List (Text × Record)) :
    IsLog id calls (Text.unlines (callLines id calls)) := by
  have hfeed : ∀ line ∈ callLines id calls, '\n' ∉ line := by
    intro line hline
    obtain ⟨⟨stamp, record⟩, _, rfl⟩ := List.mem_map.mp hline
    exact record.no_feed_line id stamp
  constructor
  · rw [Text.count_unlines hfeed, callLines, List.length_map]
  · refine ⟨callLines id calls, Text.pieces_unlines hfeed, ?_⟩
    rw [callLines, List.forall₂_map_left_iff, List.forall₂_same]
    exact fun call _ => call.2.tells_line id call.1

def Logger.writeAll [FileTree.Device] (logger : Logger) :
    List (Text × Record) → StateM Machine Unit
  | [] => pure ()
  | (stamp, record) :: rest => do
      modify fun machine => { machine with clock := stamp }
      logger.write record
      logger.writeAll rest

private theorem exists_writeAll [FileTree.Device] {logger : Logger}
    (h : logger.sink = .buffer) (calls : List (Text × Record))
    (machine : Machine) :
    ∃ after, Id.run ((logger.writeAll calls).run machine) = ((), after) ∧
      after.lines .buffer = machine.lines .buffer ++
        callLines logger.id calls := by
  induction calls generalizing machine with
  | nil => exact ⟨machine, rfl, (List.append_nil _).symm⟩
  | cons call rest ih =>
      obtain ⟨stamp, record⟩ := call
      let started : Machine := { machine with clock := stamp }
      obtain ⟨after, hrun, hlines⟩ := ih (started.log logger record)
      refine ⟨after, ?_, ?_⟩
      · have hset :
            Id.run ((modify fun machine => { machine with clock := stamp } :
            StateM Machine Unit).run machine) = ((), started) := rfl
        rw [Logger.writeAll, Machine.run_bind hset,
          Machine.run_bind (Machine.run_write ..), hrun]
      · rw [hlines, Machine.lines_log h, List.append_assoc]
        rfl

/-- Whatever texts are logged, a buffer has one line for each record behind what
it held, and each line read as JSON gives its record back. No other calls leave
the same lines. -/
theorem writeAll_isLog [FileTree.Device] (logger : Logger)
    (h : logger.sink = .buffer) (calls : List (Text × Record))
    (machine : Machine) :
    ∃ after added, Id.run ((logger.writeAll calls).run machine) = ((), after) ∧
      after.text .buffer = machine.text .buffer ++ added ∧
      IsLog logger.id calls added ∧
      ∀ id other, IsLog id other added → other = calls := by
  obtain ⟨after, hrun, hlines⟩ := exists_writeAll h calls machine
  have hlog := isLog_callLines logger.id calls
  refine ⟨after, _, hrun, ?_, hlog, fun _ _ hother => hother.unique hlog⟩
  rw [Machine.text, Machine.text, hlines, Text.unlines_append]

def forgedCalls : List (Text × Record) :=
  [("noon".toList, ⟨.info, "blocks".toList, "parsed".toList,
      "\"\x7d\n\x7b\"action\":\"finished\"".toList⟩),
    ("noon".toList, ⟨.error, "\\".toList, "\x00\x1f".toList, "é\r\n𝕏".toList⟩)]

def bufferLogger : Logger := ⟨7, .buffer, by decide⟩

theorem writeAll_isLog_forged :
    bufferLogger.sink = .buffer ∧
      ∃ after,
        Id.run ((bufferLogger.writeAll forgedCalls).run
          ⟨⟨[]⟩, [], 1, [], 1, []⟩) = ((), after) ∧
        IsLog 7 forgedCalls (after.text .buffer) ∧
        ∀ id other, IsLog id other (after.text .buffer) →
          other = forgedCalls := by
  obtain ⟨after, added, hrun, htext, hlog, hunique⟩ :=
    writeAll_isLog bufferLogger rfl forgedCalls ⟨⟨[]⟩, [], 1, [], 1, []⟩
  exact ⟨rfl, after, hrun, htext ▸ hlog, htext ▸ hunique⟩

end Log

end TextOverride
