import TextOverride.Json.Document
import TextOverride.Misuse

namespace TextOverride.Log

inductive Level
  | info
  | warn
  | error
  deriving DecidableEq, Repr

def Level.name : Level → Text
  | .info => "info".toList
  | .warn => "warn".toList
  | .error => "error".toList

structure Record where
  level : Level
  subsystem : Text
  action : Text
  message : Text
  deriving DecidableEq, Repr

def Record.document (r : Record) (id : Nat) (stamp : Text) : Json.Document :=
  .object
    [("action".toList, .string r.action),
      ("level".toList, .string r.level.name), ("msg".toList, .string r.message),
      ("rid".toList, .number (.ofNat id)),
      ("subsystem".toList, .string r.subsystem), ("ts".toList, .string stamp)]

def Record.line (r : Record) (id : Nat) (stamp : Text) : Text :=
  (r.document id stamp).write

inductive Sink
  | off
  | standard
  | buffer
  deriving DecidableEq, Repr

structure Logger where
  id : Nat
  sink : Sink
  id_pos : 0 < id

def Logger.off : Logger := ⟨1, .off, by decide⟩

def Logger.new? (id : Nat) (sink : Sink) : Except Misuse Logger :=
  if h : 0 < id then .ok ⟨id, sink, h⟩ else .error .requestIdZero

end TextOverride.Log
