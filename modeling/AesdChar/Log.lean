import AesdChar.Kernel
import AesdChar.Lib.Window

/-!
# What the device is for

An append-only log of commands and the text of a command still being written. A write adds its bytes
to the pending text; the pending text becomes a command when a newline arrives. A reader sees the
last few commands. Two things can go wrong: a write may be refused, which changes nothing, and a
completed command may fail to be stored, which is where the driver departs from any log one would
want.
-/

namespace AesdChar

open Lib

structure Log where
  committed : List Bytes
  pending : Bytes

namespace Log

def empty : Log := ⟨[], []⟩

inductive Effect where
  | refused
  | extended
  | committed
  | dropped
  deriving DecidableEq

/-- How a write ends: whether it gets as far as the pending text, and whether storing succeeds. -/
def effect (admitted stored : Prop) [Decidable admitted] [Decidable stored] (data : Bytes) :
    Effect :=
  if admitted then
    if newline ∈ data then
      if stored then .committed else .dropped
    else .extended
  else .refused

def write (log : Log) (data : Bytes) : Effect → Log
  | .refused => log
  | .extended => { log with pending := log.pending ++ data }
  | .committed => ⟨log.committed ++ [log.pending ++ data], []⟩
  | .dropped => { log with pending := [] }

/-- What serving a client may do to the log, whatever fails: its packets are written one by one,
until one of them completes a command, there are no more, or the server gives up. -/
inductive Serves : Log → (packets : List Bytes) → (failed : Bool) → Log → Prop
  | ended (log : Log) : log.Serves [] false log
  | failed (log : Log) (packets : List Bytes) : log.Serves packets true log
  | extended {log log' : Log} {packet : Bytes} {packets : List Bytes} {failed : Bool}
      (hnewline : newline ∉ packet)
      (hrest : (log.write packet .extended).Serves packets failed log') :
      log.Serves (packet :: packets) failed log'
  | committed (log : Log) {packet : Bytes} (hnewline : newline ∈ packet) :
      log.Serves [packet] false (log.write packet .committed)
  | dropped (log : Log) {packet : Bytes} (hnewline : newline ∈ packet) :
      log.Serves [packet] false (log.write packet .dropped)

/-- The same for clients served one after the other, whichever of them the server gives up on. -/
inductive ServesAll : Log → List (List Bytes) → Log → Prop
  | nil (log : Log) : log.ServesAll [] log
  | cons {log log' log'' : Log} {packets : List Bytes} {failed : Bool} {clients : List (List Bytes)}
      (hserves : log.Serves packets failed log') (hrest : log'.ServesAll clients log'') :
      log.ServesAll (packets :: clients) log''

/-- The commands a reader can still see. -/
def visible (log : Log) (depth : Nat) : List Bytes := log.committed.rtake depth

def evicted (log : Log) (depth : Nat) : List Bytes :=
  log.committed.take (log.committed.length - depth)

theorem evicted_append_visible (log : Log) (depth : Nat) :
    log.evicted depth ++ log.visible depth = log.committed := take_append_rtake _ _

/-! A commit appends to what is visible, and evicts the oldest visible command if there is no
room. -/

section Commit

variable (log : Log) (command : Bytes) {depth : Nat}

theorem visible_concat (hpos : 0 < depth) :
    (⟨log.committed ++ [command], []⟩ : Log).visible depth =
      (if depth ≤ log.committed.length then (log.visible depth).tail else log.visible depth) ++
        [command] := rtake_concat _ _ hpos

theorem evicted_concat (hpos : 0 < depth) :
    (⟨log.committed ++ [command], []⟩ : Log).evicted depth = log.evicted depth ++
      if depth ≤ log.committed.length then (log.visible depth).head?.toList else [] := by
  simp only [evicted, visible, List.length_append, List.length_singleton]
  by_cases hle : depth ≤ log.committed.length
  · have hlt : log.committed.length - depth < log.committed.length := by omega
    rw [if_pos hle, Nat.succ_sub hle, List.take_append_of_le_length hlt,
      List.take_succ_eq_append_getElem hlt, List.rtake, List.head?_drop,
      List.getElem?_eq_getElem hlt]
    rfl
  · rw [if_neg hle, Nat.sub_eq_zero_of_le (by omega), Nat.sub_eq_zero_of_le (by omega)]
    simp

end Commit

end Log

end AesdChar
