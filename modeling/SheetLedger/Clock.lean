/-!
# Version clocks

Every change is stamped with a version, a number of milliseconds. A clock hands out one stamp for
the present time that it is told, and is told the time anew for each stamp.

* The *wall* clock repeats the time it is told, so that it may repeat a stamp or go back.
* The *monotonic* clock never repeats a stamp and never goes back: it hands out the time or the
  number after its last stamp, whichever is later, until stamps reach the end of their range.
* The *listed* clock hands out given stamps in turn and then counts on from the last.
-/

namespace SheetLedger

/-- The largest stamp. -/
def lastStamp : Nat := (1 <<< 64) - 1

/-- A source of version stamps. -/
inductive Clock where
  | wall
  /-- The monotonic clock after the stamp `last`. -/
  | monotonic (last : Nat)
  /-- The listed clock with these stamps to come, after the stamp `last`. -/
  | listed (stamps : List Nat) (last : Nat)
deriving Repr, DecidableEq

namespace Clock

/-- The stamp for the present time, and the clock after it. -/
def next (now : Nat) : Clock → Nat × Clock
  | wall => (now, wall)
  | monotonic last =>
    let stamp := max now (min (last + 1) lastStamp)
    (stamp, monotonic stamp)
  | listed [] last => (last + 1, listed [] (last + 1))
  | listed (stamp :: stamps) _ => (stamp, listed stamps stamp)

/-- The stamps for a list of present times. -/
def stamps : Clock → List Nat → List Nat
  | _, [] => []
  | clock, now :: times => (clock.next now).1 :: (clock.next now).2.stamps times

end Clock

/-- The clocks that a configuration can name. -/
inductive ClockKind where
  | wall
  | monotonic
deriving Repr, DecidableEq

namespace ClockKind

/-- The name of a clock in a configuration. -/
def name : ClockKind → String
  | wall => "wall"
  | monotonic => "monotonic"

/-- The clock with a name. -/
def ofName? (name : String) : Option ClockKind :=
  if name = "wall" then some .wall
  else if name = "monotonic" then some .monotonic
  else none

/-- The clock for a store whose newest version is `latest`; the monotonic clock goes on from
there. -/
def start (kind : ClockKind) (latest : Option Nat) : Clock :=
  match kind with
  | wall => .wall
  | monotonic => .monotonic (latest.getD 0)

end ClockKind

end SheetLedger
