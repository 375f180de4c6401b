import Stevedore.Event

/-!
Following the events of a run. A feed remembers how many events it has passed. Only the latest
`Feed.capacity` events are held for feeds, so one that falls further behind misses events and is
told how many; together with what it is given, these are all the events since it was read last
(`missed_add_length`).
-/

namespace Stevedore

/-- A place in the events of a run. -/
structure Feed where
  position : Nat
deriving DecidableEq, Repr

namespace Feed

/-- How many events are held for feeds. -/
def capacity : Nat := 1024

/-- A feed of the events from now on. -/
def following (log : List Event) : Feed := ⟨log.length⟩

/-- What a feed hands out when it is read. -/
structure Delivery where
  /-- How many events are no longer held. -/
  missed : Nat
  events : List Event
deriving DecidableEq

/-- Reads everything that is held for the feed. -/
def read (log : List Event) (f : Feed) : Delivery × Feed :=
  let missed := log.length - capacity - f.position
  (⟨missed, log.drop (f.position + missed)⟩, following log)

/-- What a reader prints who follows a run from its start and comes to read at its end. -/
def lines (log : List Event) : List String :=
  ((Feed.mk 0).read log).1.events.filterMap (·.line?)

/-- Nothing is lost unnoticed. -/
theorem missed_add_length (log : List Event) (f : Feed) :
    ((f.read log).1.missed + (f.read log).1.events.length) = log.length - f.position := by
  simp only [read, List.length_drop]
  omega

/-- At most the latest `capacity` events are handed out. -/
theorem length_events_le (log : List Event) (f : Feed) :
    (f.read log).1.events.length ≤ capacity := by
  simp only [read, List.length_drop]
  omega

end Feed

end Stevedore
