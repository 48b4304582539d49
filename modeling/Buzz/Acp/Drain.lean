import Buzz.Acp.Representation

/-!
# What a drain reports

`drain_channel` clears the three stores of a channel and returns the ids of its queue. Its caller
takes back the reactions of the returned events, so an event that is dropped and not returned keeps
its reaction: `reportsAll_iff` says when this does not happen.
-/
namespace Acp

open Nostr Lib

namespace EventQueue

/-- A drain returns the id of everything it drops, drops all that the channel holds, and leaves the
in-flight tracking and the other channels alone. -/
structure ReportsAll (q : EventQueue) (channel : Uuid) : Prop where
  reported : (↑(q.drainChannel channel).1 : Multiset String) =
    ↑((q.drainedBy channel).map fun item => item.2.toHex)
  gone : (q.drainChannel channel).2.drainedBy channel = []
  inFlight : (q.drainChannel channel).2.inFlightChannels = q.inFlightChannels ∧
    (q.drainChannel channel).2.inFlightDeadlines = q.inFlightDeadlines ∧
    (q.drainChannel channel).2.inFlightBatchSizes = q.inFlightBatchSizes
  others : ∀ other, other ≠ channel → SameTables other q (q.drainChannel channel).2

variable (q : EventQueue) (channel : Uuid)

theorem drainedBy_drainChannel : (q.drainChannel channel).2.drainedBy channel = [] := by
  simp [drainChannel, drainedBy, Map.row_erase]

theorem sameTables_drainChannel {other : Uuid} (different : other ≠ channel) :
    SameTables other q (q.drainChannel channel).2 :=
  { SameTables.refl other q with
    queues := AList.lookup_erase_ne different
    retryAfter := AList.lookup_erase_ne different
    retryCounts := AList.lookup_erase_ne different
    cancelledBatches := AList.lookup_erase_ne different
    cancelReasons := AList.lookup_erase_ne different
    withheldNativeSteer := AList.lookup_erase_ne different }

theorem drained_eq_reported_add :
    (↑((q.drainedBy channel).map fun item => item.2.toHex) : Multiset String) =
      ↑(q.drainChannel channel).1 +
        (↑((q.withheldNativeSteer.row channel).map fun qe => qe.event.id.toHex) +
          ↑((q.cancelledBatches.row channel).map fun be => be.event.id.toHex)) := by
  simp only [drainedBy, drainChannel, List.map_append, List.map_map, ← Multiset.coe_add, add_assoc]
  rfl

theorem reportsAll_iff : q.ReportsAll channel ↔
    q.withheldNativeSteer.row channel = [] ∧ q.cancelledBatches.row channel = [] := by
  have split := drained_eq_reported_add q channel
  constructor
  · rintro ⟨reported, -, -, -⟩
    rw [← reported] at split
    -- The ids that are not returned add nothing to the multiset, so there are none.
    have nothing := left_eq_add.mp split
    rw [Multiset.coe_add, Multiset.coe_eq_zero, List.append_eq_nil_iff] at nothing
    exact ⟨List.map_eq_nil_iff.mp nothing.1, List.map_eq_nil_iff.mp nothing.2⟩
  · rintro ⟨withheld, cancelled⟩
    rw [withheld, cancelled] at split
    exact ⟨by simpa using split.symm, drainedBy_drainChannel q channel, ⟨rfl, rfl, rfl⟩,
      fun other different => sameTables_drainChannel q channel different⟩

end EventQueue

namespace Harness

/-- A turn is cancelled and its event stored for the next one. -/
def cancelledTurn : List Action :=
  [.push mention, .flushNext 20,
    .requeueAsCancelled ⟨⟨7⟩, [mention.toBatchEvent], [], none⟩ .interrupt, .markComplete ⟨7⟩ 30]

/-- The drain drops the cancelled event and returns no id. -/
theorem not_reportsAll_cancelledTurn :
    Along perform Allowed (start .queue (Duration.fromSecs defaultInFlightDeadlineSecs))
        cancelledTurn ∧
      ¬ (cancelledTurn.foldl perform
        (start .queue (Duration.fromSecs defaultInFlightDeadlineSecs))).queue.ReportsAll ⟨7⟩ := by
  refine ⟨?_, fun reports => ?_⟩
  · simp only [cancelledTurn, Along, Allowed]
    refine ⟨?_, ?_, ?_, ?_, ?_⟩ <;> decide
  · have reported := Multiset.coe_eq_coe.mp reports.reported
    exact absurd reported.length_eq (by decide)

end Harness

end Acp
