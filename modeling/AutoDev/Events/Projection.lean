/-
# `AutoDev.Events.Projection` — the projection row and the fold of the log

`append` keeps a status and a last sequence per partition; `reconstruct_run`
computes them from the stored events.  Without a purge the numbers of a
partition are 1, 2, … (`Numbered`), so the fold goes through the events in the
order they were appended, and the two agree event by event — but for one type:
the projection makes `completed` of a `flow.run.completed`, whatever it says,
and the fold takes the status FROM ITS PAYLOAD, where any text may stand.
-/
import AutoDev.Events.Reconstruct
import AutoDev.Events.Sequence

namespace AutoDev.Events

open History List

def EventStore.step (s : EventStore) (o : EventEnvelope × ℤ) : EventStore := (s.append o.1 o.2).1

/-- The projection says of the partition what the fold of its events says. -/
structure Agrees (q : String) (s : EventStore) : Prop where
  status : (s.projections.lookup q).elim "" (·.status) = (s.reconstructRun q).status
  count : s.lastSequence q = (s.reconstructRun q).eventCount
  last : s.lastSequence q = maxSequence q s.events

def SaysCompleted (q : String) (s : EventStore) (o : EventEnvelope × ℤ) : Prop :=
  (∀ e ∈ s.events, e.envelope.eventId ≠ o.1.eventId) → o.1.partitionKey = q →
    o.1.type = "flow.run.completed" → textAt o.1.data "status" "completed" = "completed"

structure Numbered (q : String) (s : EventStore) : Prop where
  rising : (partition q s.events).Pairwise fun a b => a.sequence < b.sequence
  pos : ∀ e ∈ partition q s.events, 0 < e.sequence
  last : s.lastSequence q = (partition q s.events).length
  max : maxSequence q s.events = (partition q s.events).length

section

variable {q : String} {s : EventStore}

theorem Numbered.listEvents (h : Numbered q s) : s.listEvents q none = partition q s.events := by
  unfold EventStore.listEvents
  rw [filter_eq_self.mpr (by simpa using h.pos), List.Pairwise.insertionSort_eq]
  exact h.rising.imp le_of_lt

theorem Numbered.agrees_iff (h : Numbered q s) : Agrees q s ↔
    (s.projections.lookup q).elim "" (·.status) =
      ((partition q s.events).foldl Folding.next {}).status := by
  have hlist := h.listEvents
  refine ⟨fun ha => ?_, fun hs => ⟨?_, ?_, h.last.trans h.max.symm⟩⟩
  · simpa [EventStore.reconstructRun, hlist] using ha.status
  · simpa [EventStore.reconstructRun, hlist] using hs
  · simpa [EventStore.reconstructRun, hlist] using h.last

theorem Folding.status_next (f : Folding) (e : StoredEvent) : (f.next e).status =
    if e.envelope.type = "flow.run.completed" then textAt e.envelope.data "status" "completed"
    else (statusByEvent e.envelope.type).getD f.status := by
  unfold Folding.next
  split <;> simp_all

variable {e : StoredEvent} {row : EventProjection}

theorem maxSequence_snoc {events : List StoredEvent} (he : e.partitionKey = q)
    (hmax : maxSequence q events ≤ e.sequence) : maxSequence q (events ++ [e]) = e.sequence := by
  refine le_antisymm ?_ (le_maxSequence (by simp) he)
  rcases maxSequence_attained q (events ++ [e]) with h | ⟨a, ha, haq, h⟩
  · omega
  · rw [← h]
    rcases mem_append.mp ha with ha | ha
    · exact (le_maxSequence ha haq).trans hmax
    · rw [mem_singleton.mp ha]

theorem Numbered.append_same (h : Numbered q s) (he : e.partitionKey = q)
    (hseq : e.sequence = maxSequence q s.events + 1) (hrow : row.lastSequence = e.sequence) :
    Numbered q ⟨s.events ++ [e], s.projections.insert q row⟩ := by
  have hpart : partition q (s.events ++ [e]) = _ := partition_snoc_same he
  have hmax : maxSequence q (s.events ++ [e]) = _ := maxSequence_snoc he (by omega)
  refine ⟨?_, ?_, ?_, ?_⟩
  · refine hpart ▸ pairwise_append.mpr ⟨h.rising, pairwise_singleton _ _, ?_⟩
    intro a ha b hb
    rw [mem_singleton.mp hb, hseq]
    exact Nat.lt_succ_of_le (le_maxSequence (mem_partition.mp ha).1 (mem_partition.mp ha).2)
  · exact hpart ▸ forall_mem_append.mpr ⟨h.pos, by simp [hseq]⟩
  · simp [EventStore.lastSequence, hpart, hrow, hseq, h.max]
  · simp [hmax, hpart, hseq, h.max]

theorem Numbered.append_other (h : Numbered q s) (he : e.partitionKey ≠ q) :
    Numbered q ⟨s.events ++ [e], s.projections.insert e.partitionKey row⟩ := by
  have hpart : partition q (s.events ++ [e]) = _ := partition_snoc_other he
  refine ⟨hpart ▸ h.rising, hpart ▸ h.pos, ?_, ?_⟩
  · simpa [EventStore.lastSequence, AList.lookup_insert_ne (Ne.symm he), hpart] using h.last
  · simpa [maxSequence, hpart] using h.max

/-- One append: the partition stays numbered, and the two agree after it exactly if the event, in
case it completes the run, says so. -/
theorem Numbered.step (h : Numbered q s) (o : EventEnvelope × ℤ) : Numbered q (s.step o) ∧
    (Agrees q s → (Agrees q (s.step o) ↔ SaysCompleted q s o)) := by
  have hboth : ∀ {s' : EventStore} {p : Prop}, Numbered q s' → (Agrees q s → (_ ↔ p)) →
      Numbered q s' ∧ (Agrees q s → (Agrees q s' ↔ p)) :=
    fun hn hp => ⟨hn, fun ha => hn.agrees_iff.trans (hp ha)⟩
  obtain ⟨envelope, storedAt⟩ := o
  unfold EventStore.step EventStore.append SaysCompleted
  split_ifs with hdup
  · obtain ⟨e, he, heq⟩ := any_eq_true.mp hdup
    exact ⟨h, fun ha => iff_of_true ha fun hnew => absurd (of_decide_eq_true heq) (hnew e he)⟩
  have hnew : ∀ e ∈ s.events, e.envelope.eventId ≠ envelope.eventId := by simpa using hdup
  by_cases hq : envelope.partitionKey = q
  · subst hq
    refine hboth (h.append_same rfl rfl rfl) fun ha => ?_
    have hpart : ∀ n t, partition envelope.partitionKey (s.events ++ [⟨n, envelope, t⟩]) = _ :=
      fun n t => partition_snoc_same rfl
    simp only [hpart, foldl_append, foldl_cons, foldl_nil, Folding.status_next,
      AList.lookup_insert, Option.elim_some, EventProjection.fold, imp_iff_right hnew]
    by_cases htype : envelope.type = "flow.run.completed"
    · simpa [htype, statusByEvent] using eq_comm
    · simp [htype, h.agrees_iff.mp ha]
  · refine hboth (h.append_other hq) fun ha =>
      iff_of_true ?_ fun _ hq' => absurd hq' hq
    simpa [AList.lookup_insert_ne (Ne.symm hq), partition_snoc_other (e := ⟨_, envelope, _⟩) hq]
      using h.agrees_iff.mp ha

end

/-- The projection agrees with the log after every append exactly if every event that completes
the run of the partition says `completed`. -/
theorem projection_is_fold_iff (q : String) (ops : List (EventEnvelope × ℤ)) :
    Throughout EventStore.step (Agrees q) {} ops ↔
      Meets EventStore.step (SaysCompleted q) {} ops := by
  have hempty : Numbered q {} := ⟨.nil, by simp [partition], rfl, rfl⟩
  exact throughout_iff_meets (fun s o h _ _ => (h.step o).1)
    (fun s o h _ ha => (h.step o).2 ha) (fun _ _ => trivial) hempty (hempty.agrees_iff.mpr rfl)

/-- A run that says it ended with a warning. -/
theorem projection_contradicts_log :
    ¬ Throughout EventStore.step (Agrees "run-1") {}
      [(⟨"evt_1", "flow.run.completed", "acme", "run-1", 0,
        [("status", .str "completed_with_warnings")]⟩, 0)] := by
  rintro ⟨-, h⟩
  exact absurd h.status (by decide +kernel)

end AutoDev.Events
