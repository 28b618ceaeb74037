/-
# `AutoDev.Events.Sequence` — sequence numbers, projections and readers

What the event store promises about its numbers: each append gets a number
above every number its partition ever saw, so that `last_sequence` of the
projection never decreases, and a reader that asks for what comes after the
last number it saw receives every event that was appended since, once.

The store computes a number from the rows it still has, and a purge may have
deleted the newest one.  `sequence_advances_iff` says when all this holds: at
each append the newest event of the partition must still be stored, and at
each read nothing that was appended since the last read may be gone.

The state carries, beside the store, the log of ALL events that were ever
appended, and one reader of one partition; a reader changes nothing for the
others.
-/
import AutoDev.Lib.History
import AutoDev.Events.Store

namespace AutoDev.Events

open History List Option

/-! ## Partitions of a list of events -/

section Partition

variable {q : String} {events : List StoredEvent} {e : StoredEvent}

theorem mem_partition : e ∈ partition q events ↔ e ∈ events ∧ e.partitionKey = q := by
  simp [partition]

theorem partition_snoc_same (h : e.partitionKey = q) :
    partition q (events ++ [e]) = partition q events ++ [e] := by
  simp [partition, h]

theorem partition_snoc_other (h : e.partitionKey ≠ q) :
    partition q (events ++ [e]) = partition q events := by
  simp [partition, h]

theorem le_maxSequence (h : e ∈ events) (hq : e.partitionKey = q) :
    e.sequence ≤ maxSequence q events := by
  have hmem : e.sequence ∈ (partition q events).map (·.sequence) :=
    mem_map_of_mem (mem_partition.mpr ⟨h, hq⟩)
  unfold maxSequence
  generalize (partition q events).map (·.sequence) = l at hmem
  induction l with
  | nil => cases hmem
  | cons n l ih =>
    rcases mem_cons.mp hmem with h | h
    · rw [h]
      exact le_max_left _ _
    · exact (ih h).trans (le_max_right _ _)

theorem maxSequence_attained (q : String) (events : List StoredEvent) :
    maxSequence q events = 0 ∨
      ∃ e ∈ events, e.partitionKey = q ∧ e.sequence = maxSequence q events := by
  have hfold : ∀ l : List StoredEvent, (l.map (·.sequence)).foldr max 0 = 0 ∨
      ∃ e ∈ l, e.sequence = (l.map (·.sequence)).foldr max 0 := by
    intro l
    induction l with
    | nil => exact Or.inl rfl
    | cons a l ih =>
      rw [map_cons, foldr_cons]
      rcases le_total a.sequence ((l.map (·.sequence)).foldr max 0) with h | h
      · rw [max_eq_right h]
        exact ih.imp_right fun ⟨e, he, hs⟩ => ⟨e, mem_cons_of_mem a he, hs⟩
      · exact Or.inr ⟨a, mem_cons_self, (max_eq_left h).symm⟩
  rcases hfold (partition q events) with h | ⟨e, he, hs⟩
  · exact Or.inl h
  · obtain ⟨hmem, hq⟩ := mem_partition.mp he
    exact Or.inr ⟨e, hmem, hq, hs⟩

/-- The numbers of each partition rise along the list. -/
def Rising (events : List StoredEvent) : Prop :=
  events.Pairwise fun a b => a.partitionKey = b.partitionKey → a.sequence < b.sequence

theorem Rising.sublist {events' : List StoredEvent} (h : Rising events)
    (hsub : events'.Sublist events) : Rising events' :=
  List.Pairwise.sublist hsub h

theorem Rising.partition (h : Rising events) (q : String) :
    (partition q events).Pairwise fun a b => a.sequence < b.sequence := by
  refine (h.sublist filter_sublist).imp_of_mem fun ha hb hab => hab ?_
  exact (mem_partition.mp ha).2.trans (mem_partition.mp hb).2.symm

theorem Rising.le_getLast {last : StoredEvent} (h : Rising events)
    (hlast : (AutoDev.Events.partition q events).getLast? = some last)
    (he : e ∈ AutoDev.Events.partition q events) : e.sequence ≤ last.sequence := by
  obtain ⟨init, hinit⟩ := getLast?_eq_some_iff.mp hlast
  have hpair := h.partition q
  rw [hinit] at hpair he
  rcases mem_append.mp he with hmem | hmem
  · exact ((pairwise_append.mp hpair).2.2 e hmem last mem_cons_self).le
  · rw [mem_singleton.mp hmem]

end Partition

/-! ## The store, its log and a reader -/

/-- The store, every event it ever took, and a reader: the last number the reader saw, and how
much of the log was there when it last read. -/
structure Tape where
  store : EventStore := {}
  log : List StoredEvent := []
  lastSeen : Option ℕ := none
  readUpTo : ℕ := 0

inductive TapeOp where
  | append (envelope : EventEnvelope) (storedAt : ℤ)
  | purge (retentionDays now : ℤ)
  /-- The reader asks for what comes after the last number it saw. -/
  | read

/-- What was appended to the partition since the reader last read. -/
def Tape.unread (s : Tape) (p : String) : List StoredEvent := partition p (s.log.drop s.readUpTo)

def Tape.received (s : Tape) (p : String) : List StoredEvent := s.store.listEvents p s.lastSeen

/-- One operation, with a reader of the partition `p`. -/
def Tape.step (p : String) (s : Tape) : TapeOp → Tape
  | .append envelope storedAt =>
    let (store, stored) := s.store.append envelope storedAt
    { s with store, log := s.log ++ stored.toList }
  | .purge retentionDays now => { s with store := (s.store.purgeExpired retentionDays now).1 }
  | .read =>
    { s with
      lastSeen := ((s.received p).getLast?.map (·.sequence)).or s.lastSeen
      readUpTo := s.log.length }

/-- No `last_sequence` decreases; a new number is above all that its partition ever had; the
reader receives exactly what was appended since it last read, in that order. -/
def Advances (p : String) (s : Tape) (o : TapeOp) : Prop :=
  (∀ q, s.store.lastSequence q ≤ (s.step p o).store.lastSequence q) ∧
  match o with
  | .append envelope storedAt => ∀ stored ∈ (s.store.append envelope storedAt).2,
      ∀ e ∈ s.log, e.partitionKey = envelope.partitionKey → e.sequence < stored.sequence
  | .purge .. => True
  | .read => s.received p = s.unread p

def FindsNewest (p : String) (s : Tape) : TapeOp → Prop
  | .append envelope _ => (∀ e ∈ s.store.events, e.envelope.eventId ≠ envelope.eventId) →
      ∀ row ∈ s.store.projections.lookup envelope.partitionKey,
        ∃ e ∈ s.store.events, e.partitionKey = envelope.partitionKey ∧
          e.sequence = row.lastSequence
  | .purge .. => True
  | .read => ∀ e ∈ s.unread p, e ∈ s.store.events

/-- What holds in every state of a history in which the numbers advance. -/
structure Ordered (p : String) (s : Tape) : Prop where
  /-- Along the log the numbers of a partition rise. -/
  rising : Rising s.log
  /-- What is stored is what is left of the log. -/
  rows : s.store.events.Sublist s.log
  positive : ∀ e ∈ s.log, 0 < e.sequence
  /-- The projection names the newest event, stored or not. -/
  newest : ∀ q, (s.store.projections.lookup q).map (·.lastSequence)
    = (partition q s.log).getLast?.map (·.sequence)
  readUpTo : s.readUpTo ≤ s.log.length
  /-- The reader has seen the newest event of what it read. -/
  seen : s.lastSeen.getD 0
    = (partition p (s.log.take s.readUpTo)).getLast?.elim 0 (·.sequence)

variable {p q : String} {s : Tape}

namespace Ordered

section

variable (h : Ordered p s)

include h

theorem le_lastSequence {e : StoredEvent} (he : e ∈ s.log) :
    e.sequence ≤ s.store.lastSequence e.partitionKey := by
  have hmem : e ∈ partition e.partitionKey s.log := mem_partition.mpr ⟨he, rfl⟩
  obtain ⟨last, hlast⟩ := isSome_iff_exists.mp
    (getLast?_isSome.mpr (ne_nil_of_mem hmem))
  have hnew := h.newest e.partitionKey
  rw [hlast, map_some, map_eq_some_iff] at hnew
  obtain ⟨row, hrow, hseq⟩ := hnew
  rw [EventStore.lastSequence, hrow, elim_some, hseq]
  exact h.rising.le_getLast hlast hmem

theorem exists_newest {row : EventProjection}
    (hrow : s.store.projections.lookup q = some row) :
    ∃ e ∈ s.log, e.partitionKey = q ∧ e.sequence = row.lastSequence := by
  have hnew := h.newest q
  rw [hrow, map_some, eq_comm, map_eq_some_iff] at hnew
  obtain ⟨e, he, hseq⟩ := hnew
  obtain ⟨hmem, hq⟩ := mem_partition.mp (mem_of_getLast? he)
  exact ⟨e, hmem, hq, hseq⟩

/-- Nothing that the reader was given by now is above the last number it saw. -/
theorem le_lastSeen {e : StoredEvent}
    (he : e ∈ partition p (s.log.take s.readUpTo)) : e.sequence ≤ s.lastSeen.getD 0 := by
  obtain ⟨last, hlast⟩ := isSome_iff_exists.mp
    (getLast?_isSome.mpr (ne_nil_of_mem he))
  rw [h.seen, hlast, elim_some]
  exact (h.rising.sublist (take_sublist _ _)).le_getLast hlast he

theorem lastSeen_lt {e : StoredEvent} (he : e ∈ s.unread p) :
    s.lastSeen.getD 0 < e.sequence := by
  obtain ⟨hdrop, hep⟩ := mem_partition.mp he
  rw [h.seen]
  rcases hlast : (partition p (s.log.take s.readUpTo)).getLast? with _ | last
  · exact h.positive e (mem_of_mem_drop hdrop)
  · obtain ⟨htake, hlp⟩ := mem_partition.mp (mem_of_getLast? hlast)
    have hsplit := h.rising
    rw [← take_append_drop s.readUpTo s.log] at hsplit
    exact (pairwise_append.mp hsplit).2.2 last htake e hdrop (hlp.trans hep.symm)

/-- The rows come in the order of their numbers, so that sorting them changes nothing. -/
theorem received_eq :
    s.received p = (partition p s.store.events).filter (s.lastSeen.getD 0 < ·.sequence) := by
  unfold Tape.received EventStore.listEvents
  rw [List.Pairwise.insertionSort_eq]
  · simp
  · exact (((h.rising.sublist h.rows).partition p).sublist filter_sublist).imp le_of_lt

theorem received_sublist : (s.received p).Sublist (s.unread p) := by
  rw [h.received_eq]
  have hrows : (partition p s.store.events).Sublist
      (partition p (s.log.take s.readUpTo) ++ s.unread p) := by
    have hsub := h.rows.filter (·.partitionKey = p)
    rwa [← take_append_drop s.readUpTo s.log, filter_append] at hsub
  have hnone : (partition p (s.log.take s.readUpTo)).filter (s.lastSeen.getD 0 < ·.sequence)
      = [] :=
    filter_eq_nil_iff.mpr fun e he => by simpa using h.le_lastSeen he
  have hfil := hrows.filter (s.lastSeen.getD 0 < ·.sequence)
  rw [filter_append, hnone, nil_append] at hfil
  exact hfil.trans filter_sublist

theorem received_eq_unread_iff :
    s.received p = s.unread p ↔ ∀ e ∈ s.unread p, e ∈ s.store.events := by
  constructor
  · intro heq e he
    rw [← heq, h.received_eq] at he
    exact (mem_partition.mp (mem_filter.mp he).1).1
  intro hstored
  have hnodup : (s.unread p).Nodup :=
    ((h.rising.sublist (drop_sublist _ _)).partition p).imp fun hlt heq =>
      (heq ▸ hlt).ne rfl
  refine h.received_sublist.eq_of_length_le (subperm_of_subset hnodup fun e he => ?_).length_le
  rw [h.received_eq]
  refine mem_filter.mpr ⟨mem_partition.mpr ⟨hstored e he, (mem_partition.mp he).2⟩, ?_⟩
  simpa using h.lastSeen_lt he

end

end Ordered

/-! ## One operation -/

theorem append_cases (s : EventStore) (envelope : EventEnvelope) (storedAt : ℤ) :
    (s.append envelope storedAt = (s, none) ∧
      ∃ e ∈ s.events, e.envelope.eventId = envelope.eventId) ∨
    ((∀ e ∈ s.events, e.envelope.eventId ≠ envelope.eventId) ∧
      ∃ stored row, stored.sequence = maxSequence envelope.partitionKey s.events + 1 ∧
        stored.partitionKey = envelope.partitionKey ∧ row.lastSequence = stored.sequence ∧
        s.append envelope storedAt = ({
          events := s.events ++ [stored]
          projections := s.projections.insert envelope.partitionKey row }, some stored)) := by
  unfold EventStore.append
  split_ifs with hdup
  · exact Or.inl ⟨rfl, by simpa using hdup⟩
  · exact Or.inr ⟨by simpa using hdup, _, _, rfl, rfl, rfl, rfl⟩

theorem lastSequence_insert (s : EventStore) (events : List StoredEvent) (q q' : String)
    (row : EventProjection) :
    ({ events, projections := s.projections.insert q row } : EventStore).lastSequence q'
      = if q' = q then row.lastSequence else s.lastSequence q' := by
  unfold EventStore.lastSequence
  split_ifs with h
  · rw [h, AList.lookup_insert, elim_some]
  · rw [AList.lookup_insert_ne h]

theorem purgeExpired_projections (s : EventStore) (retentionDays now : ℤ) :
    (s.purgeExpired retentionDays now).1.projections = s.projections := by
  unfold EventStore.purgeExpired
  split_ifs <;> rfl

theorem purgeExpired_sublist (s : EventStore) (retentionDays now : ℤ) :
    (s.purgeExpired retentionDays now).1.events.Sublist s.events := by
  unfold EventStore.purgeExpired
  split_ifs
  · exact List.Sublist.refl _
  · exact filter_sublist

theorem append_advances_iff (h : Ordered p s) (envelope : EventEnvelope) (storedAt : ℤ) :
    Advances p s (.append envelope storedAt) ↔ FindsNewest p s (.append envelope storedAt) := by
  rcases append_cases s.store envelope storedAt with ⟨heq, hdup⟩ | ⟨hnew, stored, row, hseq, hpk,
    hrow, heq⟩
  · refine iff_of_true ⟨fun q => ?_, ?_⟩ fun hne => ?_
    · simp [Tape.step, heq]
    · simp [heq]
    · obtain ⟨e, he, hid⟩ := hdup
      exact absurd hid (hne e he)
  constructor
  · rintro ⟨-, habove⟩ - row' hrow'
    -- the newest number is below the new one, so it is the largest that is stored
    obtain ⟨newest, hmem, hq, hn⟩ := h.exists_newest hrow'
    have hlt := habove stored (by rw [heq]; rfl) newest hmem hq
    rcases maxSequence_attained envelope.partitionKey s.store.events with hzero |
      ⟨e, he, hep, hes⟩
    · have := h.positive newest hmem
      omega
    · refine ⟨e, he, hep, ?_⟩
      have hle := h.le_lastSequence (h.rows.subset he)
      rw [hep, EventStore.lastSequence, hrow', elim_some] at hle
      omega
  · intro hfinds
    have habove : ∀ e ∈ s.log, e.partitionKey = envelope.partitionKey →
        e.sequence < stored.sequence := by
      intro e he hq
      have hle := h.le_lastSequence he
      rw [hq, EventStore.lastSequence] at hle
      rcases hl : s.store.projections.lookup envelope.partitionKey with _ | row'
      · rw [hl, elim_none] at hle
        omega
      · obtain ⟨e', he', hp', hs'⟩ := hfinds hnew row' hl
        have hmax := le_maxSequence he' hp'
        rw [hl, elim_some] at hle
        omega
    refine ⟨fun q => ?_, ?_⟩
    · simp only [Tape.step, heq, lastSequence_insert]
      split_ifs with hq
      · rcases hl : s.store.projections.lookup q with _ | row'
        · simp [EventStore.lastSequence, hl]
        · obtain ⟨newest, hmem, hnq, hn⟩ := h.exists_newest hl
          have hlt := habove newest hmem (hnq.trans hq)
          rw [EventStore.lastSequence, hl, elim_some, hrow]
          omega
      · exact le_rfl
    · dsimp only
      rw [heq]
      rintro stored' ⟨⟩
      exact habove

theorem advances_iff (s : Tape) (o : TapeOp) (h : Ordered p s) :
    Advances p s o ↔ FindsNewest p s o := by
  cases o with
  | append envelope storedAt => exact append_advances_iff h envelope storedAt
  | purge retentionDays now =>
    refine iff_of_true ⟨fun q => ?_, trivial⟩ trivial
    simp [Tape.step, EventStore.lastSequence, purgeExpired_projections]
  | read =>
    refine Iff.trans ?_ h.received_eq_unread_iff
    exact and_iff_right fun q => le_rfl

theorem ordered_step (s : Tape) (o : TapeOp) (h : Ordered p s) (ho : Advances p s o) :
    Ordered p (s.step p o) := by
  cases o with
  | append envelope storedAt =>
    rcases append_cases s.store envelope storedAt with ⟨heq, -⟩ | ⟨-, stored, row, hseq, hpk,
      hrow, heq⟩
    · have hsame : s.step p (.append envelope storedAt) = s := by simp [Tape.step, heq]
      rw [hsame]
      exact h
    have habove := ho.2 stored (by rw [heq]; rfl)
    have hstep : s.step p (.append envelope storedAt) = { s with
        store := { events := s.store.events ++ [stored]
                   projections := s.store.projections.insert envelope.partitionKey row }
        log := s.log ++ [stored] } := by simp [Tape.step, heq]
    rw [hstep]
    exact
      { rising := pairwise_append.mpr ⟨h.rising, pairwise_singleton _ _,
          fun a ha b hb hab => by
            rw [mem_singleton.mp hb] at hab ⊢
            exact habove a ha (hab.trans hpk)⟩
        rows := h.rows.append (List.Sublist.refl _)
        positive := forall_mem_append.mpr ⟨h.positive, forall_mem_singleton.mpr (by omega)⟩
        newest := fun q => by
          by_cases hq : q = envelope.partitionKey
          · rw [hq, AList.lookup_insert, partition_snoc_same hpk]
            simp [hrow]
          · rw [AList.lookup_insert_ne hq,
              partition_snoc_other fun h' => hq (h'.symm.trans hpk)]
            exact h.newest q
        readUpTo := h.readUpTo.trans (by simp)
        seen := by
          rw [take_append_of_le_length h.readUpTo]
          exact h.seen }
  | purge retentionDays now =>
    exact
      { h with
        rows := (purgeExpired_sublist ..).trans h.rows
        newest := fun q => by
          simp only [Tape.step, purgeExpired_projections]
          exact h.newest q }
  | read =>
    have hread : s.received p = s.unread p := ho.2
    exact
      { h with
        readUpTo := le_rfl
        seen := by
          have hlog : partition p s.log
              = partition p (s.log.take s.readUpTo) ++ s.unread p := by
            conv_lhs => rw [← take_append_drop s.readUpTo s.log]
            exact filter_append ..
          simp only [Tape.step, hread, take_length, hlog, getLast?_append]
          rcases (s.unread p).getLast? with _ | last
          · simpa using h.seen
          · simp }

/-! ## Whole histories -/

/-- From an empty store, for every partition a reader may follow: in a history the numbers advance,
no projection goes back and the reader receives each event once, exactly if each append and each
read find the newest events stored. -/
theorem sequence_advances_iff (p : String) (ops : List TapeOp) :
    Meets (Tape.step p) (Advances p) {} ops ↔ Meets (Tape.step p) (FindsNewest p) {} ops := by
  refine meets_iff_meets advances_iff ordered_step ?_
  exact
    { rising := List.Pairwise.nil
      rows := List.Sublist.refl _
      positive := nofun
      newest := fun q => rfl
      readUpTo := le_rfl
      seen := rfl }

/-- A run that starts and completes, a purge of everything stored before it, and an event that
comes late. -/
def lateEvent : List TapeOp :=
  [.append ⟨"evt_1", "flow.run.started", "acme", "run-1", 0, []⟩ 0,
    .append ⟨"evt_2", "flow.run.completed", "acme", "run-1", 1, []⟩ 1,
    .purge 0 2,
    .append ⟨"evt_3", "flow.run.started", "acme", "run-1", 2, []⟩ 3]

/-- The late event is given the number one again. -/
theorem purge_restarts_sequence : ¬ Meets (Tape.step "run-1") (Advances "run-1") {} lateEvent := by
  rintro ⟨-, -, -, ⟨hlast, -⟩, -⟩
  exact absurd (hlast "run-1") (by decide +kernel)

end AutoDev.Events
