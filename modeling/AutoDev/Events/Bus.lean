/-
# `AutoDev.Events.Bus` — the in-memory bus and a reader with a cursor

`publish` of `backend/events/bus.py` numbers an envelope within its partition,
appends it and cuts the partition to its limit BEFORE it dispatches; what the
subscribers publish meanwhile therefore comes after it, and a publish is a tree
(`Act`) that runs like the list of its envelopes in preorder (`runAll_eq`).
`replay_from` reads what is left from a number on; a reader goes on from the
last number it was given.

A number is never used twice, so the partition is at all times the numbered
list of all that was published there without a front (`Holds.rows`), and how
long that front is depends on the COUNT alone (`cut`).  The reader has whatever
stood there at one of its reads, each envelope once and in order.
-/
import AutoDev.Events.Store
import Mathlib.Data.List.Induction

namespace AutoDev.Events

open List Nat

/-! ## The bus -/

structure InMemoryEventBus where
  maxPartitionSize : Option ℤ
  partitions : Dict (List (ℕ × EventEnvelope)) := []
  nextSeq : Dict ℕ := []

namespace InMemoryEventBus

variable (b : InMemoryEventBus) (partitionKey : String)

def rows : List (ℕ × EventEnvelope) :=
  (Dict.get? b.partitions partitionKey).getD []

/-- `del partition[: len(partition) - self._max_partition_size]` if it is longer. -/
def trim {α : Type} (maxPartitionSize : Option ℤ) (partition : List α) : List α :=
  match maxPartitionSize with
  | none => partition
  | some n =>
    if (partition.length : ℤ) > n then partition.drop ((partition.length : ℤ) - n).toNat
    else partition

/-- `publish` up to the dispatch.  The default dictionaries are read and written at the same key. -/
def append (envelope : EventEnvelope) : InMemoryEventBus :=
  let seq := (Dict.get? b.nextSeq envelope.partitionKey).getD 0
  { b with
    nextSeq := Dict.set b.nextSeq envelope.partitionKey (seq + 1)
    partitions := Dict.set b.partitions envelope.partitionKey
      (trim b.maxPartitionSize (b.rows envelope.partitionKey ++ [(seq, envelope)])) }

/-- `start_seq`, with `int` as Python has it; a text it refuses raises. -/
def startSeq (int : String → Option ℤ) : Option String → Option ℤ
  | none => some 0
  | some cursor => (int cursor).map (· + 1)

def replayFrom (int : String → Option ℤ) (partitionKey : String) (afterCursor : Option String) :
    Option (List (String × EventEnvelope)) × InMemoryEventBus :=
  ((startSeq int afterCursor).map fun start =>
    ((b.rows partitionKey).filter fun x => start ≤ (x.1 : ℤ)).map fun x => (Nat.repr x.1, x.2), b)

end InMemoryEventBus

open InMemoryEventBus

/-! ## A reader -/

/-- A reader of one partition of a bus with a limit.  All it needs of Python's `int` is that it
reads back what `str` has written. -/
structure Reader where
  partitionKey : String
  limit : Option ℤ
  int : String → Option ℤ
  int_repr : ∀ n : ℕ, int (Nat.repr n) = some (n : ℤ)

instance : Inhabited Reader where
  default := ⟨"", none, fun text => some (Nat.ofDigitChars 10 text.toList 0), fun n => by simp⟩

/-- The bus, the last cursor of the reader and all it has received. -/
structure Session where
  bus : InMemoryEventBus
  cursor : Option String := none
  received : List (String × EventEnvelope) := []

/-- What happens: a publish, with what its subscribers do while it is dispatched, or a read. -/
inductive Act where
  | publish (envelope : EventEnvelope) (dispatch : List Act)
  | read

/-- The same without the dispatch. -/
inductive Op where
  | publish (envelope : EventEnvelope)
  | read

namespace Reader

variable (c : Reader)

/-- The reader calls `replay_from` with the last cursor it received. -/
def read (s : Session) : Session :=
  match s.bus.replayFrom c.int c.partitionKey s.cursor with
  | (none, bus) => { s with bus := bus }
  | (some rows, bus) => ⟨bus, (rows.getLast?.map Prod.fst).or s.cursor, s.received ++ rows⟩

def step (s : Session) : Op → Session
  | .publish e => { s with bus := s.bus.append e }
  | .read => c.read s

mutual

def run : Act → Session → Session
  | .publish e dispatch, s => runAll dispatch (c.step s (.publish e))
  | .read, s => c.step s .read

def runAll : List Act → Session → Session
  | [], s => s
  | a :: as, s => runAll as (run a s)

end

mutual

/-- The envelopes and reads of an act in the order they take effect. -/
def ops : Act → List Op
  | .publish e dispatch => .publish e :: opsAll dispatch
  | .read => [.read]

def opsAll : List Act → List Op
  | [] => []
  | a :: as => ops a ++ opsAll as

end

mutual

theorem run_eq : ∀ (a : Act) (s : Session), c.run a s = (ops a).foldl c.step s
  | .publish _ dispatch, _ => runAll_eq dispatch _
  | .read, _ => rfl

theorem runAll_eq : ∀ (as : List Act) (s : Session), c.runAll as s = (opsAll as).foldl c.step s
  | [], _ => rfl
  | a :: as, s => by
    rw [runAll, opsAll, foldl_append, ← run_eq a s]
    exact runAll_eq as _

end

def published (ops : List Op) : List EventEnvelope :=
  ops.filterMap fun
    | .publish e => if e.partitionKey = c.partitionKey then some e else none
    | .read => none

/-- The session after the operations, on a fresh bus. -/
def after (ops : List Op) : Session := ops.foldl c.step ⟨{ maxPartitionSize := c.limit }, none, []⟩

/-- The envelope with the number was still there at one of the reads. -/
def Readable (ops : List Op) (j : ℕ) : Prop :=
  ∃ before rest, ops = before ++ .read :: rest ∧
    ∃ e, (j, e) ∈ (c.after before).bus.rows c.partitionKey

end Reader

def numbered {α : Type} (l : List α) : List (ℕ × α) := l.zipIdx.map Prod.swap

open Classical in
/-- The envelopes of the partition that could be read, with their cursors. -/
noncomputable def Reader.readable (c : Reader) (ops : List Op) : List (String × EventEnvelope) :=
  ((numbered (c.published ops)).filter fun x => c.Readable ops x.1).map
    fun x => (Nat.repr x.1, x.2)

/-! ## Numbers -/

/-- How many of `n` envelopes have been cut off. -/
def cut (limit : Option ℤ) (n : ℕ) : ℕ := limit.elim 0 fun m => ((n : ℤ) - m).toNat

section Numbers

variable {α : Type} {l : List α} {x : ℕ × α} {d j : ℕ}

theorem numbered_snoc (l : List α) (a : α) : numbered (l ++ [a]) = numbered l ++ [(l.length, a)] := by
  simp [numbered, zipIdx_append]

@[simp] theorem length_numbered : (numbered l).length = l.length := by simp [numbered]

theorem mem_numbered : x ∈ numbered l ↔ l[x.1]? = some x.2 := by
  rcases x with ⟨j, a⟩
  simp [numbered, mem_zipIdx_iff_getElem?]

theorem lt_of_mem_numbered (h : x ∈ numbered l) : x.1 < l.length :=
  (List.getElem?_eq_some_iff.mp (mem_numbered.mp h)).1

theorem filter_numbered_of_le (h : l.length ≤ d) :
    (numbered l).filter (fun x => d ≤ x.1) = [] := by
  refine filter_eq_nil_iff.mpr fun x hx => ?_
  have := lt_of_mem_numbered hx
  simp only [decide_eq_true_eq]
  omega

theorem drop_numbered : (numbered l).drop d = (numbered l).filter (fun x => d ≤ x.1) := by
  induction l using reverseRecOn with
  | nil => simp [numbered]
  | append_singleton l a ih =>
    rcases lt_or_ge l.length d with h | h
    · rw [filter_numbered_of_le (by simpa using succ_le_of_lt h), drop_eq_nil_iff]
      simpa using succ_le_of_lt h
    · rw [numbered_snoc, filter_append, ← ih, drop_append_of_le_length (by simpa using h)]
      simp [h]

theorem filter_or_numbered {r : ℕ → Prop} [DecidablePred r] (hr : ∀ j, r j → j < d) :
    (numbered l).filter (fun x => r x.1 ∨ d ≤ x.1) =
      (numbered l).filter (fun x => r x.1) ++ (numbered l).filter (fun x => d ≤ x.1) := by
  induction l using reverseRecOn with
  | nil => rfl
  | append_singleton l a ih =>
    simp only [numbered_snoc, filter_append, ih]
    rcases lt_or_ge l.length d with h | h
    · rw [filter_numbered_of_le h.le]
      simp [not_le.mpr h, filter_cons]
    · have hno : ¬ r l.length := fun hr' => absurd (hr _ hr') (not_lt.mpr h)
      simp [h, hno]

theorem exists_mem_drop : (∃ a, (j, a) ∈ (numbered l).drop d) ↔ d ≤ j ∧ j < l.length := by
  simp only [drop_numbered, mem_filter, decide_eq_true_eq, mem_numbered]
  constructor
  · rintro ⟨a, ha, hd⟩
    exact ⟨hd, (List.getElem?_eq_some_iff.mp ha).1⟩
  · rintro ⟨hd, hj⟩
    exact ⟨l[j], getElem?_eq_getElem hj, hd⟩

theorem trim_some (n : ℤ) (l : List α) : trim (some n) l = l.drop ((l.length : ℤ) - n).toNat := by
  simp only [trim]
  split_ifs with h
  · rfl
  · rw [Int.toNat_of_nonpos (by omega), drop_zero]

theorem trim_snoc (limit : Option ℤ) (l : List α) (a : α) :
    trim limit ((numbered l).drop (cut limit l.length) ++ [(l.length, a)]) =
      (numbered (l ++ [a])).drop (cut limit (l ++ [a]).length) := by
  rw [numbered_snoc]
  rcases limit with _ | n
  · simp [trim, cut]
  rw [trim_some, cut, cut, Option.elim_some, Option.elim_some]
  rcases lt_or_ge l.length ((l.length : ℤ) - n).toNat with h | h
  · -- a limit below zero keeps nothing
    rw [drop_eq_nil_of_le (by simp; omega), drop_eq_nil_of_le (by simp; omega)]
  · rw [← drop_append_of_le_length (by simpa using h), drop_drop]
    congr 1
    simp only [length_drop, length_append, length_numbered, length_singleton]
    omega

end Numbers

/-! ## What the reader has -/

namespace Reader

variable {c : Reader} {ops : List Op} {start : ℕ}

theorem published_publish (e : EventEnvelope) : c.published (ops ++ [.publish e]) =
    c.published ops ++ if e.partitionKey = c.partitionKey then [e] else [] := by
  simp only [published, filterMap_append]
  split <;> simp_all

theorem published_read : c.published (ops ++ [.read]) = c.published ops := by simp [published]

theorem readable_snoc {o : Op} {j : ℕ} : c.Readable (ops ++ [o]) j ↔
    c.Readable ops j ∨ o = .read ∧ ∃ e, (j, e) ∈ (c.after ops).bus.rows c.partitionKey := by
  constructor
  · rintro ⟨before, rest, h, he⟩
    rcases rest.eq_nil_or_concat with rfl | ⟨rest, o', rfl⟩
    · obtain ⟨rfl, ho⟩ := append_inj' h rfl
      exact .inr ⟨(cons.inj ho).1, he⟩
    · rw [concat_eq_append, ← cons_append, ← append_assoc] at h
      exact .inl ⟨before, rest, (append_inj' h rfl).1, he⟩
  · rintro (⟨before, rest, rfl, he⟩ | ⟨rfl, he⟩)
    · exact ⟨before, rest ++ [o], by simp, he⟩
    · exact ⟨ops, [], rfl, he⟩

theorem readable_publish (e : EventEnvelope) :
    c.Readable (ops ++ [.publish e]) = c.Readable ops :=
  funext fun _ => propext (readable_snoc.trans (by simp))

abbrev gone (c : Reader) (ops : List Op) : ℕ := cut c.limit (c.published ops).length

theorem gone_read : c.gone (ops ++ [.read]) = c.gone ops := by rw [gone, published_read]

structure Holds (c : Reader) (ops : List Op) (b : InMemoryEventBus) : Prop where
  size : b.maxPartitionSize = c.limit
  seq : (Dict.get? b.nextSeq c.partitionKey).getD 0 = (c.published ops).length
  rows : b.rows c.partitionKey = (numbered (c.published ops)).drop (c.gone ops)

theorem Holds.publish {b : InMemoryEventBus} (h : c.Holds ops b) (e : EventEnvelope) :
    c.Holds (ops ++ [.publish e]) (b.append e) := by
  refine ⟨h.size, ?_, ?_⟩
  · rw [published_publish, append, Dict.get?_set]
    split
    · next hp => simp [hp, h.seq]
    · simpa using h.seq
  · rw [gone, published_publish, InMemoryEventBus.rows, append, Dict.get?_set]
    split
    · next hp => rw [hp, h.seq, h.rows, h.size, Option.getD_some, trim_snoc]
    · simpa [InMemoryEventBus.rows] using h.rows

structure Stands (c : Reader) (ops : List Op) (cursor : Option String) (start : ℕ) : Prop where
  cursor : startSeq c.int cursor = some (start : ℤ)
  le : start ≤ (c.published ops).length
  below : ∀ j, c.Readable ops j → j < start
  kept : ∀ j, c.gone ops ≤ j → j < start → c.Readable ops j

theorem Stands.publish {k : Option String} (h : c.Stands ops k start) (e : EventEnvelope) :
    c.Stands (ops ++ [.publish e]) k start ∧
      c.readable (ops ++ [.publish e]) = c.readable ops := by
  have hlen : (c.published ops).length ≤ (c.published (ops ++ [.publish e])).length := by
    rw [published_publish, length_append]
    exact le_add_right _ _
  refine ⟨⟨h.cursor, h.le.trans hlen, ?_, ?_⟩, ?_⟩
  · rw [readable_publish]
    exact h.below
  · rw [readable_publish]
    refine fun j hc hj => h.kept j (le_trans ?_ hc) hj
    simp only [gone, cut]
    cases c.limit with
    | none => exact le_rfl
    | some n =>
      simp only [Option.elim_some]
      omega
  · rw [readable, readable_publish, published_publish, readable]
    split
    · have hno : ¬ c.Readable ops (c.published ops).length :=
        fun hr => absurd (h.below _ hr) (not_lt.mpr h.le)
      simp [numbered_snoc, hno]
    · rw [append_nil]

section Read

variable (hb : c.Holds ops (c.after ops).bus) (h : c.Stands ops (c.after ops).cursor start)

include hb

theorem readable_read {j : ℕ} : c.Readable (ops ++ [.read]) j ↔
    c.Readable ops j ∨ c.gone ops ≤ j ∧ j < (c.published ops).length := by
  rw [readable_snoc, hb.rows, exists_mem_drop]
  simp

include h

theorem read_eq : c.read (c.after ops) =
    let rows := ((numbered (c.published ops)).drop (max (c.gone ops) start)).map
      fun x => (Nat.repr x.1, x.2)
    ⟨(c.after ops).bus, (rows.getLast?.map Prod.fst).or (c.after ops).cursor,
      (c.after ops).received ++ rows⟩ := by
  have hrows : ((c.after ops).bus.rows c.partitionKey).filter
      (fun x => (start : ℤ) ≤ (x.1 : ℤ)) =
        (numbered (c.published ops)).drop (max (c.gone ops) start) := by
    rw [hb.rows, drop_numbered, filter_filter, drop_numbered]
    exact filter_congr fun x _ => by simp [and_comm]
  simp only [read, replayFrom, h.cursor, Option.map_some, hrows]

theorem readable_after_read : c.readable (ops ++ [.read]) = c.readable ops ++
    ((numbered (c.published ops)).drop (max (c.gone ops) start)).map
      fun x => (Nat.repr x.1, x.2) := by
  classical
  rw [readable, readable, published_read, ← map_append, drop_numbered]
  congr 1
  rw [← filter_or_numbered fun j hj => lt_max_of_lt_right (h.below j hj)]
  refine filter_congr fun x hx => decide_eq_decide.mpr ((readable_read hb).trans ?_)
  have hlt := lt_of_mem_numbered hx
  constructor
  · rintro (hr | ⟨hc, -⟩)
    · exact .inl hr
    · rcases lt_or_ge x.1 start with hs | hs
      · exact .inl (h.kept _ hc hs)
      · exact .inr (max_le hc hs)
  · rintro (hr | hm)
    · exact .inl hr
    · exact .inr ⟨(le_max_left _ _).trans hm, hlt⟩

theorem stands_read : ∃ start', c.Stands (ops ++ [.read]) (c.read (c.after ops)).cursor start' := by
  have hr := fun j => readable_read (j := j) hb
  rw [read_eq hb h]
  rcases lt_or_ge (max (c.gone ops) start) (c.published ops).length with hm | hm
  · -- the last row that was read has the last number
    obtain hnil | ⟨l, e, hl⟩ := (c.published ops).eq_nil_or_concat
    · rw [hnil] at hm
      cases hm
    rw [concat_eq_append] at hl
    refine ⟨(c.published ops).length, ?_, by rw [published_read], fun j hj => ?_, fun j hc hj => ?_⟩
    · have hle : max (c.gone ops) start ≤ (numbered l).length := by
        rw [hl, length_append] at hm
        simpa using le_of_lt_succ hm
      rw [hl, numbered_snoc, drop_append_of_le_length hle]
      simp [startSeq, c.int_repr]
    · exact ((hr j).mp hj).elim (fun hj => (h.below j hj).trans_le h.le) fun hj => hj.2
    · rw [gone_read] at hc
      exact (hr j).mpr (.inr ⟨hc, hj⟩)
  · refine ⟨start, ?_, by rw [published_read]; exact h.le, fun j hj => ?_, fun j hc hj => ?_⟩
    · rw [drop_eq_nil_of_le (by simpa using hm)]
      exact h.cursor
    · rcases (hr j).mp hj with hj | ⟨hc, hj⟩
      · exact h.below j hj
      · exact (lt_max_iff.mp (hj.trans_le hm)).resolve_left (not_lt.mpr hc)
    · rw [gone_read] at hc
      exact (hr j).mpr (.inl (h.kept j hc hj))

end Read

theorem after_holds (c : Reader) (ops : List Op) : c.Holds ops (c.after ops).bus ∧
    (∃ start, c.Stands ops (c.after ops).cursor start) ∧
    (c.after ops).received = c.readable ops := by
  induction ops using reverseRecOn with
  | nil =>
    have hno : ∀ j, ¬ c.Readable [] j := by
      rintro j ⟨before, rest, h, -⟩
      cases before <;> cases h
    exact ⟨⟨rfl, rfl, by simp [numbered, published]; rfl⟩,
      ⟨0, rfl, zero_le _, fun j h => (hno j h).elim, fun j _ h => absurd h (not_lt_zero j)⟩,
      rfl⟩
  | append_singleton ops o ih =>
    obtain ⟨hb, ⟨start, hs⟩, hr⟩ := ih
    have hafter : c.after (ops ++ [o]) = c.step (c.after ops) o := foldl_append
    rw [hafter]
    cases o with
    | publish e => exact ⟨hb.publish e, ⟨start, (hs.publish e).1⟩, hr.trans (hs.publish e).2.symm⟩
    | read =>
      refine ⟨?_, stands_read hb hs, ?_⟩
      · rw [step, read_eq hb hs]
        exact ⟨hb.size, by rw [published_read]; exact hb.seq, by
          rw [published_read, gone_read]; exact hb.rows⟩
      · rw [step, read_eq hb hs, readable_after_read hb hs, hr]

end Reader

/-- Whatever is published, also by subscribers, a reader that goes on from its last cursor has
exactly the envelopes of the partition that stood there at one of its reads, once each and in the
order they were published.  Among them is every envelope that was followed by a read before the
limit was reached, and no read changes the bus. -/
theorem replay_exactly_once (c : Reader) (acts : List Act) :
    (c.runAll acts ⟨{ maxPartitionSize := c.limit }, none, []⟩).received =
      c.readable (Reader.opsAll acts) ∧
    (∀ before between rest, Reader.opsAll acts = before ++ between ++ .read :: rest →
      (∀ n, c.limit = some n → ((c.published between).length : ℤ) ≤ n) →
      ∀ j, (c.published before).length ≤ j → j < (c.published (before ++ between)).length →
        c.Readable (Reader.opsAll acts) j) ∧
    ∀ s : Session, (c.read s).bus = s.bus := by
  refine ⟨?_, fun before between rest h hn j hle hlt => ?_, fun s => ?_⟩
  · rw [Reader.runAll_eq]
    exact (c.after_holds (Reader.opsAll acts)).2.2
  · refine ⟨before ++ between, rest, h, ?_⟩
    rw [(c.after_holds (before ++ between)).1.rows]
    refine exists_mem_drop.mpr ⟨le_trans ?_ hle, hlt⟩
    rw [Reader.gone, cut, Reader.published, filterMap_append, length_append]
    cases hlim : c.limit with
    | none => exact zero_le _
    | some n =>
      have hlen := hn n hlim
      simp only [Option.elim_some, Reader.published] at hlen ⊢
      omega
  · unfold Reader.read replayFrom
    cases startSeq c.int s.cursor <;> rfl

end AutoDev.Events
