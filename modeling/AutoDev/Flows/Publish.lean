/-
# `AutoDev.Flows.Publish` — the envelopes of a run, and the steps rebuilt from them

Right after it appends to `flow_events` the engine publishes an envelope on the
bus: for the start of a run, the start and the failure of an attempt, the end
of a run.  The completion of a step is published by `_activate_node` only.

A log of events is a JOURNAL when the end of a step, where it is heard at all,
comes after its own start and before the next one.  Scrubbing can change the key
of a step, so that an end goes to another step or to none.  Two such faults do not
mend each other: the running steps of the view and its length together never fall
behind the lines (`Views.weight`), a fault puts them ahead, and they stay ahead.
-/
import AutoDev.Flows.Composite
import AutoDev.Events.Runtime
import AutoDev.Events.Reconstruct

namespace AutoDev.Flows

open Events List Dict Option

/-! ## What is published -/

def RunStatus.text : RunStatus → String
  | .pending => "pending"
  | .running => "running"
  | .waitingHuman => "waiting_human"
  | .completed => "completed"
  | .failed => "failed"

def StepStatus.text : StepStatus → String
  | .running => "running"
  | .completed => "completed"
  | .failed => "failed"
  | .waitingHuman => "waiting_human"

namespace FlowManifest

variable (m : FlowManifest) (nodeId : String)

def isHuman : Bool :=
  (m.node? nodeId).elim false (·.type == .human)

def agent : String :=
  (m.node? nodeId).elim "" fun node => node.ref.elim node.type.text (·.id)

/-- The completion of a step is published: by `_activate_node`, not by the human service or the
reconciliation. -/
def heard (reconciled : Bool) : Bool :=
  !reconciled && !m.isHuman nodeId

/-- Type and payload of what is published with an event.  `state` is the state document of the run
when it ends.  A token total without an integer raises before the end of a run is published. -/
def emitted (describe : FailDetail → String) (state : RunState) : FlowEvent → Option (String × Obj)
  | .runStarted _ =>
    some ("flow.run.started", [("flowId", .str m.id), ("flowVersion", .str m.version)])
  | .stepStarted n _ _ =>
    some ("run.step.started", [("stepKey", .str n), ("agent", .str (m.agent n))])
  | .stepFailed n _ a _ e _ =>
    some ("run.step.failed", [("stepKey", .str n), ("error", .str e), ("attempt", .int a)])
  | .stepCompleted n _ a _ r =>
    if m.heard n r then
      some ("run.step.completed",
        [("stepKey", .str n), ("status", .str "completed"), ("attempt", .int a)])
    else none
  | .runCompleted _ =>
    state.tokens.toInt?.map fun tokens =>
      ("flow.run.completed",
        [("status", .str "completed"), ("costUsd", .float state.costUsd), ("tokens", .int tokens)])
  | .runFailed _ d =>
    some ("flow.run.failed",
      [("error", .str (describe d)), ("failedStep", .str (state.cursor.getD ""))])
  | _ => none

end FlowManifest

/-- What publishing a run's events depends on besides the run. -/
structure Publisher where
  runId : String
  tenantId : String
  /-- The secret values that are live when the event at a position of the log is published. -/
  live : ℕ → List String
  eventId : ℕ → String
  occurredAt : ℕ → ℤ
  /-- The text of a failure. -/
  describe : FailDetail → String

namespace Publisher

variable (p : Publisher) (m : FlowManifest) (state : RunState)

def envelope? (k : ℕ) (e : FlowEvent) : Option EventEnvelope :=
  (m.emitted p.describe state e).map fun (type, data) =>
    emitEvent (p.live k) (p.eventId k) type p.tenantId p.runId (p.occurredAt k) data

def published (events : List FlowEvent) : List EventEnvelope :=
  events.zipIdx.filterMap fun (e, k) => p.envelope? m state k e

theorem published_snoc (events : List FlowEvent) (e : FlowEvent) :
    p.published m state (events ++ [e])
      = p.published m state events ++ (p.envelope? m state events.length e).toList := by
  simp only [published, zipIdx_append, filterMap_append]
  cases h : p.envelope? m state events.length e <;> simp [h]

/-- A text as it is published at position `k`. -/
def shown (k : ℕ) (text : String) : String := scrub (p.live k) text

end Publisher

/-! ## Journals -/

inductive Heard where
  | starts (nodeId : String)
  | ends (nodeId : String) (attempt : ℕ) (status : StepStatus)
  | nothing

def FlowManifest.hears (m : FlowManifest) : FlowEvent → Heard
  | .stepStarted n _ _ => .starts n
  | .stepFailed n _ a _ _ _ => .ends n a .failed
  | .stepCompleted n _ a _ r => if m.heard n r then .ends n a .completed else .nothing
  | _ => .nothing

/-- A step of a journal: its node, and its attempt and status once it was heard to end. -/
abbrev StepLine := String × Option (ℕ × StepStatus)

/-- The log is a journal with these lines. -/
inductive Journal (m : FlowManifest) : List FlowEvent → List StepLine → Prop
  | nil : Journal m [] []
  | nothing {es : List FlowEvent} {ls : List StepLine} (e : FlowEvent) : Journal m es ls →
      m.hears e = .nothing → Journal m (es ++ [e]) ls
  | starts {es : List FlowEvent} {ls : List StepLine} (e : FlowEvent) {n : String} :
      Journal m es ls → m.hears e = .starts n → Journal m (es ++ [e]) (ls ++ [(n, none)])
  | ends {es : List FlowEvent} {ls : List StepLine} (e : FlowEvent) {n : String} {a : ℕ}
      {st : StepStatus} : Journal m es (ls ++ [(n, none)]) → m.hears e = .ends n a st →
      Journal m (es ++ [e]) (ls ++ [(n, some (a, st))])

variable {m : FlowManifest}

theorem FlowManifest.hears_ends {e : FlowEvent} {n : String} {a : ℕ} {st : StepStatus}
    (h : m.hears e = .ends n a st) : st = .completed ∨ st = .failed := by
  cases e with
  | stepFailed _ _ _ _ _ _ =>
    cases h
    exact .inr rfl
  | stepCompleted n' _ a' _ r =>
    simp only [FlowManifest.hears] at h
    split at h
    · cases h
      exact .inl rfl
    · cases h
  | _ => cases h

/-- The texts of an event the steps of the view depend on. -/
def Heard.texts : Heard → List String
  | .starts n => [n]
  | .ends n _ .failed => [n]
  | .ends n _ _ => [n, "completed"]
  | .nothing => []

/-- No text that the steps of the view depend on is changed by scrubbing. -/
def Legible (p : Publisher) (m : FlowManifest) (events : List FlowEvent) : Prop :=
  ∀ k e, events[k]? = some e → ∀ t ∈ (m.hears e).texts, p.shown k t = t

theorem legible_snoc {p : Publisher} {events : List FlowEvent} {e : FlowEvent} :
    Legible p m (events ++ [e]) ↔
      Legible p m events ∧ ∀ t ∈ (m.hears e).texts, p.shown events.length t = t := by
  constructor
  · intro h
    refine ⟨fun k e' he' => h k e' ?_, h events.length e (by simp)⟩
    rw [List.getElem?_append_left (List.getElem?_eq_some_iff.mp he').1, he']
  rintro ⟨h, he⟩ k e' he'
  rcases lt_trichotomy k events.length with hk | rfl | hk
  · rw [getElem?_append_left hk] at he'
    exact h k e' he'
  · simp only [getElem?_concat_length, some.injEq] at he'
    exact he' ▸ he
  · rw [getElem?_eq_none (by simp; omega)] at he'
    cases he'

/-! ## The view of a journal -/

/-- The status text of an end: that of a failure is written by the fold itself. -/
def Publisher.shownStatus (p : Publisher) (k : ℕ) : StepStatus → String
  | .failed => "failed"
  | st => p.shown k st.text

/-- Lines of a journal and what the fold has made of them. -/
inductive Views (p : Publisher) (m : FlowManifest) :
    List FlowEvent → List StepLine → StepFold → Prop
  | nil : Views p m [] [] {}
  | nothing {es : List FlowEvent} {ls : List StepLine} {t : StepFold} (e : FlowEvent) :
      Views p m es ls t → m.hears e = .nothing → Views p m (es ++ [e]) ls t
  | starts {es : List FlowEvent} {ls : List StepLine} {t : StepFold} (e : FlowEvent) {n : String}
      (agent : String) (sequence : ℕ) : Views p m es ls t → m.hears e = .starts n →
      Views p m (es ++ [e]) (ls ++ [(n, none)]) (t.start (p.shown es.length n) agent sequence)
  | ends {es : List FlowEvent} {ls : List StepLine} {t : StepFold} (e : FlowEvent) {n : String}
      {a : ℕ} {st : StepStatus} (error : Option String) (sequence : ℕ) :
      Views p m es (ls ++ [(n, none)]) t → m.hears e = .ends n a st →
      Views p m (es ++ [e]) (ls ++ [(n, some (a, st))])
        (t.finish (p.shown es.length n) (p.shownStatus es.length st) a error sequence)

section Fold

variable {p : Publisher} {m : FlowManifest} {state : RunState}

variable {k i : ℕ} {α : Type}

variable {env : EventEnvelope} {e : FlowEvent} {stored : List StoredEvent} {es : List FlowEvent}

theorem next_nothing (he : m.hears e = .nothing) (henv : p.envelope? m state k e = some env)
    (f : Folding) (q : ℕ) (at_ : ℤ) :
    (f.next ⟨q, env, at_⟩).trail = f.trail := by
  cases e with
  | stepStarted _ _ _ | stepFailed _ _ _ _ _ _ => cases he
  | stepCompleted n _ a _ r =>
    simp only [FlowManifest.hears] at he
    split at he
    · cases he
    · rename_i hh
      simp [Publisher.envelope?, FlowManifest.emitted, hh] at henv
  | runStarted _ | runFailed _ _ =>
    cases henv
    rfl
  | runCompleted _ =>
    obtain ⟨⟨type, data⟩, hd, rfl⟩ := map_eq_some_iff.mp henv
    obtain ⟨n, -, hn⟩ := map_eq_some_iff.mp hd
    cases hn
    rfl
  | _ => cases henv

theorem Publisher.stored_snoc (henv : p.envelope? m state es.length e = some env)
    (hs : stored.map (·.envelope) = p.published m state (es ++ [e])) :
    ∃ xs q at_, stored = xs ++ [⟨q, env, at_⟩] ∧
      xs.map (·.envelope) = p.published m state es := by
  rw [Publisher.published_snoc, henv] at hs
  obtain ⟨xs, ys, rfl, hxs, hys⟩ := map_eq_append_iff.mp hs
  obtain ⟨⟨q, env, at_⟩, rfl, rfl⟩ := map_eq_singleton_iff.mp hys
  exact ⟨xs, q, at_, rfl, hxs⟩

theorem Journal.views {ls : List StepLine} (h : Journal m es ls) :
    ∀ {stored : List StoredEvent}, stored.map (·.envelope) = p.published m state es →
      Views p m es ls (stored.foldl Folding.next {}).trail := by
  induction h with
  | nil =>
    intro stored hs
    rw [map_eq_nil_iff.mp hs]
    exact .nil
  | @nothing es ls e _ he ih =>
    intro stored hs
    rcases henv : p.envelope? m state es.length e with _ | env
    · rw [Publisher.published_snoc, henv, toList_none, append_nil] at hs
      exact .nothing e (ih hs) he
    · obtain ⟨xs, q, at_, rfl, hxs⟩ := Publisher.stored_snoc henv hs
      rw [foldl_append, foldl_cons, foldl_nil, next_nothing he henv]
      exact .nothing e (ih hxs) he
  | @starts es ls e n _ he ih =>
    intro stored hs
    cases e with
    | stepStarted n' i a =>
      cases he
      obtain ⟨xs, q, at_, rfl, hxs⟩ := Publisher.stored_snoc rfl hs
      rw [foldl_append]
      exact .starts (.stepStarted n i a) _ q (ih hxs) rfl
    | stepCompleted _ _ _ _ _ =>
      simp only [FlowManifest.hears] at he
      split at he <;> cases he
    | _ => cases he
  | @ends es ls e n a st _ he ih =>
    intro stored hs
    cases e with
    | stepFailed n' i a' r msg w =>
      cases he
      obtain ⟨xs, q, at_, rfl, hxs⟩ := Publisher.stored_snoc rfl hs
      rw [foldl_append]
      exact .ends (.stepFailed n i a r msg w) _ q (ih hxs) rfl
    | stepCompleted n' i a' nx r =>
      simp only [FlowManifest.hears] at he
      split at he
      · rename_i hh
        cases he
        have henv : p.envelope? m state es.length (.stepCompleted n i a nx r)
            = some (emitEvent (p.live es.length) (p.eventId es.length) "run.step.completed"
                p.tenantId p.runId (p.occurredAt es.length)
                [("stepKey", .str n), ("status", .str "completed"), ("attempt", .int a)]) := by
          simp [Publisher.envelope?, FlowManifest.emitted, hh]
        obtain ⟨xs, q, at_, rfl, hxs⟩ := Publisher.stored_snoc henv hs
        rw [foldl_append]
        exact .ends (.stepCompleted n i a nx r) _ q (ih hxs)
          (by simp [FlowManifest.hears, hh])
      · cases he
    | _ => cases he

/-! ## No text changed -/

theorem getElem?_snoc {xs : List α} {x y : α} (h : (xs ++ [x])[i]? = some y) :
    xs[i]? = some y ∨ i = xs.length ∧ y = x := by
  rcases lt_trichotomy i xs.length with hi | rfl | hi
  · exact .inl (by rwa [getElem?_append_left hi] at h)
  · exact .inr ⟨rfl, by simpa using h.symm⟩
  · rw [getElem?_eq_none (by simp; omega)] at h
    cases h

theorem getElem?_left {xs : List α} {y : α} (h : xs[i]? = some y) (ys : List α) :
    (xs ++ ys)[i]? = some y := by
  rw [List.getElem?_append_left (List.getElem?_eq_some_iff.mp h).1, h]

structure Shows (v : StepView) (l : StepLine) : Prop where
  key : v.stepKey = l.1
  running : l.2 = none → v.status = "running"
  ended : ∀ {a st}, l.2 = some (a, st) → v.attempt = a ∧ v.status = st.text

/-- The view shows the lines; the open step of the last node is the last one. -/
structure Renders (ls : List StepLine) (t : StepFold) : Prop where
  length : t.steps.length = ls.length
  shows : ∀ {i : ℕ} {v l}, t.steps[i]? = some v → ls[i]? = some l → Shows v l
  keys : ∀ {key i}, get? t.openSteps key = some i →
    ∃ v, t.steps[i]? = some v ∧ v.stepKey = key
  last : ∀ {xs n}, ls = xs ++ [(n, none)] → get? t.openSteps n = some xs.length

variable {es : List FlowEvent} {ls : List StepLine} {t : StepFold} {n : String}

theorem Renders.start (h : Renders ls t) (agent : String) (q : ℕ) :
    Renders (ls ++ [(n, none)]) (t.start n agent q) where
  length := by simp [StepFold.start, h.length]
  shows := by
    intro i v l hv hl
    have hlen := h.length
    rcases getElem?_snoc hl with hl | ⟨hi, rfl⟩ <;> rcases getElem?_snoc hv with hv | ⟨hi', rfl⟩
    · exact h.shows hv hl
    · have := (List.getElem?_eq_some_iff.mp hl).1
      omega
    · have := (List.getElem?_eq_some_iff.mp hv).1
      omega
    · exact ⟨rfl, fun _ => rfl, nofun⟩
  keys := by
    intro key i hk
    simp only [StepFold.start, Dict.get?_set] at hk
    split at hk
    · cases hk
      subst key
      exact ⟨_, getElem?_concat_length, rfl⟩
    · obtain ⟨v, hv, rfl⟩ := h.keys hk
      exact ⟨v, getElem?_left hv _, rfl⟩
  last := by
    intro xs n' heq
    obtain ⟨rfl, hn⟩ := append_inj' heq rfl
    cases hn
    simp [StepFold.start, Dict.get?_set, h.length]

theorem Renders.finish (h : Renders (ls ++ [(n, none)]) t) (a : ℕ) (st : StepStatus)
    (error : Option String) (q : ℕ) :
    Renders (ls ++ [(n, some (a, st))]) (t.finish n st.text a error q) := by
  have hlast := h.last rfl
  have hsteps : (t.finish n st.text a error q).steps
      = t.steps.modify ls.length (StepFold.close st.text a error) := by
    simp [StepFold.finish, hlast]
  refine ⟨?_, ?_, ?_, ?_⟩
  · rw [hsteps, length_modify, h.length]
    simp
  · intro i v l hv hl
    rw [hsteps, getElem?_modify] at hv
    obtain ⟨v₀, hv₀, rfl⟩ := map_eq_some_iff.mp hv
    rcases getElem?_snoc hl with hl | ⟨rfl, rfl⟩
    · have hlt := (List.getElem?_eq_some_iff.mp hl).1
      rw [if_neg (by omega)]
      exact h.shows hv₀ (getElem?_left hl _)
    · rw [if_pos rfl]
      exact ⟨(h.shows hv₀ getElem?_concat_length).key, nofun,
        fun h => (by cases h; exact ⟨rfl, rfl⟩)⟩
  · intro key i hk
    obtain ⟨v, hv, rfl⟩ := h.keys hk
    rw [hsteps, getElem?_modify, hv]
    refine ⟨_, rfl, ?_⟩
    split <;> rfl
  · intro xs n' heq
    have := (append_inj' heq rfl).2
    cases this

theorem Publisher.shownStatus_eq {a : ℕ} {st : StepStatus} (hst : st = .completed ∨ st = .failed)
    (h : ∀ t ∈ (Heard.ends n a st).texts, p.shown k t = t) :
    p.shown k n = n ∧ p.shownStatus k st = st.text := by
  rcases hst with rfl | rfl
  · exact ⟨h n (by simp [Heard.texts]), h "completed" (by simp [Heard.texts])⟩
  · exact ⟨h n (by simp [Heard.texts]), rfl⟩

theorem Views.renders (h : Views p m es ls t) (hleg : Legible p m es) : Renders ls t := by
  induction h with
  | nil => exact ⟨rfl, by simp, by simp, by simp⟩
  | nothing e _ _ ih => exact ih (legible_snoc.mp hleg).1
  | @starts es ls t e n agent q _ he ih =>
    obtain ⟨hleg, htexts⟩ := legible_snoc.mp hleg
    rw [he] at htexts
    rw [htexts n (by simp [Heard.texts])]
    exact (ih hleg).start agent q
  | @ends es ls t e n a st error q _ he ih =>
    obtain ⟨hleg, htexts⟩ := legible_snoc.mp hleg
    rw [he] at htexts
    obtain ⟨hn, hst⟩ := Publisher.shownStatus_eq (FlowManifest.hears_ends he) htexts
    rw [hn, hst]
    exact (ih hleg).finish a st error q

/-! ## A text changed -/

def openLines (ls : List StepLine) : ℕ := ls.countP (·.2.isNone)

def runningSteps (steps : List StepView) : ℕ := steps.countP (·.status == "running")

theorem countP_modify_le {P : α → Bool} {g : α → α} : ∀ (l : List α) (i : ℕ),
    (k = 0 → ∀ x, l[i]? = some x → P x = false) → l.countP P ≤ (l.modify i g).countP P + k
  | [], i, _ => by simp
  | x :: l, 0, h => by
    simp only [modify_zero_cons, countP_cons]
    split <;> split <;> simp_all <;> omega
  | x :: l, i + 1, h => by
    have := countP_modify_le (g := g) l i (by simpa using h)
    simp only [modify_succ_cons, countP_cons]
    omega

theorem runningSteps_finish (k : ℕ) (t : StepFold) (key status : String) (a : ℤ)
    (error : Option String) (q : ℕ) (h : k = 0 → ∀ i v, get? t.openSteps key = some i →
      t.steps[i]? = some v → v.status ≠ "running") :
    runningSteps t.steps + t.steps.length ≤ runningSteps (t.finish key status a error q).steps
      + (t.finish key status a error q).steps.length + k := by
  rcases hk : get? t.openSteps key with _ | i
  · simp only [StepFold.finish, hk, runningSteps, countP_append, length_append]
    omega
  simp only [StepFold.finish, hk, length_modify]
  have := countP_modify_le (P := fun v : StepView => v.status == "running")
    (g := StepFold.close status a error) t.steps i (fun h0 v hv => by simpa using h h0 i v hk hv)
  simp only [runningSteps]
  omega

theorem openLines_starts (ls : List StepLine) (n : String) :
    (ls ++ [(n, none)]).length + openLines (ls ++ [(n, none)])
      = ls.length + openLines ls + 2 := by
  simp [openLines]
  omega

theorem openLines_ends (ls : List StepLine) (n : String) (a : ℕ) (st : StepStatus) :
    (ls ++ [(n, none)]).length + openLines (ls ++ [(n, none)])
      = (ls ++ [(n, some (a, st))]).length + openLines (ls ++ [(n, some (a, st))]) + 1 := by
  simp [openLines]
  omega

theorem runningSteps_start (t : StepFold) (key agent : String) (q : ℕ) :
    runningSteps (t.start key agent q).steps + (t.start key agent q).steps.length
      = runningSteps t.steps + t.steps.length + 2 := by
  simp [StepFold.start, runningSteps]
  omega

theorem Views.weight (h : Views p m es ls t) :
    ls.length + openLines ls ≤ runningSteps t.steps + t.steps.length := by
  induction h with
  | nil => exact Nat.le_refl _
  | nothing _ _ _ ih => exact ih
  | starts e agent q _ _ ih =>
    rw [openLines_starts, runningSteps_start]
    omega
  | @ends es ls t e n a st error q _ _ ih =>
    have h₁ := openLines_ends ls n a st
    have h₂ := runningSteps_finish 1 t (p.shown es.length n) (p.shownStatus es.length st) a error
      q (by simp)
    omega

/-- What is wrong with a view, for good. -/
inductive Fault (ls : List StepLine) (t : StepFold) : Prop
  | untidy : (∃ l ∈ ls.dropLast, l.2 = none) → Fault ls t
  | ahead : ls.length + openLines ls < runningSteps t.steps + t.steps.length → Fault ls t
  | key {i : ℕ} {l : StepLine} {v : StepView} : ls[i]? = some l → t.steps[i]? = some v →
      v.stepKey ≠ l.1 → Fault ls t
  | status {v : StepView} : v ∈ t.steps → v.status ≠ "running" → v.status ≠ "completed" →
      v.status ≠ "failed" → Fault ls t

theorem Fault.start (h : Fault ls t) (key agent : String) (q : ℕ) :
    Fault (ls ++ [(n, none)]) (t.start key agent q) := by
  cases h with
  | untidy h =>
    obtain ⟨l, hl, hnone⟩ := h
    exact .untidy ⟨l, by simpa using dropLast_subset _ hl, hnone⟩
  | ahead h =>
    refine .ahead ?_
    rw [openLines_starts, runningSteps_start]
    omega
  | @key i l v hl hv hne =>
    exact .key (getElem?_left hl _) (getElem?_left hv _) hne
  | status hv h₁ h₂ h₃ => exact .status (mem_append_left _ hv) h₁ h₂ h₃

theorem finish_getElem? {v : StepView} (hv : t.steps[i]? = some v) (key status : String) (a : ℤ)
    (error : Option String) (q : ℕ) :
    ∃ v', (t.finish key status a error q).steps[i]? = some v' ∧ v'.stepKey = v.stepKey ∧
      (get? t.openSteps key ≠ some i → v' = v) := by
  rcases hk : get? t.openSteps key with _ | j
  · refine ⟨v, ?_, rfl, fun _ => rfl⟩
    simp only [StepFold.finish, hk]
    exact getElem?_left hv _
  · simp only [StepFold.finish, hk, getElem?_modify, hv]
    refine ⟨_, rfl, ?_, fun hne => ?_⟩
    · split <;> rfl
    · exact if_neg fun h => hne (congrArg some h)

theorem Fault.finish (h : Fault (ls ++ [(n, none)]) t)
    (hw : (ls ++ [(n, none)]).length + openLines (ls ++ [(n, none)])
      ≤ runningSteps t.steps + t.steps.length)
    (key status : String) (a : ℕ) (st : StepStatus) (error : Option String) (q : ℕ) :
    Fault (ls ++ [(n, some (a, st))]) (t.finish key status a error q) := by
  have hlines := openLines_ends ls n a st
  cases h with
  | untidy h =>
    obtain ⟨l, hl, hnone⟩ := h
    exact .untidy ⟨l, by simpa using hl, hnone⟩
  | ahead h =>
    have := runningSteps_finish 1 t key status a error q (by simp)
    exact .ahead (by omega)
  | @key i l v hl hv hne =>
    obtain ⟨v', hv', hkey, -⟩ := finish_getElem? hv key status a error q
    rcases getElem?_snoc hl with hl | ⟨rfl, rfl⟩
    · exact .key (getElem?_left hl _) hv' (hkey ▸ hne)
    · exact .key getElem?_concat_length hv' (hkey ▸ hne)
  | @status v hv h₁ h₂ h₃ =>
    obtain ⟨i, hi⟩ := getElem?_of_mem hv
    by_cases hk : get? t.openSteps key = some i
    · -- the end goes to the step itself, which was not running
      have hnot : ∀ j w, get? t.openSteps key = some j → t.steps[j]? = some w →
          w.status ≠ "running" := by
        intro j w hj hw'
        cases hk.symm.trans hj
        cases hi.symm.trans hw'
        exact h₁
      have := runningSteps_finish 0 t key status a error q fun _ => hnot
      exact .ahead (by omega)
    · obtain ⟨v', hv', -, hsame⟩ := finish_getElem? hi key status a error q
      exact .status (hsame hk ▸ mem_of_getElem? hv') h₁ h₂ h₃

theorem Publisher.shown_completed (h : p.shown k "completed" ≠ "completed") :
    p.shown k "completed" ≠ "running" ∧ p.shown k "completed" ≠ "failed" := by
  have hlong := (scrub_eq_or_long (p.live k) "completed").resolve_left h
  constructor
  · intro heq
    rw [show scrub (p.live k) "completed" = "running" from heq] at hlong
    exact absurd hlong (by decide)
  · intro heq
    rw [show scrub (p.live k) "completed" = "failed" from heq] at hlong
    exact absurd hlong (by decide)

theorem Renders.misses (h : Renders (ls ++ [(n, none)]) t) (htidy : ∀ l ∈ ls, l.2 ≠ none)
    (hends : ∀ l ∈ ls, ∀ a st, l.2 = some (a, st) → st ≠ .running) {key : String} (hkey : key ≠ n)
    {v : StepView} (hi : get? t.openSteps key = some i) (hv : t.steps[i]? = some v) :
    v.status ≠ "running" := by
  obtain ⟨v', hv', rfl⟩ := h.keys hi
  cases hv.symm.trans hv'
  obtain ⟨l, hl⟩ : ∃ l, (ls ++ [(n, none)])[i]? = some l :=
    ⟨_, List.getElem?_eq_getElem (h.length ▸ (List.getElem?_eq_some_iff.mp hv).1)⟩
  rcases getElem?_snoc hl with hmem | ⟨rfl, rfl⟩
  · have hmem := mem_of_getElem? hmem
    obtain ⟨⟨a, st⟩, hst⟩ := ne_none_iff_exists'.mp (htidy _ hmem)
    rw [((h.shows hv hl).ended hst).2]
    have hne := hends _ hmem a st hst
    cases st with
    | running => exact absurd rfl hne
    | _ => simp [StepStatus.text]
  · exact absurd (h.shows hv getElem?_concat_length).key hkey

theorem Views.ends_ne_running (h : Views p m es ls t) :
    ∀ l ∈ ls, ∀ a st, l.2 = some (a, st) → st ≠ .running := by
  induction h with
  | nil => exact nofun
  | nothing _ _ _ ih => exact ih
  | starts _ _ _ _ _ ih =>
    refine forall_mem_append.mpr ⟨ih, forall_mem_singleton.mpr fun a st hst => ?_⟩
    cases hst
  | ends _ _ _ _ he ih =>
    refine forall_mem_append.mpr
      ⟨(forall_mem_append.mp ih).1, forall_mem_singleton.mpr fun a st hst => ?_⟩
    cases hst
    rcases FlowManifest.hears_ends he with rfl | rfl <;> simp

theorem Views.legible_or_fault (h : Views p m es ls t) : Legible p m es ∨ Fault ls t := by
  induction h with
  | nil => exact .inl fun k e he => (by simp at he)
  | nothing e _ he ih =>
    rcases ih with hleg | hfault
    · exact .inl (legible_snoc.mpr ⟨hleg, by simp [he, Heard.texts]⟩)
    · exact .inr hfault
  | @starts es ls t e n agent q hv he ih =>
    rcases ih with hleg | hfault
    · by_cases hn : p.shown es.length n = n
      · exact .inl (legible_snoc.mpr ⟨hleg, by simpa [he, Heard.texts] using hn⟩)
      have hlast : (t.start (p.shown es.length n) agent q).steps[ls.length]?
          = some ⟨p.shown es.length n, agent, "running", 1, q, none⟩ := by
        rw [StepFold.start, ← (hv.renders hleg).length]
        exact getElem?_concat_length
      exact .inr (.key getElem?_concat_length hlast hn)
    · exact .inr (hfault.start _ _ _)
  | @ends es ls t e n a st error q hv he ih =>
    rcases ih with hleg | hfault
    · have hr := hv.renders hleg
      by_cases htidy : ∀ l ∈ ls, l.2 ≠ none
      · by_cases hn : p.shown es.length n = n
        · by_cases hst : p.shownStatus es.length st = st.text
          · refine .inl (legible_snoc.mpr ⟨hleg, ?_⟩)
            rw [he]
            rcases FlowManifest.hears_ends he with rfl | rfl
            · simpa [Heard.texts] using ⟨hn, hst⟩
            · simpa [Heard.texts] using hn
          · rcases FlowManifest.hears_ends he with rfl | rfl
            · obtain ⟨h₁, h₂⟩ := Publisher.shown_completed hst
              obtain ⟨v, hv'⟩ : ∃ v, t.steps[ls.length]? = some v :=
                ⟨_, getElem?_eq_getElem (by rw [hr.length]; simp)⟩
              have hlast : (t.finish (p.shown es.length n) (p.shown es.length "completed") a error
                  q).steps[ls.length]?
                    = some (StepFold.close (p.shown es.length "completed") a error v) := by
                simp [StepFold.finish, hn, hr.last rfl, hv']
              exact .inr (.status (mem_of_getElem? hlast) h₁ hst h₂)
            · exact absurd rfl hst
        · -- the only running step is the last one, and the end goes elsewhere
          have h₁ := openLines_ends ls n a st
          have h₂ := runningSteps_finish 0 t (p.shown es.length n) (p.shownStatus es.length st) a
            error q (fun _ i v hi hv' => hr.misses htidy
              (fun l hl => hv.ends_ne_running l (mem_append_left _ hl)) hn hi hv')
          have h₃ := hv.weight
          exact .inr (.ahead (by omega))
      · push Not at htidy
        exact .inr (.untidy (by simpa using htidy))
    · exact .inr (hfault.finish hv.weight _ _ _ _ _ _)

def EndedAs (v : StepView) (l : StepLine) : Prop :=
  v.stepKey = l.1 ∧ (v.status = "completed" ∨ v.status = "failed")

theorem Views.all_heard (h : Views p m es ls t) (hlen : t.steps.length = ls.length)
    (hend : ∀ v ∈ t.steps, v.status = "completed" ∨ v.status = "failed") :
    ∀ l ∈ ls, l.2 ≠ none := by
  have hrun : runningSteps t.steps = 0 := by
    refine countP_eq_zero.mpr fun v hv => ?_
    rcases hend v hv with h | h <;> simp [h]
  have hweight := h.weight
  have hzero : openLines ls = 0 := by omega
  intro l hl hnone
  exact countP_eq_zero.mp hzero l hl (by simp [hnone])

theorem Views.legible_of_ended (h : Views p m es ls t) (hend : List.Forall₂ EndedAs t.steps ls) :
    Legible p m es := by
  obtain ⟨hlen, hget⟩ := forall₂_iff_get.mp hend
  have hstatus : ∀ v ∈ t.steps, v.status = "completed" ∨ v.status = "failed" := by
    intro v hv
    obtain ⟨i, hi⟩ := getElem?_of_mem hv
    obtain ⟨hlt, rfl⟩ := List.getElem?_eq_some_iff.mp hi
    exact (hget i hlt (hlen ▸ hlt)).2
  have hrun : runningSteps t.steps = 0 := by
    refine countP_eq_zero.mpr fun v hv => ?_
    rcases hstatus v hv with h | h <;> simp [h]
  refine h.legible_or_fault.resolve_right fun hfault => ?_
  cases hfault with
  | untidy hu =>
    obtain ⟨l, hl, hnone⟩ := hu
    exact h.all_heard hlen hstatus l (dropLast_subset _ hl) hnone
  | ahead ha => omega
  | key hl hv hne =>
    obtain ⟨hlt, rfl⟩ := List.getElem?_eq_some_iff.mp hl
    obtain ⟨hlt', rfl⟩ := List.getElem?_eq_some_iff.mp hv
    exact hne (hget _ hlt' hlt).1
  | status hv h₁ h₂ h₃ =>
    rcases hstatus _ hv with h | h
    · exact h₂ h
    · exact h₃ h

/-! ## The status of the view -/

def FlowEvent.ends : FlowEvent → Option RunStatus
  | .runCompleted _ => some .completed
  | .runFailed _ _ => some .failed
  | _ => none

theorem status_ne_completed (htok : state.tokens.toInt? = none) :
    ∀ (es : List FlowEvent) {stored : List StoredEvent},
      stored.map (·.envelope) = p.published m state es →
      (stored.foldl Folding.next {}).status ≠ "completed" := by
  intro es
  induction es using reverseRecOn with
  | nil =>
    intro stored hs
    rw [map_eq_nil_iff.mp hs]
    decide
  | append_singleton es e ih =>
    intro stored hs
    rcases henv : p.envelope? m state es.length e with _ | env
    · rw [Publisher.published_snoc, henv, toList_none, append_nil] at hs
      exact ih hs
    obtain ⟨xs, q, at_, rfl, hxs⟩ := Publisher.stored_snoc henv hs
    rw [foldl_append, foldl_cons, foldl_nil]
    obtain ⟨⟨type, data⟩, hd, rfl⟩ := map_eq_some_iff.mp henv
    cases e with
    | runStarted _ | stepStarted _ _ _ | stepFailed _ _ _ _ _ _ =>
      cases hd
      exact show "running" ≠ "completed" by decide
    | runFailed _ _ =>
      cases hd
      exact show "failed" ≠ "completed" by decide
    | stepCompleted n i a nx r =>
      simp only [FlowManifest.emitted] at hd
      split at hd
      · cases hd
        exact show "running" ≠ "completed" by decide
      · cases hd
    | runCompleted o => simp [FlowManifest.emitted, htok] at hd
    | _ => cases hd

theorem status_of_ends {status : RunStatus} (he : e.ends = some status)
    (hs : stored.map (·.envelope) = p.published m state (es ++ [e])) :
    (stored.foldl Folding.next {}).status = status.text ↔
      (status = .completed → (state.tokens.toInt?).isSome ∧
        p.shown es.length "completed" = "completed") := by
  cases e with
  | runFailed r d =>
    cases he
    obtain ⟨xs, q, at_, rfl, -⟩ := Publisher.stored_snoc rfl hs
    rw [foldl_append]
    exact ⟨nofun, fun _ => rfl⟩
  | runCompleted o =>
    cases he
    rcases htok : state.tokens.toInt? with _ | tokens
    · have := status_ne_completed htok (es ++ [.runCompleted o]) hs
      exact ⟨fun h => absurd h this, fun h => (by simpa using (h rfl).1)⟩
    have henv : p.envelope? m state es.length (.runCompleted o)
        = some (emitEvent (p.live es.length) (p.eventId es.length) "flow.run.completed"
            p.tenantId p.runId (p.occurredAt es.length)
            [("status", .str "completed"), ("costUsd", .float state.costUsd),
              ("tokens", .int tokens)]) := by
      simp [Publisher.envelope?, FlowManifest.emitted, htok]
    obtain ⟨xs, q, at_, rfl, -⟩ := Publisher.stored_snoc henv hs
    rw [foldl_append]
    change p.shown es.length "completed" = "completed" ↔ _
    simp
  | _ => cases he

end Fold

end AutoDev.Flows
