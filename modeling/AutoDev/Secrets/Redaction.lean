/-
# `AutoDev.Secrets.Redaction` — when scrubbing removes whole secrets

`secret_store/redaction.py` scrubs the live secret values from texts and event
payloads: for each value, in the order the set of live values happens to be
iterated, every occurrence is replaced by a marker.

What is wanted of the result is `Redacted`: every maximal stretch of letters
that stand in an occurrence of a live value is replaced by markers, and every
other letter is kept.  To say of a LETTER that it is gone, the scrubber runs on
letters that carry their position in the text (`scrub_eq_traced`); a letter of
the marker carries none.

The values are replaced ONE AFTER ANOTHER, and this is visible:

  * a value that overlaps itself (`aa` in `aaa`) leaves a remainder;
  * where one value is part of another, or two overlap, what is left depends on
    the order;
  * a value that shares letters with the marker is found in, or across the
    border of, a marker written before.

`Separate` says that none of this can happen, and `redacts_whole_iff` that it is
exactly what is needed: a process that may resolve the values `V` redacts whole
secrets at every moment if and only if `V` is separate.
-/
import Mathlib.Data.Finset.Insert
import Mathlib.Data.Finset.Dedup
import AutoDev.Flows.Value
import AutoDev.Lib.Words

namespace AutoDev.Secrets

open AutoDev.Flows Words List

/-! ## The scrubber -/

def redactedMarker : String := "***REDACTED_SECRET***"

section

variable {β : Type} (key : β → Char) (marker : List β)

/-- `text.replace(value, marker)`.  The empty value stands between any two letters. -/
def replace (value : List Char) (text : List β) : List β :=
  if value = [] then marker ++ text.flatMap fun x => x :: marker else blot key [value] marker text

def scrubLetters (values : List String) (text : List β) : List β :=
  values.foldl
    (fun text value =>
      if value.toList <:+: text.map key then replace key marker value.toList text else text)
    text

end

def scrub (text : String) (values : List String) : String :=
  String.ofList (scrubLetters id redactedMarker.toList values text.toList)

mutual

def redactStructure (values : List String) : Value → Value
  | .str s => .str (scrub s values)
  | .list xs => .list (redactItems values xs)
  | .obj kvs => .obj (redactEntries values kvs)
  | .null => .null
  | .bool b => .bool b
  | .int i => .int i
  | .float x => .float x

def redactItems (values : List String) : List Value → List Value
  | [] => []
  | x :: xs => redactStructure values x :: redactItems values xs

def redactEntries (values : List String) : List (String × Value) → List (String × Value)
  | [] => []
  | (k, x) :: kvs => (k, redactStructure values x) :: redactEntries values kvs

end

/-- `redact_event_data`, where `values` is the set of live values in its iteration order. -/
def redactEventData (values : List String) (data : Obj) : Obj :=
  if values = [] then data else redactEntries values data

def registerLiveSecretValue (live : Finset String) (value : String) : Finset String :=
  if value = "" then live else insert value live

def IterationOrder (live : Finset String) (values : List String) : Prop :=
  values.Nodup ∧ values.toFinset = live

instance (live : Finset String) (values : List String) : Decidable (IterationOrder live values) :=
  inferInstanceAs (Decidable (_ ∧ _))

/-! ## Letters with their position -/

/-- A letter and its position in the text scrubbed; the letters of the marker have none. -/
abbrev Letter := Char × Option Nat

def letters (text : String) : List Letter := text.toList.zipIdx.map fun p => (p.1, some p.2)

def marks : List Letter := redactedMarker.toList.map fun c => (c, none)

def scrubTraced (text : String) (values : List String) : List Letter :=
  scrubLetters Prod.fst marks values (letters text)

/-! ## The property -/

/-- The letter at `k` stands in an occurrence of a live value. -/
def InSecret (live : Finset String) (text : String) (k : Nat) : Prop :=
  Covered (fun w => String.ofList w ∈ live) text.toList k

structure RedactsWhole (live : Finset String) : Prop where
  text : ∀ values, IterationOrder live values → ∀ text : String,
    Redacted marks (InSecret live text) (letters text) (scrubTraced text values)
  order : ∀ values values', IterationOrder live values → IterationOrder live values' →
    (∀ text, scrub text values = scrub text values') ∧
    ∀ data, redactEventData values data = redactEventData values' data
  payload : ∀ values, IterationOrder live values → ∀ data : Obj,
    (Value.obj (redactEventData values data)).strings
      = (Value.obj data).strings.map fun s => scrub s values

/-- No two values can share a letter of a text; of two values or more, none can share one with the
marker. -/
structure Separate (V : Set String) : Prop where
  apart : ∀ v ∈ V, ∀ w ∈ V, v ≠ "" → w ≠ "" → ¬ Meets v.toList w.toList
  marker : ∀ v ∈ V, ∀ w ∈ V, v ≠ "" → w ≠ "" → v ≠ w →
    ¬ Touches v.toList redactedMarker.toList ∧ ¬ Touches redactedMarker.toList v.toList

/-! ## The scrubber, and the letters it runs on -/

theorem toList_ne_nil {v : String} (h : v ≠ "") : v.toList ≠ [] := by
  simpa using h

@[simp] theorem map_fst_letters (text : String) : (letters text).map Prod.fst = text.toList := by
  simp [letters, Function.comp_def]

@[simp] theorem map_fst_marks : marks.map Prod.fst = redactedMarker.toList := by
  simp [marks, Function.comp_def]

theorem not_mem_marks {text : String} {x : Letter} (hx : x ∈ letters text) : x ∉ marks := by
  obtain ⟨p, -, rfl⟩ := mem_map.mp hx
  simp [marks]

section

variable {β γ : Type} {key : β → Char} {key' : γ → Char} {marker : List β}

theorem map_replace (f : β → γ) (hf : ∀ x, key' (f x) = key x) (v : List Char) (text : List β) :
    (replace key marker v text).map f = replace key' (marker.map f) v (text.map f) := by
  unfold replace
  split
  · simp [map_flatMap, flatMap_map]
  · exact map_blot f hf 0 text

theorem map_scrubLetters (f : β → γ) (hf : ∀ x, key' (f x) = key x) (values : List String) :
    ∀ text : List β, (scrubLetters key marker values text).map f
      = scrubLetters key' (marker.map f) values (text.map f) := by
  have hkey : key' ∘ f = key := funext hf
  induction values with
  | nil => exact fun _ => rfl
  | cons v values ih =>
    intro text
    simp only [scrubLetters, foldl_cons] at ih ⊢
    rw [ih, map_map, hkey]
    split
    · rw [map_replace f hf]
    · rfl

theorem scrubLetters_cons {v : String} (hv : v ≠ "") (values : List String) (text : List β) :
    scrubLetters key marker (v :: values) text
      = scrubLetters key marker values (blot key [v.toList] marker text) := by
  simp only [scrubLetters, foldl_cons]
  split
  · rw [replace, if_neg (toList_ne_nil hv)]
  · rw [blot_eq_self ‹_›]

end

theorem scrub_eq_traced (text : String) (values : List String) :
    scrub text values = String.ofList ((scrubTraced text values).map Prod.fst) := by
  have h : (scrubTraced text values).map Prod.fst
      = scrubLetters id (marks.map Prod.fst) values ((letters text).map Prod.fst) := by
    refine map_scrubLetters Prod.fst ?_ values (letters text)
    exact fun _ => rfl
  rw [h, map_fst_marks, map_fst_letters, scrub]

/-! ## Payloads -/

mutual

theorem strings_redactStructure (values : List String) : ∀ v : Value,
    (redactStructure values v).strings = v.strings.map fun s => scrub s values
  | .str s => by simp [redactStructure, Value.strings]
  | .list xs => by
    simpa [redactStructure, Value.strings] using strings_redactItems values xs
  | .obj kvs => by
    simpa [redactStructure, Value.strings] using strings_redactEntries values kvs
  | .null | .bool _ | .int _ | .float _ => by simp [redactStructure, Value.strings]

theorem strings_redactItems (values : List String) : ∀ xs : List Value,
    Value.stringsOfItems (redactItems values xs)
      = (Value.stringsOfItems xs).map fun s => scrub s values
  | [] => rfl
  | x :: xs => by
    simp only [redactItems, Value.stringsOfItems, map_append,
      strings_redactStructure values x, strings_redactItems values xs]

theorem strings_redactEntries (values : List String) : ∀ kvs : List (String × Value),
    Value.stringsOfEntries (redactEntries values kvs)
      = (Value.stringsOfEntries kvs).map fun s => scrub s values
  | [] => rfl
  | (k, x) :: kvs => by
    simp only [redactEntries, Value.stringsOfEntries, map_append,
      strings_redactStructure values x, strings_redactEntries values kvs]

end

mutual

variable {values values' : List String}

theorem redactStructure_congr (h : ∀ text, scrub text values = scrub text values') :
    ∀ v : Value, redactStructure values v = redactStructure values' v
  | .str s => by rw [redactStructure, redactStructure, h]
  | .list xs => by rw [redactStructure, redactStructure, redactItems_congr h xs]
  | .obj kvs => by rw [redactStructure, redactStructure, redactEntries_congr h kvs]
  | .null | .bool _ | .int _ | .float _ => by rw [redactStructure, redactStructure]

theorem redactItems_congr (h : ∀ text, scrub text values = scrub text values') :
    ∀ xs : List Value, redactItems values xs = redactItems values' xs
  | [] => rfl
  | x :: xs => by
    rw [redactItems, redactItems, redactStructure_congr h x, redactItems_congr h xs]

theorem redactEntries_congr (h : ∀ text, scrub text values = scrub text values') :
    ∀ kvs : List (String × Value), redactEntries values kvs = redactEntries values' kvs
  | [] => rfl
  | (k, x) :: kvs => by
    rw [redactEntries, redactEntries, redactStructure_congr h x, redactEntries_congr h kvs]

end

theorem redactEventData_eq (values : List String) (data : Obj) :
    (Value.obj (redactEventData values data)).strings
      = (Value.obj data).strings.map fun s => scrub s values := by
  unfold redactEventData
  split
  · subst ‹values = []›
    simp [scrub, scrubLetters]
  · simpa [Value.strings] using strings_redactEntries values data

theorem redactEventData_congr {live : Finset String} {values values' : List String}
    (hv : IterationOrder live values) (hv' : IterationOrder live values')
    (h : ∀ text, scrub text values = scrub text values') (data : Obj) :
    redactEventData values data = redactEventData values' data := by
  have hnil : values = [] ↔ values' = [] := by
    rw [← toFinset_eq_empty_iff, ← toFinset_eq_empty_iff, hv.2, hv'.2]
  simp only [redactEventData, hnil, redactEntries_congr h data]

/-! ## Separate values are redacted whole -/

section

variable {V : Set String} {β : Type} {key : β → Char} {marker : List β}

theorem Separate.mono (hV : Separate V) {live : List String} (hlive : ∀ v ∈ live, v ∈ V ∧ v ≠ "") :
    Apart (live.map String.toList) := by
  intro v hv w hw
  obtain ⟨v, hvl, rfl⟩ := mem_map.mp hv
  obtain ⟨w, hwl, rfl⟩ := mem_map.mp hw
  exact hV.apart v (hlive v hvl).1 w (hlive w hwl).1 (hlive v hvl).2 (hlive w hwl).2

theorem nil_not_mem {live : List String} (hlive : ∀ v ∈ live, v ∈ V ∧ v ≠ "") :
    [] ∉ live.map String.toList := by
  intro h
  obtain ⟨v, hv, hnil⟩ := mem_map.mp h
  exact toList_ne_nil (hlive v hv).2 hnil

theorem scrubLetters_eq_blot (hV : Separate V) (hm : marker.map key = redactedMarker.toList)
    (text : List β) (values : List String) :
    ∀ done : List String, (values ++ done).Nodup → (∀ v ∈ values ++ done, v ∈ V ∧ v ≠ "") →
      scrubLetters key marker values (blot key (done.map String.toList) marker text)
        = blot key ((values.reverse ++ done).map String.toList) marker text := by
  induction values with
  | nil => exact fun done _ _ => by simp [scrubLetters]
  | cons v values ih =>
    intro done hnd hmem
    have hv := hmem v (by simp)
    have hsub : ∀ u ∈ v :: done, u ∈ V ∧ u ≠ "" := fun u hu => hmem u (by simp at hu ⊢; tauto)
    have hvd : v ∉ done := fun h => (nodup_cons.mp hnd).1 (mem_append_right _ h)
    have hpass : blot key [v.toList] marker (blot key (done.map String.toList) marker text)
        = blot key ((v :: done).map String.toList) marker text := by
      rcases done with _ | ⟨d, done⟩
      · rw [map_nil, blot_no_words]
        rfl
      have hd := hsub d (by simp)
      have hne : v ≠ d := fun h => hvd (by simp [h])
      have hmark := hV.marker v hv.1 d hd.1 hv.2 hd.2 hne
      rw [← hm] at hmark
      refine blot_blot ?_ (nil_not_mem hsub) (hV.mono hsub) hmark.1 hmark.2 text
      intro h
      obtain ⟨u, hu, huv⟩ := mem_map.mp h
      exact hvd (String.toList_inj.mp huv ▸ hu)
    rw [scrubLetters_cons hv.2, hpass, ih (v :: done) ?_ fun u hu => hmem u ?_]
    · simp
    · exact (perm_middle.nodup_iff).mpr hnd
    · simp at hu ⊢
      tauto

end

theorem redactsWhole_of_separate {V : Set String} (hV : Separate V) {live : Finset String}
    (hlive : ∀ v ∈ live, v ∈ V ∧ v ≠ "") : RedactsWhole live := by
  have hmem : ∀ {values : List String}, IterationOrder live values →
      ∀ v ∈ values, v ∈ V ∧ v ≠ "" := fun ho v hv =>
    hlive v (ho.2 ▸ mem_toFinset.mpr hv)
  have htext : ∀ values, IterationOrder live values → ∀ text : String,
      scrubTraced text values = blot Prod.fst (values.reverse.map String.toList) marks
        (letters text) := by
    intro values ho text
    have := scrubLetters_eq_blot hV map_fst_marks (letters text) values []
      (by simpa using ho.1) (by simpa using hmem ho)
    simpa [blot_no_words, scrubTraced] using this
  have hrev : ∀ {values : List String}, IterationOrder live values →
      ∀ v ∈ values.reverse, v ∈ V ∧ v ≠ "" := fun ho v hv => hmem ho v (mem_reverse.mp hv)
  have horder : ∀ values values', IterationOrder live values → IterationOrder live values' →
      ∀ text, scrub text values = scrub text values' := by
    intro values values' ho ho' text
    rw [scrub_eq_traced, scrub_eq_traced, htext values ho, htext values' ho']
    congr 2
    refine blot_congr (nil_not_mem (hrev ho')) (hV.mono (hrev ho')) (fun w => ?_) _
    have : ∀ v, v ∈ values ↔ v ∈ values' := fun v => by
      rw [← mem_toFinset, ho.2, ← ho'.2, mem_toFinset]
    simp [this]
  refine ⟨fun values ho text => ?_, fun values values' ho ho' => ⟨horder values values' ho ho',
    redactEventData_congr ho ho' (horder values values' ho ho')⟩,
    fun values _ => redactEventData_eq values⟩
  have hcov : InSecret live text
      = Covered (· ∈ values.reverse.map String.toList) ((letters text).map Prod.fst) := by
    have hw : (fun w => String.ofList w ∈ live) = (· ∈ values.reverse.map String.toList) := by
      funext w
      rw [← ho.2]
      simp only [mem_toFinset, mem_map, mem_reverse, eq_iff_iff]
      constructor
      · exact fun h => ⟨_, h, by simp⟩
      · rintro ⟨v, hv, rfl⟩
        simpa using hv
    funext k
    rw [InSecret, hw, map_fst_letters]
  rw [hcov, htext values ho]
  exact redacted_blot (nil_not_mem (hrev ho)) (hV.mono (hrev ho)) _

/-! ## Values that are not separate

The texts that show it are short: an overlap of the two values, or one of them
put where the other one and the marker meet.  `Wiped v w` is what redaction
promises of two values when `w` is replaced first; `Covered` is then about these
two only. -/

/-- Replacing `w` and then `v` leaves a redacted text. -/
def Wiped (v w : List Char) : Prop := ∀ s : List Char, ∃ xs : List Letter,
  xs.map Prod.fst = s ∧ (∀ x ∈ xs, x ∉ marks) ∧
    Redacted marks (Covered (fun u => u = v ∨ u = w) s) xs
      (blot Prod.fst [v] marks (blot Prod.fst [w] marks xs))

theorem mem_marks_of_replicate {n : Nat} {x : Letter}
    (hx : x ∈ (replicate n marks).flatten) : x ∈ marks := by
  obtain ⟨ys, hys, hx⟩ := mem_flatten.mp hx
  rwa [eq_of_mem_replicate hys] at hx

theorem eq_nil_of_marks {xs : List Letter} (hxs : ∀ x ∈ xs, x ∉ marks)
    (h : ∀ x ∈ xs, x ∈ marks) : xs = [] :=
  eq_nil_iff_forall_not_mem.mpr fun x hx => hxs x hx (h x hx)

theorem length_marks : marks.length = 21 := by decide +kernel

theorem length_replicate_marks (n : Nat) : (replicate n marks).flatten.length = 21 * n := by
  simp [length_marks, Nat.mul_comm]

theorem length_redactedMarker : redactedMarker.toList.length = 21 := by decide +kernel

variable {v w : List Char}

theorem not_meets_self
    (h : ∀ s : List Char, ∃ xs : List Letter, xs.map Prod.fst = s ∧ (∀ x ∈ xs, x ∉ marks) ∧
      Redacted marks (Covered (· = v) s) xs (blot Prod.fst [v] marks xs)) : ¬ Meets v v := by
  rintro ⟨k, hk, hk0, hpre⟩
  have hkpos : 0 < k := Nat.pos_of_ne_zero fun h0 => hk0 h0 rfl
  have hv : v ≠ [] := ne_nil_of_length_pos (by omega)
  have hborder : v.drop k <+: v := by
    refine hpre.resolve_right fun hp => ?_
    have := hp.length_le
    rw [length_drop] at this
    omega
  obtain ⟨q, hq⟩ := hborder
  have hqlen : q.length = k := by
    have := congrArg length hq
    rw [length_append, length_drop] at this
    omega
  obtain ⟨xs, hxs, hfresh, hred⟩ := h (v ++ q)
  obtain ⟨us, qs, rfl, hus, hqs⟩ := map_eq_append_iff.mp hxs
  have hqslen : qs.length = k := by rw [← hqlen, ← hqs, length_map]
  have hq' : ¬ v <:+: qs.map Prod.fst := fun hi => by
    have := hi.length_le
    rw [hqs] at this
    omega
  rw [blot_word_append hv hus, blot_eq_self (by simpa using hq')] at hred
  -- the second occurrence begins at `k`
  have hsecond : v <+: (v ++ q).drop k := by
    rw [drop_append_of_le_length (by omega), hq]
  obtain ⟨n, hn⟩ := hred.eq_replicate fun i hi => by
    have hlen : (us ++ qs).length = v.length + k := by
      rw [length_append, hqslen, ← hus, length_map]
    by_cases hik : i < v.length
    · exact ⟨v, rfl, 0, by omega, by omega, prefix_append v q⟩
    · exact ⟨v, rfl, k, by omega, by omega, hsecond⟩
  have hqnil : qs = [] := eq_nil_of_marks (fun x hx => hfresh x (mem_append_right _ hx))
    fun x hx => mem_marks_of_replicate (hn ▸ mem_append_right _ hx)
  rw [hqnil] at hqslen
  exact absurd hqslen (by simp; omega)

/-- Texts, weighed so that the marker weighs nothing. -/
def weight (s : List Char) : Int := 21 * s.count '_' - s.length

theorem weight_append (s t : List Char) : weight (s ++ t) = weight s + weight t := by
  simp only [weight, count_append, length_append]
  omega

theorem weight_row (n : Nat) : weight (replicate n redactedMarker.toList).flatten = 0 := by
  have hcount : redactedMarker.toList.count '_' = 1 := by decide +kernel
  simp [weight, count_flatten, length_redactedMarker, hcount, Int.mul_comm]

theorem weight_part : ∀ i < 22, ∀ l < 22,
    (redactedMarker.toList.drop i).take l = [] ∨
    (redactedMarker.toList.drop i).take l = redactedMarker.toList ∨
    weight ((redactedMarker.toList.drop i).take l) ≠ 0 := by
  decide +kernel

theorem marker_meets_self : Meets redactedMarker.toList redactedMarker.toList := by
  decide +kernel

section Pair

variable (hv : v ≠ []) (hw : w ≠ [])
include hv hw

theorem not_infix_marker (h : Wiped v w) (hvv : ¬ Meets v v) :
    ¬ v <:+: redactedMarker.toList := by
  intro hin
  obtain ⟨xs, hxs, -, hred⟩ := h w
  have hpass : blot Prod.fst [w] marks xs = marks := by
    rw [← append_nil xs, blot_word_append hw hxs, blot_nil, append_nil]
  rw [hpass] at hred
  obtain ⟨n, hn⟩ := hred.eq_replicate fun i hi =>
    ⟨w, .inr rfl, 0, by omega, by rw [← hxs, length_map]; omega, by simp⟩
  have hmarks : weight (marks.map Prod.fst) = 0 := by
    exact weight_row 1
  obtain ⟨c, hc0, hc⟩ := exists_weight_blot weight_append hv hmarks marks
  -- markers are left, which weigh nothing, so the value weighs nothing
  rw [hmarks, hn, map_flatten, map_replicate, map_fst_marks, weight_row,
    Int.zero_add] at hc
  have hv0 : weight v = 0 :=
    (Int.mul_eq_zero.mp hc).resolve_left (by simpa using hc0 (map_fst_marks ▸ hin))
  obtain ⟨a, b, hab⟩ := hin
  have hcut : v = (redactedMarker.toList.drop a.length).take v.length := by
    rw [← hab, append_assoc, drop_left, take_left]
  have hlen : a.length + v.length + b.length = 21 := by
    rw [← length_redactedMarker, ← hab]
    simp [Nat.add_assoc]
  rcases weight_part a.length (by omega) v.length (by omega) with h0 | h0 | h0
  · exact hv (hcut.trans h0)
  · exact hvv (hcut.trans h0 ▸ marker_meets_self)
  · rw [← hcut] at h0
    exact h0 hv0

theorem not_infix_value (hne : v ≠ w) (h : Wiped v w)
    (hvv : ¬ Meets v v) (hwm : ¬ w <:+: redactedMarker.toList) : ¬ w <:+: v := by
  intro hin
  obtain ⟨xs, hxs, hfresh, hred⟩ := h v
  rw [← map_fst_marks] at hwm
  have hkept : ¬ v <:+: (blot Prod.fst [w] marks xs).map Prod.fst := by
    rintro ⟨a, b, hab⟩
    refine not_prefix_drop_blot hw hwm (hxs ▸ hin) a.length ?_
    rw [← hab, hxs, append_assoc, drop_left]
    exact prefix_append v b
  rw [blot_eq_self hkept] at hred
  obtain ⟨n, hn⟩ := hred.eq_replicate fun i hi =>
    ⟨v, .inl rfl, 0, by omega, by rw [← hxs, length_map]; omega, by simp⟩
  obtain ⟨n, hrow⟩ := eq_replicate_of_blot hw hfresh fun x hx => mem_marks_of_replicate (hn ▸ hx)
  rw [hxs] at hrow
  rcases n with _ | _ | n
  · exact hv (by simpa using hrow)
  · exact hne (by simpa using hrow)
  · -- two copies of `w` or more overlap when moved by one
    have hwpos := length_pos_of_ne_nil hw
    have hsplit : v = w ++ (replicate (n + 1) w).flatten := by
      rw [hrow, replicate_succ, flatten_cons]
    have hsplit' : v = (replicate (n + 1) w).flatten ++ w := by
      rw [hrow, replicate_succ', flatten_append, flatten_singleton]
    refine hvv ⟨w.length, ?_, fun h0 => absurd h0 hwpos.ne', .inl ?_⟩
    · have := congrArg length hsplit
      rw [replicate_succ, flatten_cons, length_append, length_append] at this
      omega
    have hdrop : v.drop w.length = (replicate (n + 1) w).flatten := by
      conv_lhs => rw [hsplit]
      exact drop_left
    rw [hdrop, hsplit']
    exact prefix_append _ w

/-- Where the end of `v` is the front of `w`, the remainder of `w` is only removed together with
letters of the marker of `v`: all of them. -/
theorem overlap_eq_marker {k : Nat} (h : Wiped w v) (hvw : ¬ v <:+: w)
    (hwv : ¬ w <:+: v) (hwm : ¬ w <:+: redactedMarker.toList) (hk : k < v.length)
    (hpre : v.drop k <+: w) : v.length = k + 21 ∧ redactedMarker.toList <+: w := by
  obtain ⟨q, hq⟩ := hpre
  have hq0 : q ≠ [] := by
    rintro rfl
    rw [append_nil] at hq
    exact hwv (hq ▸ (drop_suffix k v).isInfix)
  have hqpos := length_pos_of_ne_nil hq0
  have hwlen : w.length = v.length - k + q.length := by
    rw [← hq, length_append, length_drop]
  obtain ⟨xs, hxs, hfresh, hred⟩ := h (v ++ q)
  obtain ⟨us, qs, rfl, hus, hqs⟩ := map_eq_append_iff.mp hxs
  have hqslen : qs.length = q.length := by rw [← hqs, length_map]
  have hvq : ¬ v <:+: qs.map Prod.fst := fun hi =>
    hvw (hi.trans (hqs ▸ hq ▸ (suffix_append _ q).isInfix))
  rw [blot_word_append hv hus, blot_eq_self hvq] at hred
  obtain ⟨n, hn⟩ := hred.eq_replicate fun i hi => by
    have hlen : (us ++ qs).length = v.length + q.length := by
      rw [length_append, hqslen, ← hus, length_map]
    by_cases hiv : i < v.length
    · exact ⟨v, .inr rfl, 0, by omega, by omega, prefix_append v q⟩
    · refine ⟨w, .inl rfl, k, by omega, by omega, ?_⟩
      rw [drop_append_of_le_length (by omega), hq]
  have hqfresh : ∀ x ∈ qs, x ∉ marks := fun x hx => hfresh x (mem_append_right _ hx)
  -- `w` must be found again, or the letters of `q` are still there
  have hagain : w <:+: (marks ++ qs).map Prod.fst := by
    by_contra hno
    rw [blot_eq_self hno] at hn
    have : qs = [] := eq_nil_of_marks hqfresh
      fun x hx => mem_marks_of_replicate (hn ▸ mem_append_right _ hx)
    rw [this] at hqslen
    exact absurd hqslen (by simp; omega)
  obtain ⟨as, bs, zs, hcut, hb, hfirst⟩ := exists_first hagain
  rw [hcut, blot_first hw hb hfirst] at hn
  have hblen : bs.length = w.length := by rw [← hb, length_map]
  have hlen := congrArg length hcut
  simp only [length_append, length_marks] at hlen
  -- not inside the marker, so what follows it is a rest of `q`, and there is none
  have hzs : zs = [] := by
    by_cases hle : zs.length ≤ qs.length
    · have hsuf : zs <:+ qs := by
        have hzs : zs <:+ marks ++ qs := by
          rw [hcut, ← append_assoc]
          exact suffix_append _ _
        exact suffix_of_suffix_length_le hzs (suffix_append _ _) hle
      have hwz : ¬ w <:+: zs.map Prod.fst := fun hi => by
        have := hi.length_le
        rw [length_map] at this
        omega
      rw [blot_eq_self hwz] at hn
      refine eq_nil_of_marks (fun x hx => hqfresh x (hsuf.subset hx)) fun x hx => ?_
      have hx' : x ∈ as ++ (marks ++ zs) := by simp [hx]
      rw [hn] at hx'
      exact mem_marks_of_replicate hx'
    · refine absurd ?_ hwm
      have hpre : as ++ bs <+: marks := by
        have hab : as ++ bs <+: marks ++ qs := by
          rw [hcut, ← append_assoc]
          exact prefix_append _ _
        refine prefix_of_prefix_length_le hab (prefix_append _ _) ?_
        rw [length_append, length_marks]
        omega
      have hmap := hpre.map Prod.fst
      rw [map_append, hb, map_fst_marks] at hmap
      exact (suffix_append _ w).isInfix.trans hmap.isInfix
  subst hzs
  have hn' := congrArg length hn
  simp only [blot_nil, append_nil, length_append, length_replicate_marks,
    length_marks] at hn'
  simp only [length_nil, Nat.add_zero] at hlen
  have has : as.length = 0 := by omega
  have hv21 : v.length = k + 21 := by omega
  refine ⟨hv21, ?_⟩
  rw [length_eq_zero_iff.mp has, nil_append, append_nil] at hcut
  rw [← hb, ← hcut, map_append, map_fst_marks]
  exact prefix_append _ _

variable (hne : v ≠ w) (h : Wiped v w)
include hne h

theorem not_meets (h' : Wiped w v)
    (hvv : ¬ Meets v v) (hww : ¬ Meets w w) : ¬ Meets v w := by
  have hvm := not_infix_marker hv hw h hvv
  have hwm := not_infix_marker hw hv h' hww
  have hwv := not_infix_value hv hw hne h hvv hwm
  have hvw := not_infix_value hw hv hne.symm h' hww hvm
  rintro ⟨k, hk, -, hpre | hpre⟩
  · obtain ⟨hlen, hstart⟩ := overlap_eq_marker hv hw h' hvw hwv hwm hk hpre
    -- the overlap is the marker, which ends as it begins: a second overlap, of one letter
    have hx : v.drop k = redactedMarker.toList := by
      refine (prefix_of_prefix_length_le hpre hstart ?_).eq_of_length ?_ <;>
      · rw [length_drop, length_redactedMarker]
        omega
    have hlast : v.drop (k + 20) <+: w := by
      rw [← drop_drop, hx]
      refine List.IsPrefix.trans ?_ hstart
      decide +kernel
    have := (overlap_eq_marker hv hw h' hvw hwv hwm (by omega) hlast).1
    omega
  · exact hwv (hpre.isInfix.trans (drop_suffix k v).isInfix)

/-- A value whose end, or middle, is the front of the marker takes letters that are no secret with
it: those in front of the other value. -/
theorem not_touches_front {k : Nat}
    (hvw : ¬ Meets v w) (hww : ¬ Meets w w) (hk : k < v.length) (hk0 : 0 < k) :
    ¬ (v.drop k <+: redactedMarker.toList ∨ redactedMarker.toList <+: v.drop k) := by
  intro ht
  have hwv : ¬ w <:+: v := fun hi => hvw (meets_of_part hw hne hi)
  have hfit : v <+: v.take k ++ (redactedMarker.toList ++ v.drop (k + 21)) := by
    conv_lhs => rw [← take_append_drop k v]
    rw [prefix_append_right_inj]
    rcases ht with ht | ⟨b, hb⟩
    · exact ht.trans (prefix_append _ _)
    · rw [← drop_drop, ← hb, ← length_redactedMarker, drop_left]
  have hearlier : ∀ j < k, ¬ w <+: (v.take k).drop j ++ (w ++ v.drop (k + 21)) := by
    intro j hj hp
    have hne : (v.take k).drop j ≠ [] := by
      rw [← length_pos_iff, length_drop, length_take]
      omega
    rcases prefix_or_meets hne hp with hp | hm
    · exact hwv (hp.isInfix.trans ((drop_suffix j _).isInfix.trans
        (List.take_prefix k v).isInfix))
    · exact hww hm
  obtain ⟨xs, hxs, hfresh, hred⟩ := h (v.take k ++ (w ++ v.drop (k + 21)))
  obtain ⟨us, rs, rfl, hus, hrs⟩ := map_eq_append_iff.mp hxs
  obtain ⟨ws, bs, rfl, hws, hbs⟩ := map_eq_append_iff.mp hrs
  have huslen : us.length = k := by
    rw [← length_map, hus, length_take]
    omega
  have hbslen : bs.length = v.length - (k + 21) := by
    rw [← length_map, hbs, length_drop]
  have hfirst : ∀ j < us.length, ¬ w <+: (us.drop j ++ (ws ++ bs)).map Prod.fst := by
    intro j hj
    rw [map_append, map_append, map_drop, hus, hws, hbs]
    exact hearlier j (by omega)
  have hwb : ¬ w <:+: bs.map Prod.fst := fun hi =>
    hwv (hi.trans (hbs ▸ (drop_suffix _ v).isInfix))
  rw [blot_first hw hws hfirst, blot_eq_self hwb] at hred
  have hprefix : v <+: (us ++ (marks ++ bs)).map Prod.fst := by
    rw [map_append, map_append, hus, map_fst_marks, hbs]
    exact hfit
  rw [blot_of_word mem_cons_self hv hprefix (by simp)] at hred
  -- the first letter stands in no value
  have hfree : ¬ Covered (fun u => u = v ∨ u = w) (v.take k ++ (w ++ v.drop (k + 21))) 0 := by
    rintro ⟨u, hu, i, hi, -, hp⟩
    obtain rfl := Nat.le_zero.mp hi
    rcases hu with rfl | rfl
    · refine hvw ⟨k, hk, fun h0 => by omega, ?_⟩
      conv_lhs at hp => rw [← take_append_drop k u]
      rw [drop_zero, prefix_append_right_inj] at hp
      exact prefix_or_prefix_of_prefix hp (prefix_append _ _)
    · exact hearlier 0 hk0 hp
  have hpos : 0 < (us ++ (ws ++ bs)).length := by
    rw [length_append]
    omega
  refine hfresh _ (getElem_mem hpos) ?_
  rcases mem_append.mp (hred.mem_of_not hpos hfree) with hx | hx
  · exact hx
  refine (mem_blot hx).elim id fun hx => ?_
  have hbs : bs.drop (v.length - us.length - marks.length) = [] :=
    drop_eq_nil_of_le (by rw [length_marks]; omega)
  rw [drop_append, drop_eq_nil_of_le (by omega), nil_append, drop_append,
    hbs, append_nil] at hx
  exact mem_of_mem_drop hx

/-- A value whose front is the end of the marker takes letters that are no secret with it: those
behind the other value. -/
theorem not_touches_back {k : Nat}
    (hvv : ¬ Meets v v) (hvw : ¬ Meets v w) (hwv : ¬ Meets w v) (hww : ¬ Meets w w)
    (hvm : ¬ v <:+: redactedMarker.toList) (hk : k < 21) :
    ¬ redactedMarker.toList.drop k <+: v := by
  rintro ⟨b, hb⟩
  have hb0 : b ≠ [] := by
    rintro rfl
    rw [append_nil] at hb
    exact hvm (hb ▸ (drop_suffix k _).isInfix)
  have hbpos := length_pos_of_ne_nil hb0
  have hvlen : v.length = 21 - k + b.length := by
    rw [← hb, length_append, length_drop, length_redactedMarker]
  have hwb : ¬ w <:+: b := fun hi =>
    hvw (meets_of_part hw hne (hi.trans (hb ▸ (suffix_append _ b).isInfix)))
  obtain ⟨xs, hxs, hfresh, hred⟩ := h (w ++ b)
  obtain ⟨ws, bs, rfl, hws, hbs⟩ := map_eq_append_iff.mp hxs
  have hwslen : ws.length = w.length := by rw [← hws, length_map]
  have hbslen : bs.length = b.length := by rw [← hbs, length_map]
  have hcut : marks ++ bs = marks.take k ++ ((marks.drop k ++ bs) ++ []) := by
    rw [append_nil, ← append_assoc, take_append_drop]
  have hword : (marks.drop k ++ bs).map Prod.fst = v := by
    rw [map_append, map_drop, map_fst_marks, hbs, hb]
  have hfirst : ∀ j < (marks.take k).length,
      ¬ v <+: ((marks.take k).drop j ++ ((marks.drop k ++ bs) ++ [])).map Prod.fst := by
    intro j hj hp
    rw [map_append, append_nil, hword, map_drop, map_take,
      map_fst_marks] at hp
    have hne : (redactedMarker.toList.take k).drop j ≠ [] := by
      rw [← length_pos_iff, length_drop, length_take, length_redactedMarker]
      rw [length_take, length_marks] at hj
      omega
    rcases prefix_or_meets hne (by rwa [append_nil]) with hp | hm
    · exact hvm (hp.isInfix.trans ((drop_suffix j _).isInfix.trans
        (List.take_prefix k _).isInfix))
    · exact hvv hm
  have hkeep : blot Prod.fst [w] marks bs = bs := blot_eq_self (by rwa [hbs])
  rw [blot_word_append hw hws, hkeep, hcut, blot_first hv hword hfirst, blot_nil,
    append_nil] at hred
  -- the last letter stands in no value
  have hfree : ¬ Covered (fun u => u = v ∨ u = w) (w ++ b) (w.length + b.length - 1) := by
    rintro ⟨u, hu, i, hi, hlt, hp⟩
    have hlen := hp.length_le
    rw [length_drop, length_append] at hlen
    by_cases hiw : i < w.length
    · rw [drop_append_of_le_length hiw.le] at hp
      rcases hu with rfl | rfl
      · exact hwv (meets_of_start hiw (fun _ => hne.symm) hp)
      · exact hww (meets_of_start hiw (fun h0 => by omega) hp)
    · rw [drop_append, drop_eq_nil_of_le (by omega), nil_append] at hp
      rcases hu with rfl | rfl
      · omega
      · exact hwb (hp.isInfix.trans (drop_suffix _ b).isInfix)
  have hpos : w.length + b.length - 1 < (ws ++ bs).length := by
    rw [length_append]
    omega
  refine hfresh _ (getElem_mem hpos) ?_
  rcases mem_append.mp (hred.mem_of_not hpos hfree) with hx | hx
  · exact mem_of_mem_take hx
  · exact hx

theorem not_touches_marker
    (h' : Wiped w v) (hvv : ¬ Meets v v) (hww : ¬ Meets w w) :
    ¬ Touches v redactedMarker.toList ∧ ¬ Touches redactedMarker.toList v := by
  have hvw := not_meets hv hw hne h h' hvv hww
  have hwv := not_meets hw hv hne.symm h' h hww hvv
  have hvm := not_infix_marker hv hw h hvv
  have hback : ∀ k < 21, ¬ redactedMarker.toList.drop k <+: v := fun k hk =>
    not_touches_back hv hw hne h hvv hvw hwv hww hvm hk
  constructor
  · rintro ⟨k, hk, ht⟩
    rcases Nat.eq_zero_or_pos k with rfl | hk0
    · rcases ht with ht | ht
      · exact hvm (List.IsPrefix.isInfix ht)
      · exact hback 0 (by omega) ht
    · exact not_touches_front hv hw hne h hvw hww hk hk0 ht
  · rintro ⟨k, hk, ht | ht⟩
    · exact hback k (by rwa [length_redactedMarker] at hk) ht
    · exact hvm (ht.isInfix.trans (drop_suffix k _).isInfix)

end Pair

/-! ## The values a process may resolve -/

def liveAfter (resolved : List String) : Finset String :=
  resolved.foldl registerLiveSecretValue ∅

theorem mem_foldl_register {v : String} (resolved : List String) : ∀ live : Finset String,
    v ∈ resolved.foldl registerLiveSecretValue live ↔ v ∈ live ∨ v ∈ resolved ∧ v ≠ "" := by
  induction resolved with
  | nil => simp
  | cons u resolved ih =>
    intro live
    rw [foldl_cons, ih, registerLiveSecretValue]
    split
    · subst ‹u = ""›
      simp only [mem_cons]
      tauto
    · simp only [Finset.mem_insert, mem_cons]
      constructor
      · rintro ((rfl | h) | h) <;> tauto
      · tauto

theorem mem_liveAfter {v : String} {resolved : List String} :
    v ∈ liveAfter resolved ↔ v ∈ resolved ∧ v ≠ "" := by
  simp [liveAfter, mem_foldl_register]

theorem wiped_of_redactsWhole {v w : String} (hv : v ≠ "") (hw : w ≠ "") (hne : v ≠ w)
    (h : RedactsWhole (liveAfter [v, w])) : Wiped v.toList w.toList := by
  intro s
  have horder : IterationOrder (liveAfter [v, w]) [w, v] := by
    refine ⟨by simp [hne.symm], ?_⟩
    ext u
    rw [mem_liveAfter]
    simp only [mem_toFinset, mem_cons, not_mem_nil, or_false]
    constructor
    · rintro (rfl | rfl) <;> tauto
    · tauto
  have hred := h.text _ horder (String.ofList s)
  have hcov : InSecret (liveAfter [v, w]) (String.ofList s)
      = Covered (fun u => u = v.toList ∨ u = w.toList) s := by
    funext k
    have hword : (fun u => String.ofList u ∈ liveAfter [v, w])
        = fun u => u = v.toList ∨ u = w.toList := by
      funext u
      rw [mem_liveAfter]
      simp only [mem_cons, not_mem_nil, or_false, eq_iff_iff]
      constructor
      · rintro ⟨hu | hu, -⟩
        · exact .inl (by rw [← hu, String.toList_ofList])
        · exact .inr (by rw [← hu, String.toList_ofList])
      · rintro (rfl | rfl)
        · exact ⟨.inl String.ofList_toList, by simpa using hv⟩
        · exact ⟨.inr String.ofList_toList, by simpa using hw⟩
    rw [InSecret, hword, String.toList_ofList]
  rw [hcov, scrubTraced, scrubLetters_cons hw, scrubLetters_cons hv] at hred
  exact ⟨letters (String.ofList s), by simp, fun x hx => not_mem_marks hx, hred⟩

theorem not_meets_self_of_redactsWhole {v : String} (hv : v ≠ "")
    (h : RedactsWhole (liveAfter [v])) : ¬ Meets v.toList v.toList := by
  refine not_meets_self fun s => ?_
  have hlive : liveAfter [v] = {v} := by
    ext u
    rw [mem_liveAfter]
    simp only [mem_singleton, Finset.mem_singleton, and_iff_left_iff_imp]
    rintro rfl
    exact hv
  rw [hlive] at h
  have hred := h.text [v] ⟨by simp, by simp⟩ (String.ofList s)
  have hcov : InSecret {v} (String.ofList s) = Covered (· = v.toList) s := by
    funext k
    have hword : (fun u => String.ofList u ∈ ({v} : Finset String)) = (· = v.toList) := by
      funext u
      rw [Finset.mem_singleton, eq_iff_iff]
      constructor
      · rintro rfl
        rw [String.toList_ofList]
      · rintro rfl
        exact String.ofList_toList
    rw [InSecret, hword, String.toList_ofList]
  rw [hcov, scrubTraced, scrubLetters_cons hv] at hred
  exact ⟨letters (String.ofList s), by simp, fun x hx => not_mem_marks hx, hred⟩

/-- **When redaction removes whole secrets.**  A process that may resolve the values `V` redacts
every text and payload whole, in every order and at every moment, exactly if `V` is separate. -/
theorem redacts_whole_iff (V : Set String) :
    (∀ resolved : List String, (∀ v ∈ resolved, v ∈ V) → RedactsWhole (liveAfter resolved)) ↔
      Separate V := by
  constructor
  · intro h
    have hself : ∀ v ∈ V, v ≠ "" → ¬ Meets v.toList v.toList := fun v hvV hv =>
      not_meets_self_of_redactsWhole hv (h [v] (by simpa using hvV))
    have hpair : ∀ v ∈ V, ∀ w ∈ V, v ≠ "" → w ≠ "" → v ≠ w → Wiped v.toList w.toList :=
      fun v hvV w hwV hv hw hne => wiped_of_redactsWhole hv hw hne (h [v, w] (by simp [hvV, hwV]))
    have hne' : ∀ {v w : String}, v ≠ w → v.toList ≠ w.toList := fun hne h =>
      hne (String.toList_inj.mp h)
    constructor
    · intro v hvV w hwV hv hw
      by_cases hne : v = w
      · subst hne
        exact hself v hvV hv
      · exact not_meets (toList_ne_nil hv) (toList_ne_nil hw) (hne' hne)
          (hpair v hvV w hwV hv hw hne) (hpair w hwV v hvV hw hv (Ne.symm hne))
          (hself v hvV hv) (hself w hwV hw)
    · intro v hvV w hwV hv hw hne
      exact not_touches_marker (toList_ne_nil hv) (toList_ne_nil hw) (hne' hne)
        (hpair v hvV w hwV hv hw hne) (hpair w hwV v hvV hw hv hne.symm)
        (hself v hvV hv) (hself w hwV hw)
  · intro hV resolved hmem
    exact redactsWhole_of_separate hV fun v hv => by
      obtain ⟨hv, hne⟩ := mem_liveAfter.mp hv
      exact ⟨hmem v hv, hne⟩

/-- A secret that begins with another one: replaced in this order, its end is published. -/
theorem prefix_secret_leaks :
    IterationOrder (liveAfter ["key-12", "key-1234"]) ["key-12", "key-1234"] ∧
    scrub "the key-1234" ["key-12", "key-1234"] = "the ***REDACTED_SECRET***34" ∧
    scrub "the key-1234" ["key-1234", "key-12"] = "the ***REDACTED_SECRET***" ∧
    ¬ RedactsWhole (liveAfter ["key-12", "key-1234"]) := by
  have h₁ : scrub "the key-1234" ["key-12", "key-1234"] = "the ***REDACTED_SECRET***34" := by
    decide +kernel
  have h₂ : scrub "the key-1234" ["key-1234", "key-12"] = "the ***REDACTED_SECRET***" := by
    decide +kernel
  have ho : IterationOrder (liveAfter ["key-12", "key-1234"]) ["key-12", "key-1234"] := by
    decide +kernel
  have ho' : IterationOrder (liveAfter ["key-12", "key-1234"]) ["key-1234", "key-12"] := by
    decide +kernel
  refine ⟨ho, h₁, h₂, fun h => ?_⟩
  have := (h.order _ _ ho ho').1 "the key-1234"
  exact absurd this (by decide +kernel)

end AutoDev.Secrets
