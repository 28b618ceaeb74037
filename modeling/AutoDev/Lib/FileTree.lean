/-
# `AutoDev.Lib.FileTree` — file systems with symbolic links, and where a path leads

A file tree says what stands at each PLACE, a list of names from the root.
Nothing stands below anything but a directory, so the place of a file is its
real path.  A path as it is written is something else: it may go up, and
through links.  `Walk` is where it leads, component by component; what does not
exist is no link, and is passed over as it is written, the way `realpath` does.

Places that a walk can end at are `Real`: no link on the way, nothing to go up.
A real place, read as a path, leads to itself (`Real.leads_only`), and keeps
doing so while only files and directories are added (`Real.grown`).
-/
import Mathlib.Data.List.Infix
import Mathlib.Logic.Function.Basic

/-! ## Paths as they are written -/

/-- Where a written path starts; two slashes are not the same as one. -/
inductive Anchor where
  | relative
  | slash
  | twoSlashes
  deriving DecidableEq

/-- A written path, split into its components; `.` and empty ones are dropped. -/
structure PurePath where
  anchor : Anchor
  parts : List String
  deriving DecidableEq

namespace PurePath

def anchorOf : List Char → Anchor
  | '/' :: '/' :: '/' :: _ => .slash
  | '/' :: '/' :: _ => .twoSlashes
  | '/' :: _ => .slash
  | _ => .relative

def parse (text : String) : PurePath where
  anchor := anchorOf text.toList
  parts := ((text.toList.splitOn '/').map String.ofList).filter fun n => n ≠ "" ∧ n ≠ "."

def absolute (place : List String) : PurePath := ⟨.slash, place⟩

/-- `a / b`: a path that starts at the root replaces what is before it. -/
def join (a b : PurePath) : PurePath :=
  match b.anchor with
  | .relative => ⟨a.anchor, a.parts ++ b.parts⟩
  | _ => b

def text (p : PurePath) : String :=
  match p.anchor with
  | .relative => if p.parts = [] then "." else "/".intercalate p.parts
  | .slash => "/" ++ "/".intercalate p.parts
  | .twoSlashes => "//" ++ "/".intercalate p.parts

/-- The components to walk from the root, for a process that works at `cwd`. -/
def fromRoot (cwd : List String) (p : PurePath) : List String :=
  match p.anchor with
  | .relative => cwd ++ p.parts
  | _ => p.parts

def IsName (name : String) : Prop :=
  name ≠ "" ∧ name ≠ "." ∧ name ≠ ".." ∧ '/' ∉ name.toList

instance : DecidablePred IsName := fun _ => inferInstanceAs (Decidable (_ ∧ _ ∧ _ ∧ _))

theorem parse_text {place : List String} (h : ∀ name ∈ place, IsName name) :
    parse (absolute place).text = absolute place := by
  rcases place with _ | ⟨name, names⟩
  · decide +kernel
  have hslash : ∀ l ∈ [] :: (name :: names).map String.toList, '/' ∉ l := by
    simpa using fun n hn => (h n hn).2.2.2
  have htext : (absolute (name :: names)).text.toList =
      ['/'].intercalate ([] :: (name :: names).map String.toList) := by
    simp [absolute, text, String.toList_append, String.toList_intercalate]
  have hkept : ∀ n ∈ name :: names, n ≠ "" ∧ n ≠ "." := fun n hn => ⟨(h n hn).1, (h n hn).2.1⟩
  have hanchor : anchorOf (absolute (name :: names)).text.toList = .slash := by
    rcases hchars : name.toList with _ | ⟨c, cs⟩
    · exact absurd (String.toList_eq_nil_iff.mp hchars) (h name List.mem_cons_self).1
    have hc : c ≠ '/' := by
      rintro rfl
      exact (h name List.mem_cons_self).2.2.2 (by simp [hchars])
    rw [htext]
    simp [hchars, anchorOf, hc]
  rw [parse, hanchor, htext, List.splitOn_intercalate '/' hslash (by simp)]
  simp only [absolute, PurePath.mk.injEq, true_and]
  simpa [Function.comp_def] using hkept

end PurePath

/-! ## Trees -/

/-- What stands at a place. -/
inductive Node where
  | dir
  | file (content : String)
  | link (target : PurePath)
  deriving DecidableEq

/-- What stands at each place, by names; what stands below something stands below a directory. -/
structure FileTree where
  node : List String → Option Node
  root : node [] = some .dir
  parent : ∀ place name, node (place ++ [name]) ≠ none → node place = some .dir
  named : ∀ place name, node (place ++ [name]) ≠ none → PurePath.IsName name

namespace FileTree

variable {t t' : FileTree} {place cur rest r : List String} {name : String} {x : Node}

/-- Put something that is new, or in the place of something that is no directory. -/
def put (t : FileTree) (place : List String) (name : String) (x : Node)
    (hdir : t.node place = some .dir) (hold : t.node (place ++ [name]) ≠ some .dir)
    (hname : PurePath.IsName name) : FileTree where
  node := Function.update t.node (place ++ [name]) (some x)
  root := by
    rw [Function.update_of_ne (by simp)]
    exact t.root
  parent q n h := by
    by_cases hq : q ++ [n] = place ++ [name]
    · obtain ⟨rfl, -⟩ := List.append_inj' hq rfl
      rw [Function.update_of_ne (by simp)]
      exact hdir
    rw [Function.update_of_ne hq] at h
    have hqdir := t.parent q n h
    have hne : q ≠ place ++ [name] := by
      rintro rfl
      exact hold hqdir
    rwa [Function.update_of_ne hne]
  named q n h := by
    by_cases hq : q ++ [n] = place ++ [name]
    · obtain ⟨-, hn⟩ := List.append_inj' hq rfl
      rwa [List.singleton_inj.mp hn]
    rw [Function.update_of_ne hq] at h
    exact t.named q n h

theorem node_put (hdir : t.node place = some .dir) (hold : t.node (place ++ [name]) ≠ some .dir)
    (hname : PurePath.IsName name) (q : List String) :
    (t.put place name x hdir hold hname).node q =
      if q = place ++ [name] then some x else t.node q := by
  by_cases hq : q = place ++ [name]
  · subst hq
    simp [put]
  · simp [put, hq]

theorem isName_of_node : ∀ {place : List String}, t.node place ≠ none →
    ∀ name ∈ place, PurePath.IsName name := by
  intro place
  induction place using List.reverseRecOn with
  | nil => simp
  | append_singleton place name ih =>
    intro h
    have hplace : t.node place ≠ none := by
      rw [t.parent place name h]
      simp
    exact List.forall_mem_append.mpr
      ⟨ih hplace, List.forall_mem_singleton.mpr (t.named place name h)⟩

/-! ## Walks -/

/-- The components `rest`, walked from the place `cur`, lead to a place. -/
inductive Walk (t : FileTree) : List String → List String → List String → Prop
  | done {cur : List String} : Walk t cur [] cur
  | up {cur rest r : List String} : Walk t cur.dropLast rest r → Walk t cur (".." :: rest) r
  | link {cur rest r : List String} {name : String} {target : PurePath} : name ≠ ".." →
      t.node (cur ++ [name]) = some (.link target) →
      Walk t [] (target.fromRoot cur ++ rest) r → Walk t cur (name :: rest) r
  | step {cur rest r : List String} {name : String} : name ≠ ".." →
      (∀ target, t.node (cur ++ [name]) ≠ some (.link target)) →
      Walk t (cur ++ [name]) rest r → Walk t cur (name :: rest) r

structure Real (t : FileTree) (place : List String) : Prop where
  down : ".." ∉ place
  noLink : ∀ q, q <+: place → ∀ target, t.node q ≠ some (.link target)

theorem real_nil (t : FileTree) : Real t [] where
  down := by simp
  noLink q hq target := by
    rw [List.prefix_nil.mp hq, t.root]
    simp

theorem Real.of_prefix {q : List String} (h : Real t place) (hq : q <+: place) : Real t q :=
  ⟨fun hmem => h.down (hq.subset hmem), fun q' hq' => h.noLink q' (hq'.trans hq)⟩

theorem Real.snoc (h : Real t place) (hname : name ≠ "..")
    (hlink : ∀ target, t.node (place ++ [name]) ≠ some (.link target)) :
    Real t (place ++ [name]) where
  down := by simp [h.down, hname.symm]
  noLink q hq := by
    rcases List.prefix_concat_iff.mp hq with rfl | hq
    · exact hlink
    · exact h.noLink q hq

theorem Walk.real (h : Walk t cur rest r) (hcur : Real t cur) : Real t r := by
  induction h with
  | done => exact hcur
  | up _ ih => exact ih (hcur.of_prefix (List.dropLast_prefix _))
  | link _ _ _ ih => exact ih (real_nil t)
  | step hname hlink _ ih => exact ih (hcur.snoc hname hlink)

theorem Walk.eq_append (h : Walk t cur rest r) (hreal : Real t (cur ++ rest)) :
    r = cur ++ rest := by
  induction h with
  | done => simp
  | up _ _ => exact absurd (by simp) hreal.down
  | @link cur rest r name target _ hlink _ _ =>
    exact absurd hlink (hreal.noLink _ ⟨rest, by simp⟩ target)
  | @step cur rest r name _ _ _ ih =>
    have hcons : cur ++ [name] ++ rest = cur ++ name :: rest := by simp
    rw [ih (hcons ▸ hreal), hcons]

theorem walk_append : ∀ {rest cur : List String}, Real t (cur ++ rest) →
    Walk t cur rest (cur ++ rest)
  | [], cur, _ => by
    rw [List.append_nil]
    exact .done
  | name :: rest, cur, h => by
    have hcons : cur ++ [name] ++ rest = cur ++ name :: rest := by simp
    have hname : name ≠ ".." := by
      rintro rfl
      exact h.down (by simp)
    refine .step hname (h.noLink _ ⟨rest, hcons⟩) ?_
    rw [← hcons]
    exact walk_append (hcons ▸ h)

theorem Real.leads (h : Real t place) : Walk t [] place place := walk_append h

theorem Real.leads_only (h : Real t place) (hwalk : Walk t [] place r) : r = place :=
  hwalk.eq_append h

def RealPath (t : FileTree) (cwd : List String) (p : PurePath) (r : List String) : Prop :=
  Walk t [] (p.fromRoot cwd) r

theorem RealPath.real {cwd : List String} {p : PurePath} (h : RealPath t cwd p r) : Real t r :=
  Walk.real h (real_nil t)

/-- Only directories were added, anywhere, and a file at `target`. -/
def Grown (target : List String) (t t' : FileTree) : Prop :=
  ∀ q, t'.node q = t.node q ∨ t'.node q = some .dir ∨
    q = target ∧ ∃ content, t'.node q = some (.file content)

theorem Grown.refl (target : List String) (t : FileTree) : Grown target t t := fun _ => .inl rfl

theorem Real.grown {target : List String} (h : Real t place) (hg : Grown target t t') :
    Real t' place := by
  refine ⟨h.down, fun q hq tgt hlink => ?_⟩
  rcases hg q with heq | hdir | ⟨-, content, hfile⟩
  · exact h.noLink q hq tgt (heq ▸ hlink)
  · rw [hdir] at hlink
    cases hlink
  · rw [hfile] at hlink
    cases hlink

theorem Grown.put {target : List String} (hg : Grown target t t') (hdir : t'.node place = some .dir)
    (hold : t'.node (place ++ [name]) ≠ some .dir) (hname : PurePath.IsName name)
    (hx : x = .dir ∨ place ++ [name] = target ∧ ∃ content, x = .file content) :
    Grown target t (t'.put place name x hdir hold hname) := by
  intro q
  rw [node_put]
  split
  · next hq =>
      rcases hx with rfl | ⟨htgt, content, rfl⟩
      · exact .inr (.inl rfl)
      · exact .inr (.inr ⟨hq.trans htgt, content, rfl⟩)
  · exact hg q

end FileTree
