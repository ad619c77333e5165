import Mathlib.Data.List.Basic

/-! Paths as Python's `os.path` takes them apart on POSIX.

Only the text counts: no link is followed. What an absolute path is made into is absolute
(`normpath_absolute`), and it ends with the last name of the path (`normpath_last`). -/
namespace Library.PosixPath

abbrev Path := List Char

def isabs (path : Path) : Bool := path.head? = some '/'

def join (a b : Path) : Path :=
  if isabs b then b else if a = [] ∨ a.getLast? = some '/' then a ++ b else a ++ '/' :: b

/-- The slashes that a path begins with; two of them stay two. -/
def root : Path → Path
  | '/' :: '/' :: '/' :: _ => ['/']
  | '/' :: '/' :: _ => ['/', '/']
  | '/' :: _ => ['/']
  | _ => []

/-- One component more. -/
def push (root : Path) (comps : List Path) (comp : Path) : List Path :=
  if comp = [] ∨ comp = ['.'] then comps
  else if comp ≠ ['.', '.'] ∨ root = [] ∧ comps = [] ∨ comps.getLast? = some ['.', '.'] then comps ++ [comp]
  else comps.dropLast

def normpath (path : Path) : Path :=
  let comps := ((path.drop (root path).length).splitOn '/').foldl (push (root path)) []
  let normal := root path ++ ['/'].intercalate comps
  if normal = [] then ['.'] else normal

def abspath (cwd path : Path) : Path := normpath (if isabs path then path else join cwd path)

def basename (path : Path) : Path := (path.splitOn '/').getLast (List.splitOn_ne_nil _ _)

/-- `os.path.splitext(name)[0]` of a name without slashes: dots that the name begins with end nothing. -/
def stem (name : Path) : Path :=
  let front := (name.reverse.dropWhile (· ≠ '.')).drop 1 |>.reverse
  if front.any (· ≠ '.') then front else name

/-! ### Absolute paths -/

theorem root_absolute {path : Path} (h : isabs path = true) : (root path).head? = some '/' := by
  unfold root
  split
  · rfl
  · rfl
  · rfl
  · rename_i hslash
    obtain ⟨c, rest, rfl⟩ : ∃ c rest, path = c :: rest := by
      cases path with
      | nil => cases h
      | cons c rest => exact ⟨c, rest, rfl⟩
    simp only [isabs, List.head?_cons, Option.some.injEq, decide_eq_true_eq] at h
    subst h
    exact absurd rfl (hslash rest)

theorem isabs_append {a : Path} (h : isabs a = true) (b : Path) : isabs (a ++ b) = true := by
  cases a with
  | nil => cases h
  | cons c a => exact h

theorem isabs_join {a b : Path} (h : isabs a = true) : isabs (join a b) = true := by
  unfold join
  split
  · assumption
  · split
    · exact isabs_append h b
    · exact isabs_append h _

theorem normpath_absolute {path : Path} (h : isabs path = true) : isabs (normpath path) = true := by
  obtain ⟨rest, hrest⟩ : ∃ rest, root path = '/' :: rest := List.head?_eq_some_iff.mp (root_absolute h)
  rw [normpath, hrest]
  rfl

theorem abspath_absolute {cwd : Path} (h : isabs cwd = true) (path : Path) : isabs (abspath cwd path) = true := by
  rw [abspath]
  split
  · exact normpath_absolute ‹_›
  · exact normpath_absolute (isabs_join h)

/-! ### The last name -/

/-- A name that stands for itself. -/
def IsComponent (name : Path) : Prop := name ≠ [] ∧ name ≠ ['.'] ∧ name ≠ ['.', '.'] ∧ '/' ∉ name

theorem push_name {root name : Path} (h : IsComponent name) (comps : List Path) :
    push root comps name = comps ++ [name] := by
  rw [push, if_neg (not_or.mpr ⟨h.1, h.2.1⟩), if_pos (.inl h.2.2.1)]

/-- The path goes through `a`, a directory, to the name. -/
theorem foldl_push {root name : Path} (h : IsComponent name) (a : Path) :
    ((a ++ '/' :: name).splitOn '/').foldl (push root) [] = ((a.splitOn '/').foldl (push root) []) ++ [name] := by
  rw [List.splitOn_append_cons_self, List.splitOn_eq_singleton h.2.2.2, List.foldl_append, List.foldl_cons,
    List.foldl_nil, push_name h]

theorem suffix_intercalate (comps : List Path) (name : Path) : name <:+ ['/'].intercalate (comps ++ [name]) := by
  induction comps with
  | nil => simp
  | cons comp comps ih =>
    rw [List.cons_append, List.intercalate_cons_of_ne_nil (by simp)]
    exact ih.trans (List.suffix_append _ _)

theorem root_length (path : Path) : (root path).length ≤ 2 := by
  unfold root
  split
  · exact Nat.le_succ 1
  · exact Nat.le_refl 2
  · exact Nat.le_succ 1
  · exact Nat.zero_le 2

theorem normpath_last {name : Path} (h : IsComponent name) {a : Path} (ha : 2 ≤ a.length) :
    name <:+ normpath (a ++ '/' :: name) := by
  have hdrop : ∀ r : Path, r.length ≤ 2 → (a ++ '/' :: name).drop r.length = a.drop r.length ++ '/' :: name :=
    fun r hr => List.drop_append_of_le_length (Nat.le_trans hr ha)
  have hsuffix : name <:+ root (a ++ '/' :: name) ++ ['/'].intercalate
      (((a ++ '/' :: name).drop (root (a ++ '/' :: name)).length |>.splitOn '/').foldl
        (push (root (a ++ '/' :: name))) []) := by
    rw [hdrop _ (root_length _), foldl_push h]
    exact (suffix_intercalate _ _).trans (List.suffix_append _ _)
  rw [normpath]
  split
  · rename_i hnil
    rw [hnil] at hsuffix
    exact absurd (List.suffix_nil.mp hsuffix) h.1
  · exact hsuffix

theorem suffix_join (a b : Path) : b <:+ join a b := by
  unfold join
  split
  · exact List.suffix_rfl
  split
  · exact List.suffix_append a b
  · exact (List.suffix_cons '/' b).trans (List.suffix_append a _)

/-- A name that a path goes to. -/
def EndsWith (path name : Path) : Prop := ∃ a, 2 ≤ a.length ∧ path = a ++ '/' :: name

theorem endsWith_join {name : Path} (h : IsComponent name) {a : Path} (ha : 2 ≤ a.length)
    (hslash : a.getLast? ≠ some '/') : EndsWith (join a name) name := by
  have hrelative : ¬ isabs name = true := fun habs =>
    h.2.2.2 (List.mem_of_head? (of_decide_eq_true habs))
  have hne : a ≠ [] := by
    rintro rfl
    exact absurd ha (by decide)
  refine ⟨a, ha, ?_⟩
  rw [join, if_neg hrelative, if_neg (not_or.mpr ⟨hne, hslash⟩)]

theorem EndsWith.join {path name : Path} (h : EndsWith path name) (a : Path) : EndsWith (join a path) name := by
  obtain ⟨front, hfront, rfl⟩ := h
  unfold PosixPath.join
  split
  · exact ⟨front, hfront, rfl⟩
  split
  · exact ⟨a ++ front, by rw [List.length_append]; omega, by rw [List.append_assoc]⟩
  · exact ⟨a ++ '/' :: front, by rw [List.length_append, List.length_cons]; omega, by simp⟩

theorem EndsWith.abspath {path name : Path} (h : EndsWith path name) (hname : IsComponent name) (cwd : Path) :
    name <:+ abspath cwd path := by
  have hlast : ∀ {p : Path}, EndsWith p name → name <:+ normpath p := by
    rintro _ ⟨a, ha, rfl⟩
    exact normpath_last hname ha
  rw [PosixPath.abspath]
  split
  · exact hlast h
  · exact hlast (h.join cwd)

end Library.PosixPath
