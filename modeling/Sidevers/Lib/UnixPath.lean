/-
Paths of a Unix file system as texts: the components between the slashes, the
place they lead to, and the path that joining a name gives.

`resolve` walks a path from the root, or from the directory a process runs in;
no directory on the way is a symbolic link. What is joined at the end of a path
is below the place the path leads to as soon as it is a name (`Name`):
`resolve_join`.
-/
import Mathlib.Init

namespace Sidevers.Lib.UnixPath

/-- A place: the names that lead to it from the root. -/
abbrev Place := List String

/-- What stands between the slashes. -/
def components (path : String) : List String :=
  (path.toList.splitOn '/').map String.ofList

/-- From one place to the next. -/
def enter (at' : Place) (component : String) : Place :=
  if component = "" ∨ component = "." then at'
  else if component = ".." then at'.dropLast
  else at' ++ [component]

/-- A path from the root starts with a slash. -/
def isAbsolute (path : String) : Bool := path.toList.head? = some '/'

/-- Where a path leads to, for a process that runs in `cwd`. -/
def resolve (cwd : Place) (path : String) : Place :=
  (components path).foldl enter (if isAbsolute path then [] else cwd)

/-- A path with another behind it, which replaces it if it starts at the
root. -/
def join (base path : String) : String :=
  if isAbsolute path then path
  else if base.toList.getLast?.any (· ≠ '/') then base ++ "/" ++ path
  else base ++ path

/-- A component that names a file of the directory it is looked up in. -/
structure Name (component : String) : Prop where
  noSlash : '/' ∉ component.toList
  notEmpty : component ≠ ""
  notDot : component ≠ "."
  notDots : component ≠ ".."

instance (component : String) : Decidable (Name component) :=
  decidable_of_iff ('/' ∉ component.toList ∧ component ≠ "" ∧ component ≠ "."
      ∧ component ≠ "..")
    ⟨fun ⟨h₁, h₂, h₃, h₄⟩ => ⟨h₁, h₂, h₃, h₄⟩,
      fun ⟨h₁, h₂, h₃, h₄⟩ => ⟨h₁, h₂, h₃, h₄⟩⟩

variable {base name : String}

theorem components_slash (base path : String) :
    components (base ++ "/" ++ path) = components base ++ components path := by
  have hlist : (base ++ "/" ++ path).toList
      = base.toList ++ '/' :: path.toList := by
    simp
  rw [components, hlist, List.splitOn_append_cons_self, List.map_append]
  rfl

theorem Name.components (h : Name name) :
    UnixPath.components name = [name] := by
  rw [UnixPath.components, List.splitOn_eq_singleton h.noSlash]
  simp

theorem Name.isAbsolute (h : Name name) : UnixPath.isAbsolute name = false := by
  refine decide_eq_false fun hhead => h.noSlash ?_
  exact List.mem_of_mem_head? hhead

@[simp] theorem Name.enter (h : Name name) (at' : Place) :
    UnixPath.enter at' name = at' ++ [name] := by
  unfold UnixPath.enter
  rw [if_neg (by simp [h.notEmpty, h.notDot]), if_neg h.notDots]

@[simp] theorem enter_empty (at' : Place) : enter at' "" = at' := if_pos (.inl rfl)

theorem isAbsolute_append (h : base ≠ "") (path : String) :
    isAbsolute (base ++ path) = isAbsolute base := by
  have hne : base.toList ≠ [] := by simpa using h
  obtain ⟨c, rest, hlist⟩ := List.exists_cons_of_ne_nil hne
  simp [isAbsolute, hlist]

/-- A text that ends in a slash has nothing behind it. -/
theorem eq_slash_of_getLast (h : base.toList.getLast? = some '/') :
    ∃ dir, base = dir ++ "/" := by
  obtain ⟨chars, hchars⟩ := List.getLast?_eq_some_iff.mp h
  refine ⟨String.ofList chars, String.toList_inj.mp ?_⟩
  simp [hchars]

theorem components_empty : components "" = [""] := by
  simp [components]

theorem components_end (base : String) :
    components (base ++ "/") = components base ++ [""] := by
  rw [← String.append_empty (s := base ++ "/"), components_slash,
    components_empty]

/-- A slash at the end of a path leads nowhere else. -/
theorem resolve_end (cwd : Place) (h : base ≠ "") :
    resolve cwd (base ++ "/") = resolve cwd base := by
  simp [resolve, isAbsolute_append h, components_end]

/-- A name behind a slash is in the directory before it. -/
theorem resolve_slash (cwd : Place) (h : Name name) (base : String) :
    resolve cwd (base ++ "/" ++ name)
      = resolve cwd (base ++ "/") ++ [name] := by
  have hne : base ++ "/" ≠ "" := by
    intro hempty
    simpa using congrArg String.toList hempty
  simp [resolve, isAbsolute_append hne, components_end, components_slash,
    h.components, h.enter]

/-- A name joined to a path is in the directory the path leads to. -/
theorem resolve_join (cwd : Place) (h : Name name) (base : String) :
    resolve cwd (join base name) = resolve cwd base ++ [name] := by
  have hrel : isAbsolute name = false := h.isAbsolute
  unfold join
  rw [if_neg (by simp [hrel])]
  by_cases hbase : base = ""
  · have hroot : isAbsolute "" = false := by decide
    subst hbase
    simp [resolve, hrel, hroot, components_empty, h.components, h.enter]
  · split
    case isTrue hlast =>
      rw [resolve_slash cwd h, resolve_end cwd hbase]
    case isFalse hlast =>
      have hne : base.toList ≠ [] := by simpa using hbase
      have hslash : base.toList.getLast? = some '/' := by
        rw [List.getLast?_eq_some_getLast hne] at hlast ⊢
        simpa using hlast
      obtain ⟨dir, rfl⟩ := eq_slash_of_getLast hslash
      exact resolve_slash cwd h dir

end Sidevers.Lib.UnixPath
