/-!
# Paths

A path is a text whose names are separated by slashes.  It is absolute when it starts with one.
Paths are kept as they are written: joining and cutting do not tidy up the part that is kept.

- `names`: the names that a lookup walks through, one after the other.
- `join`: a path below another one.
- `parent?`: the path without its last name.
- `relativeTo?`: the path below a base, compared name by name.
-/

namespace UpdateFeed.Path

/-! ## §1 Names -/

/-- Whether a path starts at the top of the file tree. -/
def isAbsolute (path : String) : Bool :=
  path.toList.head? == some '/'

/-- The stretches of a path between its slashes, empty ones included. -/
def segments (path : String) : List String :=
  (path.toList.splitOn '/').map String.ofList

/-- The names of a path, without the empty stretches between doubled slashes. -/
def plainNames (path : String) : List String :=
  (segments path).filter (· ≠ "")

/-- The names that a lookup walks through.  A slash at the end counts as a last name `.`, since it
asks for a directory. -/
def names (path : String) : List String :=
  if path.toList.getLast? = some '/' then plainNames path ++ ["."] else plainNames path

/-! ## §2 Joining -/

/-- The path `path` below `base`; an absolute path replaces the base. -/
def join (base path : String) : String :=
  if isAbsolute path then path
  else if base = "" then path
  else if base.toList.getLast? = some '/' then base ++ path
  else base ++ "/" ++ path

/-! ## §3 Cutting -/

/-- The characters of a path without the slashes and the names `.` at its start. -/
def trimStart : List Char → List Char
  | '/' :: rest => trimStart rest
  | '.' :: '/' :: rest => trimStart rest
  | ['.'] => []
  | rest => rest

theorem exists_trimStart (path : List Char) : ∃ front, path = front ++ trimStart path := by
  fun_induction trimStart path with
  | case1 rest ih =>
    obtain ⟨front, hfront⟩ := ih
    exact ⟨'/' :: front, congrArg ('/' :: ·) hfront⟩
  | case2 rest ih =>
    obtain ⟨front, hfront⟩ := ih
    exact ⟨'.' :: '/' :: front, congrArg ('.' :: '/' :: ·) hfront⟩
  | case3 => exact ⟨['.'], rfl⟩
  | case4 rest => exact ⟨[], rfl⟩

theorem ne_slash_of_trimStart {path rest : List Char} {c : Char}
    (h : trimStart path = c :: rest) : c ≠ '/' := by
  fun_induction trimStart path with
  | case1 _ ih => exact ih h
  | case2 _ ih => exact ih h
  | case3 => simp at h
  | case4 path hslash _ _ =>
    rintro rfl
    exact hslash rest h

/-- Removes slashes and names `.` from the end of a path below its first character, which stays
if it is a slash or a leading `.`. -/
def trimEnd (path : List Char) : List Char :=
  let back := trimStart path.reverse
  match path with
  | '/' :: _ => if back = [] then ['/'] else back.reverse
  | '.' :: '/' :: _ => if back = [] then ['.'] else back.reverse
  | ['.'] => ['.']
  | _ => back.reverse

/-- The path without its last name; nothing for the top of the tree and for the empty path. -/
def parent? (path : String) : Option String :=
  match trimEnd path.toList with
  | [] => none
  | ['/'] => none
  | ['.'] => some ""
  | trimmed =>
    let before := (trimmed.reverse.dropWhile (· ≠ '/')).reverse
    some (String.ofList (trimEnd before))

/-- What walking a path meets at its start: the top of the tree, a leading `.`, or a name; with
the rest of the path. -/
def first? (leading : Bool) (path : List Char) : Option (String × List Char) :=
  -- the top and a leading `.` are met only at the very start
  match leading, path with
  | true, '/' :: rest => some ("/", rest)
  | true, ['.'] => some (".", [])
  | true, '.' :: '/' :: rest => some (".", rest)
  | _, path =>
    match trimStart path with
    | [] => none
    | trimmed =>
      some (String.ofList (trimmed.takeWhile (· ≠ '/')), trimmed.dropWhile (· ≠ '/'))

theorem first?_of_trimStart_nil {path : List Char} (h : trimStart path = []) :
    first? false path = none := by
  rw [first?, h] <;> simp

/-- Past its start a path has a name where trimming leaves one. -/
theorem first?_of_trimStart {path trimmed : List Char} (h : trimStart path = trimmed)
    (hne : trimmed ≠ []) :
    first? false path =
      some (String.ofList (trimmed.takeWhile (· ≠ '/')), trimmed.dropWhile (· ≠ '/')) := by
  obtain ⟨c, rest, rfl⟩ := List.exists_cons_of_ne_nil hne
  rw [first?, h] <;> simp

/-- Walks the names of `base` and of `path` side by side, at most `bound` of them. -/
def walkBeside (bound : Nat) (leading : Bool) (base path : List Char) : Option (List Char) :=
  match first? leading base with
  | none => some (if leading then path else trimStart path)
  | some (name, base) =>
    match bound, first? leading path with
    | bound + 1, some (other, path) =>
      if name = other then walkBeside bound false base path else none
    | _, _ => none

/-- The part of `path` below `base`; nothing if `path` does not start with the names of `base`. -/
def relativeTo? (base path : String) : Option String :=
  (walkBeside (base.length + 1) true base.toList path.toList).map String.ofList

end UpdateFeed.Path
