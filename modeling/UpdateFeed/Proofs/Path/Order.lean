import Mathlib.Data.List.Lex
import UpdateFeed.Proofs.Path
import UpdateFeed.Proofs.Text.ByteOrder

/-!
# The order of paths

Paths are compared component by component: the top of the tree comes before the steps, and these
come before the names, which are compared by their bytes.  A slash is no part of a name, so the
order is not that of the texts: `a/b` comes before `a-b`, though a hyphen is smaller than a slash.

- `components`: what a path is compared by.
- `components_join`: the components of a path below a base.
- `precedes_join`: below a base, the order is that of the names.
-/

namespace UpdateFeed.Path

/-! ## §1 Components -/

/-- What a path consists of when it is compared. -/
inductive Component where
  | top
  /-- The step `.`, which counts at the start of a path only. -/
  | here
  /-- The step `..`. -/
  | above
  | name (text : String)
  deriving DecidableEq

namespace Component

/-- The place of a kind of component among the others. -/
def rank : Component → Nat
  | .top => 0
  | .here => 1
  | .above => 2
  | .name _ => 3

/-- The bytes by which components of one kind are compared. -/
def bytes : Component → List UInt8
  | .name text => utf8Bytes text
  | _ => []

/-- Whether a component comes before another one. -/
def Precedes (first second : Component) : Prop :=
  first.rank < second.rank ∨ first.rank = second.rank ∧ first.bytes < second.bytes

theorem precedes_irrefl (component : Component) : ¬ component.Precedes component := by
  rintro (hrank | ⟨-, hbytes⟩)
  · exact Nat.lt_irrefl _ hrank
  · exact List.lt_irrefl _ hbytes

theorem precedes_name {first second : String} (h : first < second) :
    (name first).Precedes (name second) :=
  .inr ⟨rfl, utf8Bytes_lt_iff.mpr h⟩

end Component

/-- The component of a name or of a step. -/
def component (segment : String) : Component :=
  if segment = ".." then .above else .name segment

/-- The components of a path: the top or a step `.` that it begins with, and then its names and
steps `..`, without the steps `.` between them. -/
def components (path : String) : List Component :=
  (if isAbsolute path then [.top]
    else if path.toList.takeWhile (· ≠ '/') = ['.'] then [.here]
    else [])
    ++ ((plainNames path).filter (· ≠ ".")).map component

/-- Whether a path comes before another one. -/
def Precedes (first second : String) : Prop :=
  List.Lex Component.Precedes (components first) (components second)

theorem precedes_irrefl (path : String) : ¬ Precedes path path :=
  List.lex_irrefl Component.precedes_irrefl _

/-- Paths in strict order are different ones. -/
theorem nodup_of_pairwise_precedes {paths : List String} (h : paths.Pairwise Precedes) :
    paths.Nodup := by
  apply h.imp
  rintro first second hprecedes rfl
  exact precedes_irrefl first hprecedes

/-! ## §2 Paths below a base -/

/-- A path below a base begins like the base. -/
theorem takeWhile_join {base path : String} (hbase : base ≠ "") (h : isAbsolute path = false) :
    (join base path).toList.takeWhile (· ≠ '/') = base.toList.takeWhile (· ≠ '/') := by
  have hjoin := joins_separator hbase
  obtain ⟨name, tail, hcut, hname, htail⟩ := exists_cut base.toList
  rw [join_eq h, String.toList_append, String.toList_append, List.append_assoc, hcut,
    List.append_assoc, (cut_append hname htail).1]
  refine (cut_append hname ?_).1
  right
  rcases htail with rfl | ⟨more, rfl⟩
  · -- the base is a single name, so a slash follows it
    rw [hcut, List.append_nil] at hjoin
    rcases hjoin with hsep | ⟨-, hnil | hlast⟩
    · exact ⟨path.toList, by rw [hsep]; rfl⟩
    · rw [hnil] at hcut
      exact absurd hcut (toList_ne_nil hbase)
    · exact absurd (List.mem_of_getLast? hlast) hname
  · exact ⟨_, rfl⟩

/-- A path below a base has the components of the base, and then its names. -/
theorem components_join {base : String} {names : List String} (hbase : base ≠ "")
    (h : ∀ name ∈ names, IsName name) :
    components (join base ("/".intercalate names)) =
      components base ++ names.map Component.name := by
  have hsegments := forall_isSegment h
  have hrelative := isAbsolute_intercalate hsegments
  have hnames : (names.filter (· ≠ ".")).map component = names.map Component.name := by
    have hall : names.filter (· ≠ ".") = names := by
      apply List.filter_eq_self.mpr
      intro name hname
      simpa using (h name hname).2.1
    rw [hall]
    apply List.map_congr_left
    intro name hname
    rw [component, if_neg (h name hname).2.2.1]
  rw [components, components, isAbsolute_join hrelative hbase, takeWhile_join hbase hrelative,
    plainNames_join hrelative, plainNames_intercalate hsegments, List.filter_append,
    List.map_append, hnames, List.append_assoc]

theorem lex_map_name {first second : List String} (h : first < second) :
    List.Lex Component.Precedes (first.map .name) (second.map .name) := by
  induction h with
  | nil => exact .nil
  | cons _ ih => exact .cons ih
  | rel hlt => exact .rel (Component.precedes_name hlt)

/-- Paths below a base are in the order of their names. -/
theorem precedes_join {base : String} {first second : List String} (hbase : base ≠ "")
    (hfirst : ∀ name ∈ first, IsName name) (hsecond : ∀ name ∈ second, IsName name)
    (h : first < second) :
    Precedes (join base ("/".intercalate first)) (join base ("/".intercalate second)) := by
  rw [Precedes, components_join hbase hfirst, components_join hbase hsecond]
  exact List.Lex.append_left _ (lex_map_name h) _

end UpdateFeed.Path
