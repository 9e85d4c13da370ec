import UpdateFeed.Path
import Mathlib.Tactic.SplitIfs

/-!
# Paths and names

A list of names and the path that is written from it are two forms of the same thing: the names of
the path are those of the list, the path below a base has the names of the base in front, and it is
relative to that base.

- `plainNames_intercalate`, `plainNames_join`: the names of a written path.
- `foldl_join`: joining name by name is joining the written path.
- `relativeTo?_join`: what was joined to a base is the path below it.
-/

namespace UpdateFeed.Path

/-- Whether a text is one name, and one that a lookup takes for itself. -/
def IsName (name : String) : Prop :=
  name ≠ "" ∧ name ≠ "." ∧ name ≠ ".." ∧ '/' ∉ name.toList

/-- Whether a text is one stretch between slashes that is not empty: a name or a step. -/
def IsSegment (name : String) : Prop :=
  name ≠ "" ∧ '/' ∉ name.toList

theorem IsName.isSegment {name : String} (h : IsName name) : IsSegment name :=
  ⟨h.1, h.2.2.2⟩

theorem forall_isSegment {names : List String} (h : ∀ name ∈ names, IsName name) :
    ∀ name ∈ names, IsSegment name :=
  fun name hname => (h name hname).isSegment

/-! ## §1 Segments -/

theorem slash_notMem_of_mem_splitOn {chars piece : List Char} (h : piece ∈ chars.splitOn '/') :
    '/' ∉ piece := by
  induction chars generalizing piece with
  | nil =>
    obtain rfl : piece = [] := by simpa using h
    simp
  | cons c rest ih =>
    rw [List.splitOn_cons_eq_if_modifyHead] at h
    obtain ⟨first, others, hsplit⟩ := List.exists_cons_of_ne_nil (List.splitOn_ne_nil '/' rest)
    rw [hsplit] at h ih
    by_cases hc : c = '/'
    · -- a slash closes an empty piece
      subst hc
      simp only [beq_self_eq_true, if_true] at h
      rcases List.mem_cons.mp h with rfl | hmem
      · simp
      · exact ih hmem
    · simp only [hc, beq_iff_eq, if_false, List.modifyHead_cons, List.mem_cons] at h
      rcases h with rfl | hmem
      · have hfirst := ih (List.mem_cons_self ..)
        simp [hfirst, Ne.symm hc]
      · exact ih (List.mem_cons_of_mem _ hmem)

theorem subset_of_mem_splitOn {chars piece : List Char} (h : piece ∈ chars.splitOn '/') :
    piece ⊆ chars := by
  induction chars generalizing piece with
  | nil =>
    obtain rfl := List.mem_singleton.mp h
    exact List.Subset.refl []
  | cons c rest ih =>
    obtain ⟨first, others, hsplit⟩ := List.exists_cons_of_ne_nil (List.splitOn_ne_nil '/' rest)
    rw [List.splitOn_cons_eq_if_modifyHead, hsplit] at h
    rw [hsplit] at ih
    split_ifs at h with hslash
    · -- a slash closes an empty piece
      rcases List.mem_cons.mp h with rfl | hmem
      · exact List.nil_subset _
      · exact List.subset_cons_of_subset c (ih hmem)
    · -- any other character makes the first piece longer
      rcases List.mem_cons.mp h with rfl | hmem
      · exact List.cons_subset_cons c (ih List.mem_cons_self)
      · exact List.subset_cons_of_subset c (ih (List.mem_cons_of_mem _ hmem))

theorem segments_append_slash (first second : String) :
    segments (first ++ "/" ++ second) = segments first ++ segments second := by
  simp [segments, List.splitOn_append_cons_self]

theorem plainNames_append_slash (first second : String) :
    plainNames (first ++ "/" ++ second) = plainNames first ++ plainNames second := by
  simp [plainNames, segments_append_slash]

@[simp] theorem plainNames_empty : plainNames "" = [] := by
  simp [plainNames, segments]

theorem segments_intercalate {names : List String} (h : ∀ name ∈ names, '/' ∉ name.toList)
    (hne : names ≠ []) : segments ("/".intercalate names) = names := by
  have hslash : ∀ name ∈ names.map String.toList, '/' ∉ name := by simpa using h
  have hsplit := List.splitOn_intercalate '/' hslash (by simpa using hne)
  simp [segments, hsplit]

theorem plainNames_intercalate {names : List String} (h : ∀ name ∈ names, IsSegment name) :
    plainNames ("/".intercalate names) = names := by
  cases names with
  | nil => simp
  | cons name names =>
    rw [plainNames, segments_intercalate (fun name hname => (h name hname).2) (by simp)]
    exact List.filter_eq_self.mpr fun name hname => by simpa using (h name hname).1

/-! ## §2 Written paths -/

theorem toList_ne_nil {text : String} (h : text ≠ "") : text.toList ≠ [] := by
  simpa using h

/-- A written path begins with its first name. -/
theorem exists_intercalate (name : String) (names : List String) :
    ∃ more, "/".intercalate (name :: names) = name ++ more := by
  cases names with
  | nil => exact ⟨"", by simp⟩
  | cons second names =>
    refine ⟨"/" ++ "/".intercalate (second :: names), ?_⟩
    rw [String.intercalate_cons_cons, String.append_assoc]

theorem intercalate_ne_empty {names : List String} (h : ∀ name ∈ names, IsSegment name)
    (hne : names ≠ []) : "/".intercalate names ≠ "" := by
  obtain ⟨name, names, rfl⟩ := List.exists_cons_of_ne_nil hne
  obtain ⟨more, hmore⟩ := exists_intercalate name names
  have hname := (h name (by simp)).1
  rw [hmore]
  simp [hname]

/-- A path that begins with a name is relative. -/
theorem isAbsolute_append {name : String} (h : IsSegment name) (more : String) :
    isAbsolute (name ++ more) = false := by
  obtain ⟨hempty, hslash⟩ := h
  obtain ⟨c, rest, heq⟩ := List.exists_cons_of_ne_nil (toList_ne_nil hempty)
  have hc : ¬ c = '/' := by
    rintro rfl
    exact hslash (by simp [heq])
  simp [isAbsolute, heq, hc]

theorem isAbsolute_intercalate {names : List String} (h : ∀ name ∈ names, IsSegment name) :
    isAbsolute ("/".intercalate names) = false := by
  cases names with
  | nil => rfl
  | cons name names =>
    obtain ⟨more, hmore⟩ := exists_intercalate name names
    rw [hmore]
    exact isAbsolute_append (h name (by simp)) more

/-- A text behind another one decides what the whole ends in. -/
theorem getLast?_append {first second : String} (h : second ≠ "") :
    (first ++ second).toList.getLast? = second.toList.getLast? := by
  obtain ⟨c, hlast⟩ := Option.ne_none_iff_exists'.mp
    (mt List.getLast?_eq_none_iff.mp (toList_ne_nil h))
  rw [String.toList_append, List.getLast?_append, hlast]
  rfl

/-- A written path does not end in a slash. -/
theorem getLast?_intercalate {names : List String} (h : ∀ name ∈ names, IsSegment name) :
    ("/".intercalate names).toList.getLast? ≠ some '/' := by
  induction names with
  | nil => simp
  | cons name names ih =>
    obtain ⟨hname, hnames⟩ := List.forall_mem_cons.mp h
    by_cases hne : names = []
    · subst hne
      intro hlast
      rw [String.intercalate_singleton] at hlast
      exact hname.2 (List.mem_of_getLast? hlast)
    · -- what stands behind the first slash decides
      have hlast := ih hnames
      rw [String.intercalate_cons_of_ne_nil hne]
      rwa [getLast?_append (intercalate_ne_empty hnames hne)]

theorem names_eq_plainNames {path : String} (h : path.toList.getLast? ≠ some '/') :
    names path = plainNames path := by
  rw [names, if_neg h]

/-! ## §3 Joining -/

/-- What stands between a base and a path below it. -/
def separator (base : String) : String :=
  if base = "" ∨ base.toList.getLast? = some '/' then "" else "/"

theorem join_eq {base path : String} (h : isAbsolute path = false) :
    join base path = base ++ separator base ++ path := by
  unfold join separator
  by_cases hempty : base = ""
  · simp [h, hempty]
  · by_cases hlast : base.toList.getLast? = some '/' <;> simp [h, hempty, hlast]

@[simp] theorem empty_join (path : String) : join "" path = path := by
  simp [join]

theorem separator_append {base name : String} (hname : IsSegment name) :
    separator (base ++ name) = "/" := by
  have hlast : (base ++ name).toList.getLast? ≠ some '/' := by
    rw [getLast?_append hname.1]
    exact fun hlast => hname.2 (List.mem_of_getLast? hlast)
  have hfull : base ++ name ≠ "" := by
    simp [hname.1]
  rw [separator, if_neg]
  rintro (heq | heq)
  · exact hfull heq
  · exact hlast heq

theorem plainNames_join {base path : String} (h : isAbsolute path = false) :
    plainNames (join base path) = plainNames base ++ plainNames path := by
  rw [join_eq h, separator]
  split
  · rename_i hbase
    rcases hbase with rfl | hlast
    · simp
    · -- the slash that the base ends in is the one between the two
      obtain ⟨front, hfront⟩ := List.getLast?_eq_some_iff.mp hlast
      have hbase : base = String.ofList front ++ "/" ++ "" := by
        rw [← String.toList_inj]
        simp [hfront]
      have hfirst : plainNames base = plainNames (String.ofList front) := by
        rw [hbase, plainNames_append_slash]
        simp
      rw [hfirst, ← plainNames_append_slash]
      congr 1
      rw [hbase]
      simp
  · exact plainNames_append_slash base path

theorem isAbsolute_join {base path : String} (h : isAbsolute path = false) (hbase : base ≠ "") :
    isAbsolute (join base path) = isAbsolute base := by
  obtain ⟨c, rest, heq⟩ := List.exists_cons_of_ne_nil (toList_ne_nil hbase)
  rw [join_eq h]
  simp [isAbsolute, heq]

/-- Nothing joined to a path leaves it with a slash at its end. -/
theorem getLast?_join_empty {base : String} (hbase : base ≠ "") :
    (join base "").toList.getLast? = some '/' := by
  rw [join_eq rfl, String.append_empty, separator]
  split
  · rename_i hlast
    rw [String.append_empty]
    exact hlast.resolve_left hbase
  · rw [getLast?_append (by decide)]
    rfl

theorem join_join_empty {base path : String} (h : isAbsolute path = false) :
    join (join base "") path = join base path := by
  by_cases hbase : base = ""
  · rw [hbase, empty_join]
  have hlast := getLast?_join_empty hbase
  have hempty : join base "" = base ++ separator base := by
    rw [join_eq rfl, String.append_empty]
  rw [join_eq h, separator, if_pos (.inr hlast), String.append_empty, hempty, ← join_eq h]

/-- Joining twice is joining once with a slash between. -/
theorem join_join {base name path : String} (hname : IsSegment name)
    (h : isAbsolute path = false) :
    join (join base name) path = join base (name ++ "/" ++ path) := by
  have hrelative : isAbsolute name = false := by
    have happend := isAbsolute_append hname ""
    simpa using happend
  have hwhole : isAbsolute (name ++ "/" ++ path) = false := by
    rw [String.append_assoc]
    exact isAbsolute_append hname _
  rw [join_eq h, join_eq hrelative, join_eq hwhole, separator_append hname]
  simp [String.append_assoc]

/-- Joining name by name is joining the written path. -/
theorem foldl_join {names : List String} (h : ∀ name ∈ names, IsSegment name) (hne : names ≠ [])
    (base : String) : names.foldl join base = join base ("/".intercalate names) := by
  induction names generalizing base with
  | nil => exact absurd rfl hne
  | cons name names ih =>
    obtain ⟨hname, hnames⟩ := List.forall_mem_cons.mp h
    by_cases hrest : names = []
    · subst hrest
      simp
    · rw [List.foldl_cons, ih hnames hrest, join_join hname (isAbsolute_intercalate hnames),
        String.intercalate_cons_of_ne_nil hrest]

/-! ## §4 Relative paths -/

/-- Whether characters can stand between the end of a base and a path below it: a slash, or nothing
behind another slash. -/
def Joins (base sep : List Char) : Prop :=
  sep = ['/'] ∨ sep = [] ∧ (base = [] ∨ base.getLast? = some '/')

theorem Joins.of_append (front : List Char) {base sep : List Char} (h : Joins (front ++ base) sep) :
    Joins base sep := by
  rcases h with h | ⟨hsep, h⟩
  · exact .inl h
  · refine .inr ⟨hsep, ?_⟩
    cases base with
    | nil => exact .inl rfl
    | cons c rest =>
      rcases h with h | h
      · simp at h
      · rw [List.getLast?_append, Option.or_eq_some_iff] at h
        simpa [List.getLast?_cons] using h

section

variable {sep rel : List Char}

theorem trimStart_append {base : List Char} (h : trimStart base ≠ []) (more : List Char) :
    trimStart (base ++ more) = trimStart base ++ more := by
  fun_induction trimStart base with
  | case1 rest ih =>
    rw [List.cons_append, trimStart]
    exact ih h
  | case2 rest ih =>
    rw [List.cons_append, List.cons_append, trimStart]
    exact ih h
  | case3 => exact absurd rfl h
  | case4 rest hslash hdotSlash hdot =>
    -- the base begins with a name, and still does with more behind it
    obtain ⟨c, others, rfl⟩ := List.exists_cons_of_ne_nil h
    rw [List.cons_append, trimStart]
    · rintro tail heq
      obtain ⟨rfl, -⟩ := List.cons.inj heq
      exact hslash _ rfl
    · intro tail heq
      obtain ⟨rfl, hrest⟩ := List.cons.inj heq
      cases others with
      | nil => exact hdot rfl
      | cons d others =>
        obtain ⟨rfl, -⟩ := List.cons.inj hrest
        exact hdotSlash _ rfl
    · intro heq
      obtain ⟨rfl, hrest⟩ := List.cons.inj heq
      cases others with
      | nil => exact hdot rfl
      | cons d others => simp at hrest

/-- Behind a base without names, trimming leaves the path below it. -/
theorem trimStart_join {base : List Char} (hjoin : Joins base sep) (hrel : trimStart rel = rel)
    (h : trimStart base = []) : trimStart (base ++ sep ++ rel) = rel := by
  fun_induction trimStart base with
  | case1 rest ih =>
    rw [List.cons_append, List.cons_append, trimStart]
    exact ih (Joins.of_append ['/'] hjoin) h
  | case2 rest ih =>
    rw [List.cons_append, List.cons_append, List.cons_append, List.cons_append, trimStart]
    exact ih (Joins.of_append ['.', '/'] hjoin) h
  | case3 =>
    -- behind a step without a slash, there is one between the two
    obtain rfl : sep = ['/'] := by
      rcases hjoin with h | ⟨-, h | h⟩
      · exact h
      · simp at h
      · simp at h
    simpa [trimStart] using hrel
  | case4 rest hslash hdotSlash hdot =>
    subst h
    rcases hjoin with rfl | ⟨rfl, -⟩
    · simpa [trimStart] using hrel
    · simpa using hrel

/-- Characters up to a slash or the end, and what follows them. -/
theorem cut_append {name tail : List Char} (hname : '/' ∉ name)
    (htail : tail = [] ∨ ∃ more, tail = '/' :: more) :
    (name ++ tail).takeWhile (· ≠ '/') = name ∧ (name ++ tail).dropWhile (· ≠ '/') = tail := by
  have hpos : ∀ c ∈ name, decide (c ≠ '/') = true := by
    intro c hc
    have hne : c ≠ '/' := fun heq => hname (heq ▸ hc)
    simpa using hne
  rw [List.takeWhile_append_of_pos hpos, List.dropWhile_append_of_pos hpos]
  rcases htail with rfl | ⟨more, rfl⟩ <;> simp

theorem exists_cut (path : List Char) :
    ∃ name tail, path = name ++ tail ∧ '/' ∉ name ∧ (tail = [] ∨ ∃ more, tail = '/' :: more) := by
  induction path with
  | nil => exact ⟨[], [], rfl, by simp, .inl rfl⟩
  | cons c rest ih =>
    by_cases hc : c = '/'
    · subst hc
      exact ⟨[], '/' :: rest, rfl, by simp, .inr ⟨rest, rfl⟩⟩
    · obtain ⟨name, tail, rfl, hname, htail⟩ := ih
      refine ⟨c :: name, tail, rfl, ?_, htail⟩
      intro hmem
      rcases List.mem_cons.mp hmem with heq | hmem
      · exact hc heq.symm
      · exact hname hmem

/-- The first name of a base is that of what was joined to it, and the rests are joined too. -/
theorem first?_join (rel : List Char) {base : List Char} (hjoin : Joins base sep)
    (h : trimStart base ≠ []) :
    ∃ name rest, first? false base = some (name, rest)
      ∧ first? false (base ++ (sep ++ rel)) = some (name, rest ++ (sep ++ rel))
      ∧ Joins rest sep ∧ rest.length < base.length := by
  obtain ⟨front, hfront⟩ := exists_trimStart base
  have hbase := first?_of_trimStart rfl h
  have hpath := first?_of_trimStart (trimStart_append h (sep ++ rel)) (by simp [h])
  -- the base from its first name on: that name, and a slash or nothing behind it
  obtain ⟨name, tail, hcut, hname, htail⟩ := exists_cut (trimStart base)
  have hrest : Joins tail sep := by
    rw [hfront, hcut, ← List.append_assoc] at hjoin
    exact Joins.of_append _ hjoin
  have hfull : name ≠ [] := by
    rintro rfl
    rcases htail with rfl | ⟨more, rfl⟩
    · exact h hcut
    · exact ne_slash_of_trimStart hcut rfl
  have hlonger : tail ++ (sep ++ rel) = [] ∨ ∃ more, tail ++ (sep ++ rel) = '/' :: more := by
    right
    rcases htail with rfl | ⟨more, rfl⟩
    · -- the base ends in the name, so a slash must follow it
      rw [hfront, hcut, List.append_nil] at hjoin
      rcases Joins.of_append _ hjoin with rfl | ⟨-, hnil | hlast⟩
      · exact ⟨rel, rfl⟩
      · exact absurd hnil hfull
      · exact absurd (List.mem_of_getLast? hlast) hname
    · exact ⟨more ++ (sep ++ rel), rfl⟩
  rw [hcut, (cut_append hname htail).1, (cut_append hname htail).2] at hbase
  rw [hcut, List.append_assoc, (cut_append hname hlonger).1, (cut_append hname hlonger).2] at hpath
  refine ⟨_, _, hbase, hpath, hrest, ?_⟩
  have hpos : 0 < name.length := List.length_pos_iff.mpr hfull
  rw [hfront, hcut]
  simp only [List.length_append]
  omega

/-- Walking beside a base leaves what was joined to it. -/
theorem walkBeside_join {bound : Nat} {base : List Char} (hbound : base.length < bound)
    (hjoin : Joins base sep) (hrel : trimStart rel = rel) :
    walkBeside bound false base (base ++ (sep ++ rel)) = some rel := by
  induction bound generalizing base with
  | zero => exact absurd hbound (by omega)
  | succ bound ih =>
    by_cases h : trimStart base = []
    · -- the base has no name left, so what is left of the path is what was joined
      have hend := trimStart_join hjoin hrel h
      rw [List.append_assoc] at hend
      rw [walkBeside, first?_of_trimStart_nil h]
      simpa using hend
    · -- both have the same first name, and the rests are joined as the whole was
      obtain ⟨name, rest, hbase, hpath, hrest, hshorter⟩ := first?_join rel hjoin h
      have hless : rest.length < bound := by omega
      have hnext := ih hless hrest
      rw [walkBeside, hbase, hpath]
      simpa using hnext

/-- Whether characters begin with a name, rather than with a slash or a step `.`. -/
def StartsName (path : List Char) : Prop :=
  ∃ c rest, path = c :: rest ∧ c ≠ '/' ∧ (c = '.' → ∃ d others, rest = d :: others ∧ d ≠ '/')

theorem StartsName.append {path : List Char} (h : StartsName path) (more : List Char) :
    StartsName (path ++ more) := by
  obtain ⟨c, rest, rfl, hslash, hdot⟩ := h
  refine ⟨c, rest ++ more, rfl, hslash, fun heq => ?_⟩
  obtain ⟨d, others, rfl, hd⟩ := hdot heq
  exact ⟨d, others ++ more, rfl, hd⟩

theorem StartsName.trimStart {path : List Char} (h : StartsName path) :
    trimStart path = path := by
  obtain ⟨c, rest, rfl, hslash, hdot⟩ := h
  rw [Path.trimStart]
  · rintro tail heq
    exact hslash (List.cons.inj heq).1
  · intro tail heq
    obtain ⟨rfl, hrest⟩ := List.cons.inj heq
    obtain ⟨d, others, rfl, hd⟩ := hdot rfl
    exact hd (List.cons.inj hrest).1
  · intro heq
    obtain ⟨rfl, hrest⟩ := List.cons.inj heq
    obtain ⟨d, others, rfl, hd⟩ := hdot rfl
    simp at hrest

/-- A name is met the same way at the start of a path and behind it. -/
theorem StartsName.first? {path : List Char} (h : StartsName path) :
    first? true path = first? false path := by
  have htrim := h.trimStart
  obtain ⟨c, rest, rfl, hslash, hdot⟩ := h
  rw [first?_of_trimStart htrim (by simp), Path.first?, htrim]
  · intro tail _ heq
    exact hslash (List.cons.inj heq).1
  · intro _ heq
    obtain ⟨rfl, hrest⟩ := List.cons.inj heq
    obtain ⟨d, others, rfl, hd⟩ := hdot rfl
    simp at hrest
  · intro tail _ heq
    obtain ⟨rfl, hrest⟩ := List.cons.inj heq
    obtain ⟨d, others, rfl, hd⟩ := hdot rfl
    exact hd (List.cons.inj hrest).1

/-- The start of a path that is not empty: a slash, a step, or a name. -/
theorem start_cases {path : List Char} (h : path ≠ []) :
    (∃ rest, path = '/' :: rest) ∨ path = ['.'] ∨ (∃ rest, path = '.' :: '/' :: rest)
      ∨ StartsName path := by
  obtain ⟨c, rest, rfl⟩ := List.exists_cons_of_ne_nil h
  by_cases hslash : c = '/'
  · subst hslash
    exact .inl ⟨rest, rfl⟩
  · by_cases hdot : c = '.'
    · subst hdot
      cases rest with
      | nil => exact .inr (.inl rfl)
      | cons d others =>
        by_cases hd : d = '/'
        · subst hd
          exact .inr (.inr (.inl ⟨others, rfl⟩))
        · exact .inr (.inr (.inr ⟨_, _, rfl, hslash, fun _ => ⟨d, others, rfl, hd⟩⟩))
    · exact .inr (.inr (.inr ⟨c, rest, rfl, hslash, fun heq => absurd heq hdot⟩))

/-- Walking beside a whole base leaves what was joined to it. -/
theorem walkBeside_start_join {bound : Nat} {base : List Char} (hbound : base.length < bound)
    (hbase : base ≠ []) (hjoin : Joins base sep) (hrel : trimStart rel = rel) :
    walkBeside bound true base (base ++ (sep ++ rel)) = some rel := by
  obtain ⟨bound, rfl⟩ : ∃ smaller, bound = smaller + 1 := ⟨bound - 1, by omega⟩
  -- only the first step is special: a slash and a step `.` count there, and are passed over later
  rcases start_cases hbase with ⟨rest, rfl⟩ | rfl | ⟨rest, rfl⟩ | hname
  · have hshorter : rest.length < bound := by
      simp at hbound
      omega
    have hnext := walkBeside_join hshorter (Joins.of_append ['/'] hjoin) hrel
    rw [walkBeside]
    simpa [first?] using hnext
  · have hsep : sep = ['/'] := by
      rcases hjoin with hsep | ⟨-, h | h⟩
      · exact hsep
      · simp at h
      · simp at h
    subst hsep
    have hshorter : ([] : List Char).length < bound := by
      simp at hbound
      simpa using hbound
    have hnext := walkBeside_join hshorter (.inr ⟨rfl, .inl rfl⟩) hrel
    rw [walkBeside]
    simpa [first?] using hnext
  · have hshorter : rest.length < bound := by
      simp at hbound
      omega
    have hnext := walkBeside_join hshorter (Joins.of_append ['.', '/'] hjoin) hrel
    rw [walkBeside]
    simpa [first?] using hnext
  · obtain ⟨name, rest, hfirst, hpath, hrest, hshorter⟩ :=
      first?_join rel hjoin (by rw [hname.trimStart]; exact hbase)
    have hless : rest.length < bound := by omega
    have hnext := walkBeside_join hless hrest hrel
    rw [walkBeside, hname.first?, (hname.append _).first?, hfirst, hpath]
    simpa using hnext

end

theorem joins_separator {base : String} (h : base ≠ "") :
    Joins base.toList (separator base).toList := by
  unfold separator
  split_ifs with hbase
  · exact .inr ⟨rfl, .inr (hbase.resolve_left h)⟩
  · exact .inl rfl

theorem startsName_toList {name more : String} (h : IsSegment name) (hdot : name ≠ ".") :
    StartsName (name ++ more).toList := by
  obtain ⟨hempty, hslash⟩ := h
  obtain ⟨c, rest, heq⟩ := List.exists_cons_of_ne_nil (toList_ne_nil hempty)
  -- the name starts with no slash, and if it starts with a dot, something that is no slash follows
  have hfront : StartsName name.toList := by
    refine ⟨c, rest, heq, ?_, ?_⟩
    · rintro rfl
      exact hslash (by simp [heq])
    · rintro rfl
      cases rest with
      | nil => exact absurd (String.toList_inj.mp heq) hdot
      | cons d others =>
        refine ⟨d, others, rfl, ?_⟩
        rintro rfl
        exact hslash (by simp [heq])
  rw [String.toList_append]
  exact hfront.append _

/-- Below the empty base stands every path. -/
theorem relativeTo?_empty (path : String) : relativeTo? "" path = some path := by
  simp [relativeTo?, walkBeside, first?, trimStart]

/-- A written path is what remains of a joined path without its base, unless it begins with a step
`.`, which would be passed over. -/
theorem relativeTo?_join {base : String} {names : List String} (h : ∀ name ∈ names, IsSegment name)
    (hne : names ≠ []) (hdot : names.head? ≠ some ".") :
    relativeTo? base (join base ("/".intercalate names)) = some ("/".intercalate names) := by
  by_cases hbase : base = ""
  · subst hbase
    rw [empty_join, relativeTo?_empty]
  obtain ⟨name, rest, rfl⟩ := List.exists_cons_of_ne_nil hne
  obtain ⟨more, hmore⟩ := exists_intercalate name rest
  have hstart : StartsName ("/".intercalate (name :: rest)).toList := by
    rw [hmore]
    exact startsName_toList (h name (by simp)) (by simpa using hdot)
  have hbound : base.toList.length < base.length + 1 := by
    rw [String.length_toList]
    omega
  -- the names of the base are walked in step, and what is left starts with a name
  have hwalk := walkBeside_start_join hbound (toList_ne_nil hbase) (joins_separator hbase)
    hstart.trimStart
  rw [relativeTo?, join_eq (isAbsolute_intercalate h)]
  simp only [String.toList_append, List.append_assoc, hwalk, Option.map_some, String.ofList_toList]

end UpdateFeed.Path
