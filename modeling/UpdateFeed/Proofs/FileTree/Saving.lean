import UpdateFeed.FileTree.Replace
import UpdateFeed.Proofs.FileTree.Below

/-!
# Saving over a file that can be read

A file is replaced by way of a new one in its directory.  The directory is found by cutting the last
name off the path, together with slashes and steps `.` in front of it; that goes back to where the
lookup of the path itself found the last name.  So a path that leads to a file can be saved to.

- `plainNames_trimmed`: cutting from the end of a path loses steps `.` only.
- `exists_replaceText`: a path that leads to a file can be replaced.
- `locate_of_destination`: where that is done, if no link is replaced.
-/

namespace UpdateFeed

namespace Path

/-! ## §1 The directory of a path -/

theorem plainNames_name {name : List Char} (hempty : name ≠ []) (hslash : '/' ∉ name) :
    plainNames (String.ofList name) = [String.ofList name] := by
  have hpieces : ∀ piece ∈ [name], '/' ∉ piece := by simpa using hslash
  have hsplit : name.splitOn '/' = [name] := by
    simpa using List.splitOn_intercalate '/' hpieces (by simp)
  simp [plainNames, segments, hsplit, hempty]

theorem plainNames_ofList_append (first second : List Char) :
    plainNames (String.ofList (first ++ '/' :: second)) =
      plainNames (String.ofList first) ++ plainNames (String.ofList second) := by
  simp [plainNames, segments, List.splitOn_append_cons_self]

/-- Trimming the end of a path, which is read backwards, loses slashes and steps `.` only. -/
theorem plainNames_trimmed (back : List Char) :
    ∃ dots, plainNames (String.ofList back.reverse) =
      plainNames (String.ofList (trimStart back).reverse) ++ List.replicate dots "." := by
  fun_induction trimStart back with
  | case1 rest ih =>
    obtain ⟨dots, ih⟩ := ih
    exact ⟨dots, by rw [List.reverse_cons, plainNames_ofList_append, ih]; simp⟩
  | case2 rest ih =>
    obtain ⟨dots, ih⟩ := ih
    refine ⟨dots + 1, ?_⟩
    have hdot : plainNames (String.ofList ['.']) = ["."] := by decide
    rw [List.reverse_cons, List.reverse_cons, List.append_assoc, List.singleton_append,
      plainNames_ofList_append, hdot, ih, List.append_assoc, List.replicate_succ']
  | case3 => exact ⟨1, by decide⟩
  | case4 => exact ⟨0, by simp⟩

/-- The last name of a path that does not end in a slash, and what stands before it. -/
theorem exists_last {path : String} (hslash : path.toList.getLast? ≠ some '/')
    (hempty : path ≠ "") :
    ∃ before last, path.toList = before ++ last.toList ∧ '/' ∉ last.toList ∧ last ≠ ""
      ∧ (before = [] ∨ before.getLast? = some '/')
      ∧ plainNames path = plainNames (String.ofList before) ++ [last] := by
  obtain ⟨name, tail, hcut, hname, htail⟩ := exists_cut path.toList.reverse
  have hpath : path.toList = tail.reverse ++ name.reverse := by
    rw [← List.reverse_append, ← hcut, List.reverse_reverse]
  -- the path does not end in a slash, so what is behind its last slash is a name
  have hne : name ≠ [] := by
    rintro rfl
    rcases htail with rfl | ⟨more, rfl⟩
    · exact hempty (by simpa using hpath)
    · exact hslash (by simp [hpath])
  have hplain : plainNames (String.ofList name.reverse) = [String.ofList name.reverse] :=
    plainNames_name (by simpa using hne) (by simpa using hname)
  refine ⟨tail.reverse, String.ofList name.reverse, by simpa using hpath, by simpa using hname,
    by simpa using hne, ?_, ?_⟩
  · rcases htail with rfl | ⟨more, rfl⟩
    · exact .inl rfl
    · exact .inr (by simp)
  · rw [← String.ofList_toList (s := path), hpath]
    rcases htail with rfl | ⟨more, rfl⟩
    · simpa using hplain
    · rw [List.reverse_cons, List.append_assoc, List.singleton_append,
        plainNames_ofList_append, plainNames_ofList_append, hplain]
      simp

/-- A path of which trimming leaves nothing starts at the top or with a step `.`. -/
theorem start_of_trimmed_nil {back : List Char} (h : trimStart back = []) :
    back = [] ∨ back = ['.'] ∨ (∃ rest, back.reverse = '/' :: rest)
      ∨ ∃ rest, back.reverse = '.' :: '/' :: rest := by
  fun_induction trimStart back with
  | case1 rest ih =>
    rcases ih h with rfl | rfl | ⟨more, hmore⟩ | ⟨more, hmore⟩
    · simp
    · simp
    · simp [hmore]
    · simp [hmore]
  | case2 rest ih =>
    rcases ih h with rfl | rfl | ⟨more, hmore⟩ | ⟨more, hmore⟩
    · simp
    · simp
    · simp [hmore]
    · simp [hmore]
  | case3 => simp
  | case4 => exact .inl h

/-- Read backwards, a path begins with its last name. -/
theorem startsName_reverse {last : List Char} (hempty : last ≠ []) (hslash : '/' ∉ last)
    (hdot : last ≠ ['.']) : StartsName last.reverse := by
  have hback : '/' ∉ last.reverse := by simpa using hslash
  rcases start_cases (List.reverse_ne_nil_iff.mpr hempty) with
    ⟨rest, hrest⟩ | hrest | ⟨rest, hrest⟩ | hname
  · exact absurd (by simp [hrest]) hback
  · exact absurd (by simpa using congrArg List.reverse hrest) hdot
  · exact absurd (by simp [hrest]) hback
  · exact hname

/-- The path of the directory of a last name: what is before the name, trimmed. -/
theorem parent?_eq {path last : String} {before : List Char}
    (hpath : path.toList = before ++ last.toList) (hempty : last ≠ "")
    (hslash : '/' ∉ last.toList) (hdot : last ≠ ".")
    (hbefore : before = [] ∨ before.getLast? = some '/') :
    parent? path = some (String.ofList (trimEnd before)) := by
  have hname : StartsName last.toList.reverse :=
    startsName_reverse (toList_ne_nil hempty) hslash fun heq => hdot (by
      rw [← String.ofList_toList (s := last), heq])
  have hlast : last.toList ≠ [] := toList_ne_nil hempty
  -- the name itself stays when the end of the path is trimmed
  have hback : trimStart path.toList.reverse = path.toList.reverse := by
    rw [hpath, List.reverse_append]
    exact (hname.append before.reverse).trimStart
  have htrim : trimEnd path.toList = path.toList := by
    have hne : path.toList.reverse ≠ [] := by simp [hpath, hempty]
    unfold trimEnd
    dsimp only
    rw [hback, if_neg hne, if_neg hne, List.reverse_reverse]
    split
    · rfl
    · rfl
    · exact Eq.symm ‹_›
    · rfl
  have hcut : (path.toList.reverse.dropWhile (· ≠ '/')).reverse = before := by
    have htail : before.reverse = [] ∨ ∃ more, before.reverse = '/' :: more := by
      rcases hbefore with rfl | hend
      · exact .inl rfl
      · obtain ⟨front, rfl⟩ := List.getLast?_eq_some_iff.mp hend
        exact .inr ⟨front.reverse, by simp⟩
    have hback : '/' ∉ last.toList.reverse := by simpa using hslash
    rw [hpath, List.reverse_append, (cut_append hback htail).2, List.reverse_reverse]
  unfold parent?
  rw [htrim]
  split
  · rename_i hnil
    exact absurd (hpath.symm.trans hnil) (by simp [hlast])
  · rename_i htop
    rcases List.append_eq_singleton_iff.mp (hpath.symm.trans htop) with ⟨_, h⟩ | ⟨_, h⟩
    · exact absurd (by simp [h]) hslash
    · exact absurd h hlast
  · rename_i hstep
    rcases List.append_eq_singleton_iff.mp (hpath.symm.trans hstep) with ⟨_, h⟩ | ⟨_, h⟩
    · exact absurd (String.toList_inj.mp h) hdot
    · exact absurd h hlast
  · dsimp only
    rw [hcut]

end Path

namespace FileSystem

open UpdateFeed.Path (plainNames isAbsolute)

theorem stagingDirectory_eq {path parent : String} (h : Path.parent? path = some parent) :
    stagingDirectory path = if parent = "" then "." else parent := by
  unfold stagingDirectory
  rw [h]
  split
  · rename_i hnone
    cases hnone
  · rename_i hsome
    rw [if_pos (Option.some.inj hsome)]
  · rename_i other hne hsome
    obtain rfl := Option.some.inj hsome
    rw [if_neg]
    rintro rfl
    exact hne rfl

/-- Where a new file is made when all names in front of the last one are steps `.`. -/
theorem stagingDirectory_of_steps {path : String} {before : List Char}
    (hparent : Path.parent? path = some (String.ofList (Path.trimEnd before)))
    (hbefore : before = [] ∨ before.getLast? = some '/')
    (hsteps : Path.trimStart before.reverse = []) :
    stagingDirectory path = if before.head? = some '/' then "/" else "." := by
  rw [stagingDirectory_eq hparent]
  -- only `.` and `/` are in front of the name, so the parent is nothing, `/` or `.`, as the first
  -- character says
  rcases Path.start_of_trimmed_nil hsteps with h | h | ⟨rest, h⟩ | ⟨rest, h⟩
  · obtain rfl : before = [] := by simpa using h
    decide
  · obtain rfl : before = ['.'] := by simpa using h
    simp at hbefore
  · rw [List.reverse_reverse] at h
    subst h
    have htrim : Path.trimEnd ('/' :: rest) = ['/'] := by
      unfold Path.trimEnd
      exact if_pos hsteps
    rw [htrim]
    rfl
  · rw [List.reverse_reverse] at h
    subst h
    have htrim : Path.trimEnd ('.' :: '/' :: rest) = ['.'] := by
      unfold Path.trimEnd
      exact if_pos hsteps
    rw [htrim]
    rfl

/-- Where a new file is made when a name is left in front of the last one. -/
theorem stagingDirectory_of_kept {path : String} {before : List Char}
    (hparent : Path.parent? path = some (String.ofList (Path.trimEnd before)))
    (hbefore : before = [] ∨ before.getLast? = some '/')
    (hkept : Path.trimStart before.reverse ≠ []) :
    stagingDirectory path = String.ofList (Path.trimStart before.reverse).reverse := by
  have htrim : Path.trimEnd before = (Path.trimStart before.reverse).reverse := by
    unfold Path.trimEnd
    dsimp only
    rw [if_neg hkept, if_neg hkept]
    split
    · rfl
    · rfl
    · simp at hbefore
    · rfl
  rw [stagingDirectory_eq hparent, htrim, if_neg]
  simpa using hkept

/-- The directory in which a new file is made has the names in front of the last one, but for steps
`.` at their end. -/
theorem stagingDirectory_spec {path last : String} {names : List String}
    (hfault : pathFault? path = none) (hslash : path.toList.getLast? ≠ some '/')
    (hnames : plainNames path = names ++ [last]) (hdot : last ≠ ".") :
    isAbsolute (stagingDirectory path) = isAbsolute path
      ∧ pathFault? (stagingDirectory path) = none
      ∧ ∃ dots, Path.names (stagingDirectory path) ++ List.replicate dots "." = names
        ∨ Path.names (stagingDirectory path) = ["."] ∧ names = List.replicate dots "." := by
  obtain ⟨before, other, hpath, hname, hempty, hbefore, hplain⟩ :=
    Path.exists_last hslash (pathFault?_eq_none_iff.mp hfault).2.1
  obtain ⟨hfront, hlast⟩ := List.append_inj' (hplain.symm.trans hnames) rfl
  obtain rfl : other = last := (List.cons.inj hlast).1
  have hparent := Path.parent?_eq hpath hempty hname hdot hbefore
  obtain ⟨dots, hdots⟩ := Path.plainNames_trimmed before.reverse
  rw [List.reverse_reverse, hfront] at hdots
  by_cases hkept : Path.trimStart before.reverse = []
  · -- all names are steps, so the directory is the top or the one that the lookup starts from
    have hsteps : names = List.replicate dots "." := by simpa [hkept] using hdots
    have habsolute : isAbsolute path = true ↔ before.head? = some '/' := by
      unfold isAbsolute
      rw [hpath, beq_iff_eq]
      cases before with
      | nil =>
        simp only [List.nil_append, List.head?_nil, reduceCtorEq, iff_false]
        exact fun hhead => hname (List.mem_of_mem_head? hhead)
      | cons c rest => rfl
    rw [stagingDirectory_of_steps hparent hbefore hkept]
    by_cases htop : before.head? = some '/'
    · rw [if_pos htop, habsolute.mpr htop]
      exact ⟨by decide, by decide, dots, .inr ⟨by decide, hsteps⟩⟩
    · rw [if_neg htop, Bool.eq_false_iff.mpr (mt habsolute.mp htop)]
      exact ⟨by decide, by decide, dots, .inr ⟨by decide, hsteps⟩⟩
  · -- the directory is the front of the path up to the last name that is left
    obtain ⟨front, hback⟩ := Path.exists_trimStart before.reverse
    have hsplit : before = (Path.trimStart before.reverse).reverse ++ front.reverse := by
      rw [← List.reverse_append, ← hback, List.reverse_reverse]
    rw [stagingDirectory_of_kept hparent hbefore hkept]
    generalize hrest : Path.trimStart before.reverse = rest at *
    obtain ⟨c, more, rfl⟩ := List.exists_cons_of_ne_nil hkept
    have hc : c ≠ '/' := Path.ne_slash_of_trimStart hrest
    have hwhole :
        path = String.ofList (c :: more).reverse ++ String.ofList front.reverse ++ other := by
      rw [← String.toList_inj, hpath, hsplit]
      simp
    obtain ⟨first, others, hfirst⟩ :=
      List.exists_cons_of_ne_nil (List.reverse_ne_nil_iff.mpr hkept)
    refine ⟨?_, ?_, dots, .inl ?_⟩
    · rw [hwhole, hfirst]
      simp [isAbsolute]
    · -- it is no longer than the path, and has no other characters
      rw [pathFault?_eq_none_iff] at hfault ⊢
      obtain ⟨hnul, _, hshort⟩ := hfault
      rw [hwhole] at hnul hshort
      refine ⟨fun hmem => hnul ?_, by simp, ?_⟩
      · rw [String.toList_append, String.toList_append]
        exact List.mem_append_left _ (List.mem_append_left _ hmem)
      · rw [String.utf8ByteSize_append, String.utf8ByteSize_append] at hshort
        omega
    · rw [Path.names_eq_plainNames, hdots]
      simp [hc]

/-! ## §2 Lookups of the directory -/

variable {files : FileSystem}

/-- Steps `.` at the end of names lead nowhere else. -/
theorem walk_dots {tree : Node} {links dots : Nat} {address place : Address}
    {names : List String}
    (h : walk tree links address (names ++ List.replicate dots ".") = .ok place) :
    walk tree links address names = .ok place := by
  induction dots with
  | zero => simpa using h
  | succ dots ih =>
    rw [List.replicate_succ', ← List.append_assoc] at h
    exact ih (walk_append_dot h).1

/-- Names that lead to a directory lead there with a step `.` behind them as well. -/
theorem walk_append_dot_eq_ok {tree : Node} {links : Nat} {address place : Address}
    {names : List String} {entries : Node.Entries} (h : walk tree links address names = .ok place)
    (hplace : tree.at? place = some (.directory entries)) :
    walk tree links address (names ++ ["."]) = .ok place := by
  rcases walk_append tree links address names with
    ⟨fault, hfault⟩ | ⟨between, left, hbetween, hmore⟩
  · have hwhole := hfault []
    rw [List.append_nil, h] at hwhole
    cases hwhole
  · obtain rfl := Except.ok.inj (h.symm.trans hbetween)
    rw [hmore]
    exact walk_dot.mpr ⟨rfl, entries, hplace⟩

/-- Above a directory there are directories. -/
theorem exists_at?_dropLast {tree : Node} {address : Address} {entries : Node.Entries}
    (h : tree.at? address = some (.directory entries)) :
    ∃ inner, tree.at? address.dropLast = some (.directory inner) := by
  rcases List.eq_nil_or_concat address with rfl | ⟨front, name, rfl⟩
  · exact ⟨entries, h⟩
  · rw [List.concat_eq_append, Node.at?_append] at h
    rw [List.concat_eq_append, List.dropLast_concat]
    obtain ⟨node, hnode, hname⟩ := Option.bind_eq_some_iff.mp h
    cases node with
    | file content => simp at hname
    | link target => simp [Node.at?] at hname
    | directory inner => exact ⟨inner, hnode⟩

/-- A walk that has found a file found it by its last name in a directory. -/
theorem exists_directory_of_walk {tree : Node} {links : Nat} {address place : Address}
    {names : List String} {last : String} {content : ByteArray}
    (h : walk tree links address (names ++ [last]) = .ok place)
    (hplace : tree.at? place = some (.file content)) :
    ∃ directory entries, walk tree links address names = .ok directory
      ∧ tree.at? directory = some (.directory entries)
      ∧ last ≠ "." ∧ last ≠ ".." ∧ last.utf8ByteSize ≤ nameLimit
      ∧ ∀ inner, tree.at? (directory ++ [last]) ≠ some (.directory inner) := by
  rcases walk_append tree links address names with
    ⟨fault, hfault⟩ | ⟨directory, left, hdirectory, hmore⟩
  · cases (hfault [last]).symm.trans h
  · rw [hmore, walk, advance] at h
    cases hat : tree.at? directory with
    | none => simp [hat] at h
    | some node =>
      cases node with
      | file content => simp [hat] at h
      | link target => simp [hat] at h
      | directory entries =>
        simp only [hat] at h
        refine ⟨directory, entries, hdirectory, hat, ?_⟩
        split_ifs at h with hdot hdots hlong
        · -- the step `.` stays in the directory, which is no file
          simp only [advance, Except.ok.injEq] at h
          subst h
          cases hat.symm.trans hplace
        · -- the step `..` leads to a directory as well
          simp only [advance, Except.ok.injEq] at h
          subst h
          obtain ⟨inner, hinner⟩ := exists_at?_dropLast hat
          cases hinner.symm.trans hplace
        · refine ⟨hdot, hdots, Nat.le_of_not_lt hlong, fun inner hinner => ?_⟩
          rw [Node.at?_append, hat, Option.bind_some, Node.at?_cons] at hinner
          obtain ⟨child, hchild, hinner⟩ := Option.bind_eq_some_iff.mp hinner
          obtain rfl := Option.some.inj hinner
          simp only [hchild, advance, Except.ok.injEq] at h
          subst h
          rw [Node.at?_append, hat, Option.bind_some, Node.at?_cons, hchild] at hplace
          cases hplace

/-- A path that leads to a file has a last name, which stands in a directory. -/
theorem exists_last_of_node? {path : String} {content : ByteArray}
    (h : files.node? path = .ok (.file content)) :
    ∃ names last directory entries, plainNames path = names ++ [last]
      ∧ path.toList.getLast? ≠ some '/'
      ∧ walk files.tree linkLimit (files.start path) names = .ok directory
      ∧ files.tree.at? directory = some (.directory entries)
      ∧ last ≠ "." ∧ last ≠ ".." ∧ last.utf8ByteSize ≤ nameLimit
      ∧ ∀ inner, files.tree.at? (directory ++ [last]) ≠ some (.directory inner) := by
  obtain ⟨hfault, place, hwalk, hplace⟩ := node?_eq_ok_iff.mp h
  by_cases hslash : path.toList.getLast? = some '/'
  · -- a slash at the end asks for a directory
    rw [Path.names, if_pos hslash] at hwalk
    obtain ⟨_, _, _, _, hdot, _⟩ := exists_directory_of_walk hwalk hplace
    exact absurd rfl hdot
  · obtain ⟨before, last, _, _, _, _, hnames⟩ :=
      Path.exists_last hslash (pathFault?_eq_none_iff.mp hfault).2.1
    rw [Path.names_eq_plainNames hslash, hnames] at hwalk
    obtain ⟨directory, entries, hdirectory⟩ := exists_directory_of_walk hwalk hplace
    exact ⟨_, last, directory, entries, hnames, hslash, hdirectory⟩

/-- A move onto a path goes to its last name in the directory that the other names lead to.  The
checks of a move are those that the lookup of a file passes. -/
theorem destination_of_last {path last : String} {names : List String} {directory : Address}
    {entries : Node.Entries} (hfault : pathFault? path = none)
    (hnames : plainNames path = names ++ [last]) (hslash : path.toList.getLast? ≠ some '/')
    (hwalk : walk files.tree linkLimit (files.start path) names = .ok directory)
    (hat : files.tree.at? directory = some (.directory entries)) (hdot : last ≠ ".")
    (hdots : last ≠ "..") (hlong : last.utf8ByteSize ≤ nameLimit)
    (hfile : ∀ inner, files.tree.at? (directory ++ [last]) ≠ some (.directory inner)) :
    files.destination path = .ok (directory ++ [last]) := by
  unfold destination
  rw [hfault]
  dsimp only
  rw [hnames, List.dropLast_concat, List.getLast?_concat, walk_append_dot_eq_ok hwalk hat]
  dsimp only
  -- the name is there and is neither of the dots, so only its length and a slash behind it count
  split
  · rename_i hnone
    cases hnone
  · rename_i hsome
    exact absurd (Option.some.inj hsome) hdot
  · rename_i hsome
    exact absurd (Option.some.inj hsome) hdots
  · rename_i name _ _ hsome
    obtain rfl := Option.some.inj hsome
    rw [if_neg (Nat.not_lt.mpr hlong), if_neg hslash]
    split
    · rename_i inner hinner
      exact absurd hinner (hfile inner)
    · rfl

/-- A path that leads to a file can be replaced by a file with any text. -/
theorem exists_replaceText {path : String} {content : ByteArray}
    (h : files.node? path = .ok (.file content)) :
    ∃ place, files.destination path = .ok place
      ∧ ∀ text, files.replaceText path text =
          .ok { files with tree := files.tree.put place (.file text.toUTF8) } := by
  have hfault := (node?_eq_ok_iff.mp h).1
  obtain ⟨names, last, directory, entries, hnames, hslash, hwalk, hat, hdot, hdots, hlong, hfile⟩ :=
    exists_last_of_node? h
  have hdestination := destination_of_last hfault hnames hslash hwalk hat hdot hdots hlong hfile
  -- the new file is made in the directory of the old one, however its path is written
  have hstaging : files.node? (stagingDirectory path) = .ok (.directory entries) := by
    obtain ⟨habsolute, husable, dots, hsteps⟩ := stagingDirectory_spec hfault hslash hnames hdot
    have hstart : files.start (stagingDirectory path) = files.start path := by
      unfold start
      rw [habsolute]
    rw [node?_eq_ok_iff, hstart]
    refine ⟨husable, directory, ?_, hat⟩
    rcases hsteps with hsteps | ⟨hnamed, hsteps⟩
    · rw [← hsteps] at hwalk
      exact walk_dots hwalk
    · -- only steps lead there, so it is where the lookup starts
      rw [hsteps] at hwalk
      have hstay : walk files.tree linkLimit (files.start path) [] = .ok directory :=
        walk_dots hwalk
      rw [hnamed]
      exact walk_append_dot_eq_ok hstay hat
  refine ⟨directory ++ [last], hdestination, fun text => ?_⟩
  unfold replaceText
  dsimp only
  rw [hstaging, hdestination]

/-- A path to a file leads to where a move onto it goes, unless there is a link. -/
theorem locate_of_destination {path : String} {place : Address} {content : ByteArray}
    (h : files.node? path = .ok (.file content)) (hplace : files.destination path = .ok place)
    (hlink : ∀ target, files.tree.at? place ≠ some (.link target)) :
    files.locate path = .ok place := by
  obtain ⟨hfault, found, hfound, -⟩ := node?_eq_ok_iff.mp h
  obtain ⟨names, last, directory, entries, hnames, hslash, hwalk, hat, hdot, hdots, hlong, hfile⟩ :=
    exists_last_of_node? h
  obtain rfl := Except.ok.inj (hplace.symm.trans
    (destination_of_last hfault hnames hslash hwalk hat hdot hdots hlong hfile))
  unfold locate
  rw [hfault]
  dsimp only
  rw [Path.names_eq_plainNames hslash, hnames] at hfound ⊢
  -- the lookup has come to the directory, and goes on with the last name there
  rcases walk_append files.tree linkLimit (files.start path) names with
    ⟨fault, hfails⟩ | ⟨between, left, hbetween, hmore⟩
  · cases (hfails [last]).symm.trans hfound
  · obtain rfl := Except.ok.inj (hwalk.symm.trans hbetween)
    rw [Node.at?_append, hat, Option.bind_some, Node.at?_cons] at hlink
    rw [hmore, walk, advance] at hfound ⊢
    simp only [hat, if_neg hdot, if_neg hdots, if_neg (Nat.not_lt.mpr hlong)] at hfound ⊢
    cases hchild : Node.child? last entries with
    | none => simp [hchild] at hfound
    | some child =>
      cases child with
      | file inner => simp [advance]
      | directory inner => simp [advance]
      | link target => exact absurd (by simp [hchild]) (hlink target)

end FileSystem

end UpdateFeed
