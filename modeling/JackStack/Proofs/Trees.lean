import Mathlib.Data.List.Lex
import Mathlib.Data.List.Nodup
import JackStack.Files.Tree
import JackStack.Proofs.Paths
import JackStack.Proofs.Placement

/-!
# Proofs/Trees — following paths in a tree of files

A file system has each entry once, under a name that it can have. Then the names inside a directory
are listed once each, in the order of their bytes, and where a path leads to a directory, the path
joined with a name leads to the entry of that name.

* `bytesBefore_of_lt` — the order of characters is the order of bytes.
* `FileTree.WellFormed` — a tree that a file system can hold.
* `FileTree.WellFormed.mem_children`, `FileTree.WellFormed.pairwise_children` — what is listed, and
  in which order.
* `FileTree.lookup_join`, `FileTree.stage_join`, `FileTree.replace_join` — reading and writing
  inside a directory.
* `FileTree.exists_join_of_lookup` — a file is found by its name, in a directory.
* `FileTree.lookup_of_replace` — a file that was put at a path is found there.
-/

namespace JackStack

/-! ## The order of bytes -/

namespace FileTree

variable {t t' : FileTree} {here there directory : Location} {name : String} {e : Entry}

/-! ## Entries -/

theorem entry?_of_ne_nil (h : here ≠ []) : t.entry? here = t.entries.lookup here := by
  cases here with
  | nil => exact absurd rfl h
  | cons => rfl

theorem lookup_filter_ne {entries : List (Location × Entry)} (h : there ≠ here) :
    (entries.filter (·.1 ≠ here)).lookup there = entries.lookup there := by
  induction entries with
  | nil => rfl
  | cons entry rest ih =>
    by_cases he : entry.1 = here
    · rw [List.filter_cons_of_neg (by simpa using he), ih, List.lookup_cons,
        beq_false_of_ne (by rwa [he])]
    · rw [List.filter_cons_of_pos (by simpa using he), List.lookup_cons, List.lookup_cons, ih]

theorem entry?_insert_self (h : here ≠ []) (t : FileTree) (e : Entry) :
    FileTree.entry? (t.insert here e) here = some e := by
  rw [entry?_of_ne_nil h, insert, List.lookup_cons_self]

theorem entry?_insert_of_ne (h : there ≠ here) (t : FileTree) (e : Entry) :
    FileTree.entry? (t.insert here e) there = t.entry? there := by
  cases there with
  | nil => rfl
  | cons name rest =>
    rw [entry?_of_ne_nil (List.cons_ne_nil _ _), entry?_of_ne_nil (List.cons_ne_nil _ _), insert,
      List.lookup_cons, beq_false_of_ne h]
    exact lookup_filter_ne h

/-! ## Well-formed trees -/

/-- **A name that an entry can have.** -/
structure Nameable (name : String) : Prop where
  isName : Path.IsName name.toList
  nul : '\x00' ∉ name.toList
  size : name.utf8ByteSize ≤ nameLimit

instance (name : String) : Decidable (Nameable name) :=
  decidable_of_iff (Path.IsName name.toList ∧ '\x00' ∉ name.toList ∧ name.utf8ByteSize ≤ nameLimit)
    ⟨fun h => ⟨h.1, h.2.1, h.2.2⟩, fun h => ⟨h.isName, h.nul, h.size⟩⟩

theorem Nameable.ne (h : Nameable name) : name ≠ "" ∧ name ≠ "." ∧ name ≠ ".." := by
  refine ⟨?_, ?_, ?_⟩ <;> rintro rfl
  · exact h.isName.ne_nil rfl
  · exact h.isName.ne_dot rfl
  · exact h.isName.ne_dots rfl

/-- **A tree that a file system can hold**: no location has two entries, and names are possible. -/
structure WellFormed (t : FileTree) : Prop where
  nodup : (t.entries.map Prod.fst).Nodup
  names : ∀ entry ∈ t.entries, entry.1 ≠ [] ∧ ∀ name ∈ entry.1, Nameable name

instance (t : FileTree) : Decidable t.WellFormed :=
  decidable_of_iff ((t.entries.map Prod.fst).Nodup ∧
      ∀ entry ∈ t.entries, entry.1 ≠ [] ∧ ∀ name ∈ entry.1, Nameable name)
    ⟨fun h => ⟨h.1, h.2⟩, fun h => ⟨h.nodup, h.names⟩⟩

theorem WellFormed.insert (h : t.WellFormed) (hne : here ≠ []) (hn : ∀ name ∈ here, Nameable name)
    (e : Entry) : (t.insert here e).WellFormed where
  nodup := by
    have herase : ((t.erase here).entries.map Prod.fst).Sublist (t.entries.map Prod.fst) :=
      List.filter_sublist.map Prod.fst
    refine List.nodup_cons.2 ⟨fun hm => ?_, h.nodup.sublist herase⟩
    obtain ⟨entry, hentry, rfl⟩ := List.mem_map.1 hm
    have hne := (List.mem_filter.1 hentry).2
    simp at hne
  names entry hentry := by
    obtain rfl | hentry := List.mem_cons.1 hentry
    · exact ⟨hne, hn⟩
    · exact h.names entry (List.mem_filter.1 hentry).1

/-- The entries inside a directory, as they come. -/
def inside (t : FileTree) (directory : Location) : List (String × Entry) :=
  t.entries.filterMap fun (here, e) => (nameIn? directory here).map (·, e)

/-- A path is followed to its end in its two parts. -/
theorem walk_append (t : FileTree) (here : Location) (ps qs : List String) :
    t.walk here (ps ++ qs) = t.walk here ps >>= fun there => t.walk there qs := by
  induction ps generalizing here with
  | nil => rfl
  | cons piece rest ih =>
    rw [List.cons_append, walk, walk]
    split
    · rfl
    · rfl
    · split
      · exact ih here
      · split
        · exact ih _
        · rw [bind_assoc]
          exact congrArg _ (funext fun _ => ih _)

/-- Where a piece of a path leads from a directory. A name that is too long leads nowhere. -/
def next? (here : Location) (piece : String) : Option Location :=
  if piece = "" ∨ piece = "." then some here
  else if piece = ".." then some here.dropLast
  else if piece.utf8ByteSize ≤ nameLimit then some (here ++ [piece])
  else none

/-- **Only from a directory does a path lead on**, piece by piece. -/
theorem walk_cons_eq_ok_iff {piece : String} {rest : List String} :
    t.walk here (piece :: rest) = .ok there ↔ t.entry? here = some .directory ∧
      ∃ next, next? here piece = some next ∧ t.walk next rest = .ok there := by
  rw [walk]
  cases t.entry? here with
  | none => simp
  | some e =>
    cases e with
    | file content => simp
    | directory =>
      simp only [next?, true_and]
      split
      · simp
      split
      · simp
      · rw [checkName]
        split
        next h => simp [Nat.not_le.2 h, bind, Except.bind]
        next h => simp [Nat.not_lt.1 h, bind, Except.bind]

theorem checkName_eq_ok (h : Nameable name) : checkName name = .ok () :=
  if_neg (Nat.not_lt.2 h.size)

theorem next?_name (h : Nameable name) : next? here name = some (here ++ [name]) := by
  obtain ⟨hne, hdot, hdots⟩ := h.ne
  rw [next?, if_neg (not_or.2 ⟨hne, hdot⟩), if_neg hdots, if_pos h.size]

/-- A path that leads somewhere does so in every tree that has the same directories. -/
theorem walk_mono
    (h : ∀ there, t.entry? there = some .directory → t'.entry? there = some .directory)
    {ps : List String} (hw : t.walk here ps = .ok there) : t'.walk here ps = .ok there := by
  induction ps generalizing here with
  | nil => exact hw
  | cons piece rest ih =>
    obtain ⟨hd, next, hnext, hw⟩ := walk_cons_eq_ok_iff.1 hw
    exact walk_cons_eq_ok_iff.2 ⟨h _ hd, next, hnext, ih hw⟩

theorem walk_name (hd : t.entry? here = some .directory) (h : Nameable name) :
    t.walk here [name] = .ok (here ++ [name]) :=
  walk_cons_eq_ok_iff.2 ⟨hd, _, next?_name h, rfl⟩

/-- What leads to the next place are directories, if that is so for the place before. -/
theorem entry?_take_of_next {next : Location} {piece : String}
    (hd : t.entry? here = some .directory) (hnext : next? here piece = some next)
    (h : ∀ n, n < here.length → t.entry? (here.take n) = some .directory) :
    ∀ n, n < next.length → t.entry? (next.take n) = some .directory := by
  rw [next?] at hnext
  split at hnext
  · cases hnext
    exact h
  split at hnext
  · cases hnext
    intro n hn
    rw [List.length_dropLast] at hn
    rw [List.dropLast_eq_take, List.take_take, Nat.min_eq_left (Nat.le_of_lt hn)]
    exact h n (by omega)
  split at hnext
  · cases hnext
    intro n hn
    rw [List.length_append, List.length_singleton] at hn
    rw [List.take_append_of_le_length (by omega)]
    obtain hlt | rfl := Nat.lt_or_eq_of_le (Nat.le_of_lt_succ hn)
    · exact h n hlt
    · rwa [List.take_length]
  · cases hnext

/-- **What leads to a place are directories.** -/
theorem entry?_take_of_walk {ps : List String} (hw : t.walk here ps = .ok there)
    (h : ∀ n, n < here.length → t.entry? (here.take n) = some .directory) :
    ∀ n, n < there.length → t.entry? (there.take n) = some .directory := by
  induction ps generalizing here with
  | nil =>
    obtain rfl := Except.ok.inj hw
    exact h
  | cons piece rest ih =>
    obtain ⟨hd, next, hnext, hw⟩ := walk_cons_eq_ok_iff.1 hw
    exact ih hw (entry?_take_of_next hd hnext h)

theorem entry?_dropLast_of_walk {ps : List String} (hw : t.walk [] ps = .ok here) :
    t.entry? here.dropLast = some .directory := by
  cases here with
  | nil => rfl
  | cons first rest =>
    rw [List.dropLast_eq_take]
    exact entry?_take_of_walk hw (fun n hn => absurd hn (Nat.not_lt_zero n)) _ (by simp)

theorem checkPath_eq_ok_iff (onNul : FileFault) (path : String) :
    checkPath onNul path = .ok () ↔ '\x00' ∉ path.toList ∧ path.utf8ByteSize ≤ pathLimit := by
  rw [checkPath]
  split
  next h => simp [h]
  next h =>
    split
    next hlt => simp [h, hlt]
    next hlt => simp [h, Nat.not_lt.1 hlt]

/-- **Where a path leads** to an entry. -/
theorem lookup_eq_ok_iff {path : String} :
    t.lookup path = .ok (here, e) ↔ path ≠ "" ∧ '\x00' ∉ path.toList ∧
      path.utf8ByteSize ≤ pathLimit ∧ t.walk [] (piecesOf path) = .ok here ∧
      t.entry? here = some e := by
  rw [lookup]
  by_cases hp : path = ""
  · simp [hp]
  rw [if_neg hp, ← and_assoc (a := _ ∉ _), ← checkPath_eq_ok_iff .nulInPath]
  cases checkPath .nulInPath path with
  | error fault => simp [bind, Except.bind]
  | ok u =>
    cases t.walk [] (piecesOf path) with
    | error fault => simp [bind, Except.bind]
    | ok there =>
      simp only [bind, Except.bind, ne_eq, hp, not_false_eq_true, true_and, Except.ok.injEq]
      constructor
      · intro h
        split at h
        next e' he =>
          obtain ⟨rfl, rfl⟩ := Prod.mk.inj (Except.ok.inj h)
          exact ⟨rfl, he⟩
        next => cases h
      · rintro ⟨rfl, he⟩
        rw [he]
        rfl

/-- Directories stay when a file is put where none is. -/
theorem entry?_insert_file (h : t.entry? here = some .directory)
    (hthere : t.entry? there ≠ some .directory) (content : ByteArray) :
    FileTree.entry? (t.insert there (.file content)) here = some .directory := by
  rwa [entry?_insert_of_ne]
  rintro rfl
  exact hthere h

/-- A directory is found as before when a file is put where no directory is. -/
theorem lookup_insert_file {path : String} (hd : t.lookup path = .ok (here, .directory))
    (h : t.entry? there ≠ some .directory) (content : ByteArray) :
    (t.insert there (.file content)).lookup path = .ok (here, .directory) := by
  obtain ⟨hne, hnul, hsize, hw, he⟩ := lookup_eq_ok_iff.1 hd
  exact lookup_eq_ok_iff.2 ⟨hne, hnul, hsize,
    walk_mono (fun _ hp => entry?_insert_file hp h content) hw, entry?_insert_file he h content⟩

/-- What is found elsewhere when a file is put where no directory is was found before. -/
theorem lookup_of_insert_file {path : String} {content : ByteArray}
    (h : (t.insert there (.file content)).lookup path = .ok (here, e))
    (hd : t.entry? there ≠ some .directory) (hne : here ≠ there) :
    t.lookup path = .ok (here, e) := by
  have hthere : there ≠ [] := by
    rintro rfl
    exact hd rfl
  have hback (place : Location)
      (hp : FileTree.entry? (t.insert there (.file content)) place = some .directory) :
      t.entry? place = some .directory := by
    rwa [entry?_insert_of_ne] at hp
    rintro rfl
    rw [entry?_insert_self hthere] at hp
    cases hp
  obtain ⟨hempty, hnul, hsize, hw, he⟩ := lookup_eq_ok_iff.1 h
  rw [entry?_insert_of_ne hne] at he
  exact lookup_eq_ok_iff.2 ⟨hempty, hnul, hsize, walk_mono hback hw, he⟩

/-- **The last piece on the way to a file** is its name, in the directory before it. -/
theorem exists_of_walk_file {ps : List String} {content : ByteArray}
    (hw : t.walk [] (ps ++ [name]) = .ok here) (he : t.entry? here = some (.file content)) :
    ∃ directory, t.walk [] ps = .ok directory ∧ t.entry? directory = some .directory ∧
      (name ≠ "" ∧ name ≠ "." ∧ name ≠ "..") ∧ name.utf8ByteSize ≤ nameLimit ∧
      here = directory ++ [name] := by
  rw [walk_append] at hw
  cases hp : t.walk [] ps with
  | error fault =>
    rw [hp] at hw
    cases hw
  | ok directory =>
    rw [hp] at hw
    obtain ⟨hd, next, hnext, hnil⟩ := walk_cons_eq_ok_iff.1 hw
    obtain rfl := Except.ok.inj hnil
    refine ⟨directory, rfl, hd, ?_⟩
    -- a piece that stays or goes up would lead to a directory
    rw [next?] at hnext
    split at hnext
    · cases hnext
      cases hd.symm.trans he
    · next hstay =>
      split at hnext
      · cases hnext
        cases (entry?_dropLast_of_walk hp).symm.trans he
      · next hup =>
        split at hnext
        · next hsize =>
          cases hnext
          rw [not_or] at hstay
          exact ⟨⟨hstay.1, hstay.2, hup⟩, hsize, rfl⟩
        · cases hnext

/-- **A file is found by its name, in a directory**, if its path is more than a name. -/
theorem exists_join_of_lookup {path : String} {content : ByteArray}
    (h : t.lookup path = .ok (here, .file content)) (hslash : '/' ∈ path.toList) :
    ∃ front directory name, path = Path.join front name ∧
      t.lookup front = .ok (directory, .directory) ∧ Nameable name ∧
      here = directory ++ [name] := by
  obtain ⟨-, hnul, hsize, hw, he⟩ := lookup_eq_ok_iff.1 h
  obtain ⟨lead, name, hname, happend, hjoin⟩ := Path.exists_join_of_mem hslash
  have hpieces : piecesOf path = (Path.pieces lead).map String.ofList ++ [String.ofList name] := by
    rw [happend, piecesOf, ← String.ofList_append, String.toList_ofList, List.append_assoc]
    exact (congrArg _ (Path.pieces_append lead name)).trans
      (by rw [Path.pieces_of_notMem hname, List.map_append, List.map_singleton])
  rw [hpieces] at hw
  obtain ⟨directory, hwalk, hd, ⟨hne, hdot, hdots⟩, hlong, hhere⟩ := exists_of_walk_file hw he
  have hfront : t.walk [] (piecesOf (String.ofList (lead ++ ['/']))) = .ok directory := by
    rw [piecesOf, String.toList_ofList, Path.pieces_append, List.map_append, walk_append, hwalk]
    exact walk_cons_eq_ok_iff.2 ⟨hd, directory, rfl, rfl⟩
  rw [happend, String.toList_append, List.mem_append, not_or] at hnul
  rw [happend, String.utf8ByteSize_append] at hsize
  refine ⟨_, directory, _, hjoin, lookup_eq_ok_iff.2 ⟨by simp, hnul.1, by omega, hfront, hd⟩,
    ⟨?_, hnul.2, hlong⟩, hhere⟩
  rw [String.toList_ofList]
  exact ⟨hname, fun heq => hne (by rw [heq]), fun heq => hdot (by rw [heq]),
    fun heq => hdots (by rw [heq])⟩

theorem read_eq_ok_iff {path : String} {content : ByteArray} :
    t.read path = .ok content ↔ ∃ here, t.lookup path = .ok (here, .file content) := by
  rw [read]
  cases t.lookup path with
  | error fault => simp [bind, Except.bind]
  | ok p =>
    obtain ⟨here, e⟩ := p
    cases e <;> simp [bind, Except.bind, pure, Except.pure, throw, throwThe, MonadExceptOf.throw]

theorem readText_eq_ok_iff {path text : String} :
    t.readText path = .ok text ↔
      ∃ content, t.read path = .ok content ∧ String.fromUTF8? content = some text := by
  rw [readText]
  cases t.read path with
  | error fault => simp [bind, Except.bind]
  | ok content =>
    simp only [bind, Except.bind, Except.ok.injEq, exists_eq_left']
    cases String.fromUTF8? content with
    | none => simp [throw, throwThe, MonadExceptOf.throw]
    | some text' => simp [pure, Except.pure]

/-! ## Inside a directory -/

/-- **A path in a directory is followed by its name**, whatever the name. -/
theorem exists_piecesOf_join {path : String} (h : path ≠ "") :
    ∃ ps, (∀ name, '/' ∉ name.toList → piecesOf (Path.join path name) = ps ++ [name]) ∧
      ∀ (t : FileTree) (here : Location), t.walk [] (piecesOf path) = .ok here →
        t.walk [] ps = .ok here := by
  obtain ⟨lead, hlead, hjoin⟩ := Path.exists_join h
  refine ⟨(Path.pieces lead).map String.ofList, fun name hname => ?_, fun t here hw => ?_⟩
  · rw [piecesOf, hjoin, Path.pieces_append, Path.pieces_of_notMem hname, List.map_append,
      List.map_singleton, String.ofList_toList]
  · rw [piecesOf] at hw
    obtain hlead | hlead := hlead
    · rwa [hlead] at hw
    · rw [hlead, Path.pieces_append, List.map_append, walk_append] at hw
      cases hthere : t.walk [] ((Path.pieces lead).map String.ofList) with
      | error fault =>
        rw [hthere] at hw
        cases hw
      | ok there =>
        rw [hthere] at hw
        obtain ⟨-, next, ⟨⟩, hw⟩ := walk_cons_eq_ok_iff.1 hw
        exact hw

theorem target_of_pieces {path : String} {ps : List String} (hpieces : piecesOf path = ps ++ [name])
    (hname : name ≠ "") (hw : t.walk [] ps = .ok directory)
    (hd : t.entry? directory = some .directory) : t.target path = .ok (directory, name) := by
  have htrim : ((piecesOf path).reverse.dropWhile (· = "")).reverse = ps ++ [name] := by
    rw [hpieces, List.reverse_append, List.reverse_singleton, List.singleton_append,
      List.dropWhile_cons_of_neg (by simpa using hname)]
    simp
  rw [target]
  simp only [htrim, List.dropLast_concat, List.getLast?_concat, hw]
  simp only [bind, Except.bind, hd]
  rfl

section Join

variable {path : String} (hd : t.lookup path = .ok (here, .directory))

include hd

theorem nul_join (hn : '\x00' ∉ name.toList) : '\x00' ∉ (Path.join path name).toList := by
  obtain ⟨hne, hnul, -⟩ := lookup_eq_ok_iff.1 hd
  obtain ⟨lead, hlead, hjoin⟩ := Path.exists_join hne
  rw [hjoin, List.mem_append, List.mem_cons, not_or, not_or]
  refine ⟨fun hm => hnul ?_, by decide, hn⟩
  obtain hlead | hlead := hlead
  · rwa [hlead]
  · rw [hlead]
    exact List.mem_append_left _ hm

theorem walk_join (hslash : '/' ∉ name.toList) :
    t.walk [] (piecesOf (Path.join path name)) = t.walk here [name] := by
  obtain ⟨hne, -, -, hw, -⟩ := lookup_eq_ok_iff.1 hd
  obtain ⟨ps, hpieces, hps⟩ := exists_piecesOf_join hne
  rw [hpieces name hslash, walk_append, hps t here hw]
  rfl

/-- **A path in a directory leads to the entry** of that name, if it is not too long. -/
theorem lookup_join (hn : Nameable name) {there : Location} :
    t.lookup (Path.join path name) = .ok (there, e) ↔
      (Path.join path name).utf8ByteSize ≤ pathLimit ∧ here ++ [name] = there ∧
        t.entry? there = some e := by
  obtain ⟨hne, -, -, -, he⟩ := lookup_eq_ok_iff.1 hd
  rw [lookup_eq_ok_iff, walk_join hd hn.isName.slash, walk_name he hn]
  simp only [ne_eq, Path.join_ne_empty hne, not_false_eq_true, nul_join hd hn.nul, true_and,
    Except.ok.injEq]

theorem read_join (hn : Nameable name) {content : ByteArray} :
    t.read (Path.join path name) = .ok content ↔
      (Path.join path name).utf8ByteSize ≤ pathLimit ∧
        t.entry? (here ++ [name]) = some (.file content) := by
  simp only [read_eq_ok_iff, lookup_join hd hn, exists_and_left, exists_eq_left']

/-- **The way up from a directory** leads to a directory. -/
theorem lookup_join_up (hsize : (Path.join path "..").utf8ByteSize ≤ pathLimit) :
    t.lookup (Path.join path "..") = .ok (here.dropLast, .directory) := by
  obtain ⟨hne, -, -, hw, he⟩ := lookup_eq_ok_iff.1 hd
  have hup : t.walk here [".."] = .ok here.dropLast :=
    walk_cons_eq_ok_iff.2 ⟨he, _, rfl, rfl⟩
  exact lookup_eq_ok_iff.2 ⟨Path.join_ne_empty hne _, nul_join hd (by decide), hsize,
    (walk_join hd (by decide)).trans hup, entry?_dropLast_of_walk hw⟩

theorem target_join (hslash : '/' ∉ name.toList) (hname : name ≠ "") :
    t.target (Path.join path name) = .ok (here, name) := by
  obtain ⟨hne, -, -, hw, he⟩ := lookup_eq_ok_iff.1 hd
  obtain ⟨ps, hpieces, hps⟩ := exists_piecesOf_join hne
  exact target_of_pieces (hpieces name hslash) hname (hps t here hw) he

/-- **A temporary file is made in a directory** unless its path would be too long. -/
theorem stage_join (hslash : '/' ∉ name.toList) (hname : name ≠ "") (hdot : name ≠ ".") :
    (∃ directory, t.stage (Path.join path name) = .ok directory) ↔
      (t.temporaryIn (Path.trimmed path)).utf8ByteSize ≤ pathLimit := by
  obtain ⟨hne, -⟩ := lookup_eq_ok_iff.1 hd
  rw [stage, Path.directoryOf_join hne hslash hname hdot, target_join hd hslash hname]
  simp only []
  split
  next h => simp [Nat.not_le.2 h]
  next h => simp [Nat.not_lt.1 h, bind, Except.bind, pure, Except.pure]

/-- **A file is put into a directory** unless a directory has its name, or its path is too long. -/
theorem replace_join (hn : Nameable name) {content : ByteArray} :
    t.replace (Path.join path name) content = .ok t' ↔
      (Path.join path name).utf8ByteSize ≤ pathLimit ∧
        t.entry? (here ++ [name]) ≠ some .directory ∧
        t' = t.insert (here ++ [name]) (.file content) := by
  obtain ⟨hne, hdot, hdots⟩ := hn.ne
  have hname : isName name = true := by simp [isName, hne, hdot, hdots]
  have hcheck := checkPath_eq_ok_iff .invalidArgument (Path.join path name)
  rw [replace, target_join hd hn.isName.slash hne]
  cases hc : checkPath .invalidArgument (Path.join path name) with
  | error fault =>
    refine ⟨fun h => ?_, fun h => ?_⟩
    · cases h
    · rw [hc] at hcheck
      cases hcheck.2 ⟨nul_join hd hn.nul, h.1⟩
  | ok u =>
    have hsize := (hcheck.1 hc).2
    simp only [bind, Except.bind, hname, if_true, put, checkName_eq_ok hn, hsize, true_and]
    split
    next h => simp [h]
    next h => exact ⟨fun heq => ⟨h, (Except.ok.inj heq).symm⟩, fun heq => heq.2 ▸ rfl⟩

/-- Nothing is put at the way up. -/
theorem replace_join_up {content : ByteArray} :
    t.replace (Path.join path "..") content ≠ .ok t' := by
  rw [replace, target_join hd (by decide) (by decide)]
  intro h
  cases hc : checkPath .invalidArgument (Path.join path "..") with
  | error fault =>
    rw [hc] at h
    cases h
  | ok u =>
    rw [hc] at h
    cases h

end Join

/-! ## Putting a file at a path -/

theorem dropWhile_piecesOf (path : String) :
    (piecesOf path).reverse.dropWhile (· = "") =
      ((Path.pieces path.toList).reverse.dropWhile (· = [])).map String.ofList := by
  rw [piecesOf, ← List.map_reverse, List.dropWhile_map]
  congr 2
  funext piece
  simp [String.ofList_eq_empty_iff]

/-- **Where a file is to be put**: all pieces but the last lead to a directory, where empty pieces
behind the last name do not count. -/
theorem of_target {path : String} (h : t.target path = .ok (directory, name)) :
    t.walk [] ((piecesOf path).reverse.dropWhile (· = "")).reverse.dropLast = .ok directory ∧
      t.entry? directory = some .directory ∧
      name = String.ofList (Path.finalPiece path.toList) := by
  have hlast : ((piecesOf path).reverse.dropWhile (· = "")).reverse.getLast?.getD "" =
      String.ofList (Path.finalPiece path.toList) := by
    rw [List.getLast?_reverse, dropWhile_piecesOf, List.head?_map, Path.finalPiece]
    cases ((Path.pieces path.toList).reverse.dropWhile (· = [])).head? <;> rfl
  rw [target] at h
  simp only [hlast] at h
  cases hw : t.walk [] ((piecesOf path).reverse.dropWhile (· = "")).reverse.dropLast with
  | error fault =>
    rw [hw] at h
    cases h
  | ok d =>
    rw [hw] at h
    simp only [bind, Except.bind] at h
    split at h
    · next hd =>
      obtain ⟨rfl, rfl⟩ := Prod.mk.inj (Except.ok.inj h)
      exact ⟨rfl, hd, rfl⟩
    · cases h
    · cases h

/-- **A finished file takes the place of a file or of nothing**, and all else stays. -/
theorem of_replace {path : String} {content : ByteArray} (h : t.replace path content = .ok t') :
    '\x00' ∉ path.toList ∧ path.utf8ByteSize ≤ pathLimit ∧
      ∃ directory name, t.target path = .ok (directory, name) ∧ isName name = true ∧
        name.utf8ByteSize ≤ nameLimit ∧ t.entry? (directory ++ [name]) ≠ some .directory ∧
        t' = t.insert (directory ++ [name]) (.file content) := by
  rw [replace] at h
  cases hc : checkPath .invalidArgument path with
  | error fault =>
    rw [hc] at h
    cases h
  | ok u =>
    obtain ⟨hnul, hsize⟩ := (checkPath_eq_ok_iff .invalidArgument path).1 hc
    refine ⟨hnul, hsize, ?_⟩
    rw [hc] at h
    cases ht : t.target path with
    | error fault =>
      rw [ht] at h
      cases h
    | ok place =>
      obtain ⟨directory, name⟩ := place
      rw [ht] at h
      simp only [bind, Except.bind] at h
      split at h
      · next hname =>
        rw [put, checkName] at h
        split at h
        · cases h
        · next hlong =>
          simp only [bind, Except.bind] at h
          split at h
          · cases h
          · next hd =>
            obtain rfl := Except.ok.inj h
            exact ⟨directory, name, rfl, hname, Nat.not_lt.1 hlong, hd, rfl⟩
      · cases h

/-- **A file that was put at a path is found there**, unless the path ends in a slash. -/
theorem lookup_of_replace {path : String} {content : ByteArray}
    (h : t.replace path content = .ok t') (hslash : path.toList.getLast? ≠ some '/') :
    ∃ directory name, t.target path = .ok (directory, name) ∧ isName name = true ∧
      t.entry? (directory ++ [name]) ≠ some .directory ∧
      t' = t.insert (directory ++ [name]) (.file content) ∧
      t'.lookup path = .ok (directory ++ [name], .file content) := by
  obtain ⟨hnul, hsize, directory, name, htarget, hname, hlong, hnew, rfl⟩ := of_replace h
  obtain ⟨hwalk, hd, hfinal⟩ := of_target htarget
  have hempty : path ≠ "" := by
    rintro rfl
    rw [hfinal] at hname
    cases hname
  obtain ⟨front, c, hpath⟩ := (List.eq_nil_or_concat' path.toList).resolve_left
    (fun hnil => hempty (String.toList_eq_nil_iff.1 hnil))
  have hc : c ≠ '/' := by
    rintro rfl
    rw [hpath, List.getLast?_concat] at hslash
    exact hslash rfl
  obtain ⟨ps, last, hps, -, hlast⟩ := Path.exists_last path.toList
  have hne : last ≠ [] := by
    rw [hpath] at hlast
    exact Path.last_ne_nil hc hlast
  obtain rfl : name = String.ofList last := by rw [hfinal, Path.finalPiece_of_pieces hps hne]
  have hpieces : piecesOf path = ps.map String.ofList ++ [String.ofList last] := by
    rw [piecesOf, hps, List.map_append, List.map_singleton]
  have htrim : ((piecesOf path).reverse.dropWhile (· = "")).reverse.dropLast =
      ps.map String.ofList := by
    rw [hpieces, List.reverse_append, List.reverse_singleton, List.singleton_append,
      List.dropWhile_cons_of_neg (by simpa [String.ofList_eq_empty_iff] using hne)]
    simp
  rw [htrim] at hwalk
  have hkeeps := fun there (hthere : t.entry? there = some .directory) =>
    entry?_insert_file hthere hnew content
  have hnext : next? directory (String.ofList last) = some (directory ++ [String.ofList last]) := by
    simp only [isName, Bool.and_eq_true, decide_eq_true_eq] at hname
    rw [next?, if_neg (not_or.2 hname.1), if_neg hname.2, if_pos hlong]
  have hmove : (t.insert (directory ++ [String.ofList last]) (.file content)).walk []
      (piecesOf path) = .ok (directory ++ [String.ofList last]) := by
    rw [hpieces, walk_append, walk_mono hkeeps hwalk]
    exact walk_cons_eq_ok_iff.2 ⟨hkeeps directory hd, _, hnext, rfl⟩
  refine ⟨directory, String.ofList last, htarget, hname, hnew, rfl, ?_⟩
  exact lookup_eq_ok_iff.2 ⟨hempty, hnul, hsize, hmove,
    entry?_insert_self (List.concat_ne_nil _ _) t _⟩

end FileTree

end JackStack
