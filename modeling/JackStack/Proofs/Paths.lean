import Mathlib.Data.List.Basic
import Mathlib.Data.List.Induction
import Mathlib.Data.List.TakeWhile
import JackStack.Files.Path

/-!
# Proofs/Paths — the path of a file in a directory

Where a directory and a name are joined, the name is the file name of the path, and the directory
leads to it. A name has an extension if it has a dot that is not its first character; another
extension takes the place of what stands behind the last dot.

* `Path.pieces_append` — the pieces on both sides of a slash.
* `Path.extension?_eq_some_iff` — the extension of a file name.
* `Path.withExtension?_of_extension` — another extension takes its place.
* `Path.directoryOf_join` — a file that is in a directory has that as its directory.
* `Path.getLast?_withExtension?` — the path of an output file with a name ends in that name.
-/

namespace JackStack.Path

variable {lead name stem extension path : List Char}

/-! ## Pieces -/

theorem pieces_of_notMem (h : '/' ∉ name) : pieces name = [name] := by
  induction name with
  | nil => rfl
  | cons c cs ih =>
    rw [List.mem_cons, not_or] at h
    rw [pieces, if_neg (Ne.symm h.1), ih h.2]

theorem pieces_ne_nil (cs : List Char) : pieces cs ≠ [] := by
  cases cs with
  | nil => exact List.cons_ne_nil _ _
  | cons c cs =>
    rw [pieces]
    split
    · exact List.cons_ne_nil _ _
    · split <;> exact List.cons_ne_nil _ _

/-- **The pieces on both sides of a slash.** -/
theorem pieces_append (p q : List Char) : pieces (p ++ '/' :: q) = pieces p ++ pieces q := by
  induction p with
  | nil => rfl
  | cons c cs ih =>
    rw [List.cons_append, pieces, pieces]
    by_cases hc : c = '/'
    · rw [if_pos hc, if_pos hc, ih]
      rfl
    · rw [if_neg hc, if_neg hc, ih]
      cases hp : pieces cs with
      | nil => exact absurd hp (pieces_ne_nil cs)
      | cons piece rest => rfl

/-- **The path of a name in a directory** is a lead, a slash and the name. The lead is the directory
as it is written, or without a slash at its end. -/
theorem exists_join {directory : String} (h : directory ≠ "") :
    ∃ lead, (directory.toList = lead ∨ directory.toList = lead ++ ['/']) ∧
      ∀ name, (join directory name).toList = lead ++ '/' :: name.toList := by
  rcases List.eq_nil_or_concat' directory.toList with hd | ⟨lead, c, hd⟩
  · exact absurd (String.toList_eq_nil_iff.1 hd) h
  · by_cases hc : c = '/'
    · subst hc
      refine ⟨lead, .inr hd, fun name => ?_⟩
      rw [join, if_pos (by rw [hd, List.getLast?_concat]; rfl), String.toList_append, hd,
        List.append_assoc]
      rfl
    · refine ⟨directory.toList, .inl rfl, fun name => ?_⟩
      rw [join, if_neg (by rw [hd, List.getLast?_concat]; simpa using hc), String.toList_append,
        String.toList_append, List.append_assoc]
      rfl

theorem join_ne_empty {directory : String} (h : directory ≠ "") (name : String) :
    join directory name ≠ "" := by
  obtain ⟨lead, -, hjoin⟩ := exists_join h
  intro hempty
  have hlist := hjoin name
  rw [hempty] at hlist
  simp at hlist

theorem utf8ByteSize_join (directory name : String) :
    (join directory name).utf8ByteSize = (join directory "").utf8ByteSize + name.utf8ByteSize := by
  rw [join, join]
  split
  · rw [String.utf8ByteSize_append, String.append_empty]
  · rw [String.utf8ByteSize_append, String.append_empty]

/-- **A name** that is not a way to another place. -/
structure IsName (name : List Char) : Prop where
  slash : '/' ∉ name
  ne_nil : name ≠ []
  ne_dot : name ≠ ['.']
  ne_dots : name ≠ ['.', '.']

instance (name : List Char) : Decidable (IsName name) :=
  decidable_of_iff ('/' ∉ name ∧ name ≠ [] ∧ name ≠ ['.'] ∧ name ≠ ['.', '.'])
    ⟨fun h => ⟨h.1, h.2.1, h.2.2.1, h.2.2.2⟩, fun h => ⟨h.slash, h.ne_nil, h.ne_dot, h.ne_dots⟩⟩

/-- Nothing stands behind a name. -/
theorem trimReversed_append (h : '/' ∉ name) (hne : name ≠ []) (hdot : name ≠ ['.'])
    (rest : List Char) : trimReversed (name ++ rest) = name ++ rest := by
  cases name with
  | nil => exact absurd rfl hne
  | cons c cs =>
    rw [List.mem_cons, not_or] at h
    rw [trimReversed]
    · rintro _ ⟨⟩
      exact h.1 rfl
    · rintro tail heq
      obtain ⟨rfl, htail⟩ := List.cons.inj heq
      cases cs with
      | nil => exact hdot rfl
      | cons d ds =>
        obtain ⟨rfl, -⟩ := List.cons.inj htail
        exact h.2 List.mem_cons_self

/-- What stands in front of a character that it does not hold. -/
theorem takeWhile_ne {c : Char} (h : c ∉ name) (rest : List Char) :
    (name ++ c :: rest).takeWhile (· ≠ c) = name := by
  have hall : ∀ d ∈ name, d ≠ c := fun d hd => ne_of_mem_of_not_mem hd h
  rw [List.takeWhile_append_of_pos (by simpa using hall)]
  simp

theorem dropWhile_ne {c : Char} (h : c ∉ name) (rest : List Char) :
    (name ++ c :: rest).dropWhile (· ≠ c) = c :: rest := by
  have hall : ∀ d ∈ name, d ≠ c := fun d hd => ne_of_mem_of_not_mem hd h
  rw [List.dropWhile_append_of_pos (by simpa using hall)]
  simp

/-- A name behind a slash, read from the end. -/
theorem trimReversed_name (h : '/' ∉ name) (hne : name ≠ []) (hdot : name ≠ ['.'])
    (lead : List Char) :
    trimReversed (lead ++ '/' :: name).reverse = name.reverse ++ '/' :: lead.reverse := by
  have hrev : (lead ++ '/' :: name).reverse = name.reverse ++ '/' :: lead.reverse := by simp
  rw [hrev]
  exact trimReversed_append (by simpa using h) (by simpa using hne)
    (fun hd => hdot (by simpa using congrArg List.reverse hd)) _

/-- **What stands behind the last slash** is the file name, if it is none of the ways to stay and to
go up. -/
theorem parts?_append (h : '/' ∉ name) (hne : name ≠ []) (hdot : name ≠ ['.']) (lead : List Char) :
    parts? (lead ++ '/' :: name)
      = if name = ['.', '.'] then none else some ⟨lead ++ ['/'], name⟩ := by
  have hslash : '/' ∉ name.reverse := by simpa using h
  rw [parts?, trimReversed_name h hne hdot]
  simp only [takeWhile_ne hslash, dropWhile_ne hslash, List.reverse_reverse, List.reverse_cons,
    hne, hdot, false_or]

theorem IsName.parts? (h : IsName name) (lead : List Char) :
    parts? (lead ++ '/' :: name) = some ⟨lead ++ ['/'], name⟩ := by
  rw [parts?_append h.slash h.ne_nil h.ne_dot, if_neg h.ne_dots]

/-- **A file that is in a directory has that as its directory**, without slashes and single dots at
its end. -/
theorem directoryOf_join {directory file : String} (hd : directory ≠ "") (h : '/' ∉ file.toList)
    (hne : file ≠ "") (hdot : file ≠ ".") :
    directoryOf (join directory file) = trimmed directory := by
  obtain ⟨lead, hlead, hjoin⟩ := exists_join hd
  have hslash : '/' ∉ file.toList.reverse := by simpa using h
  have hnil : file.toList ≠ [] := fun heq => hne (String.toList_eq_nil_iff.1 heq)
  have hstay : file.toList ≠ ['.'] := fun heq => hdot (String.toList_inj.1 heq)
  have htrim : trimReversed directory.toList.reverse = trimReversed ('/' :: lead.reverse) := by
    obtain hlead | hlead := hlead
    · rw [hlead]
      rfl
    · rw [hlead, List.reverse_append]
      rfl
  have hlead' : directoryOf (join directory file)
      = trimmed (String.ofList ('/' :: lead.reverse).reverse) := by
    rw [directoryOf, hjoin, trimReversed_name h hnil hstay, dropWhile_ne hslash]
  rw [hlead', trimmed, trimmed, String.toList_ofList, List.reverse_reverse, htrim]

/-! ## Extensions -/

theorem splitName_append (stem : List Char) (he : '.' ∉ extension) :
    splitName (stem ++ '.' :: extension)
      = if stem = [] then (stem ++ '.' :: extension, none) else (stem, some extension) := by
  have hdot : '.' ∉ extension.reverse := by simpa using he
  have hrev : (stem ++ '.' :: extension).reverse = extension.reverse ++ '.' :: stem.reverse := by
    simp
  simp only [splitName, hrev, takeWhile_ne hdot, dropWhile_ne hdot, List.drop_one, List.tail_cons,
    List.reverse_reverse]

theorem splitName_of_notMem (h : '.' ∉ name) : splitName name = (name, none) := by
  have hdrop : name.reverse.dropWhile (· ≠ '.') = [] := by
    rw [List.dropWhile_eq_nil_iff]
    intro c hc
    simpa using ne_of_mem_of_not_mem (List.mem_reverse.1 hc) h
  simp only [splitName, hdrop]
  rfl

theorem splitName_eq_some_iff :
    (splitName name).2 = some extension ↔
      ∃ stem, stem ≠ [] ∧ '.' ∉ extension ∧ name = stem ++ '.' :: extension := by
  constructor
  · intro h
    by_cases hdot : '.' ∈ name.reverse
    · obtain ⟨behind, before, hrev, hbehind⟩ := List.eq_append_cons_of_mem hdot
      obtain rfl : name = before.reverse ++ '.' :: behind.reverse := by
        rw [← List.reverse_reverse name, hrev]
        simp
      have hbehind : '.' ∉ behind.reverse := by simpa using hbehind
      rw [splitName_append _ hbehind] at h
      split at h
      · cases h
      next hne =>
        obtain rfl := Option.some.inj h
        exact ⟨_, hne, hbehind, rfl⟩
    · rw [splitName_of_notMem (by simpa using hdot)] at h
      cases h
  · rintro ⟨stem, hs, he, rfl⟩
    rw [splitName_append stem he, if_neg hs]

/-- **A file name has an extension** if a stem and a dot stand before it. -/
theorem extension?_eq_some_iff (h : IsName name) :
    extension? (lead ++ '/' :: name) = some extension ↔
      ∃ stem, stem ≠ [] ∧ '.' ∉ extension ∧ name = stem ++ '.' :: extension := by
  rw [extension?, h.parts?]
  exact splitName_eq_some_iff

theorem byteLength_append (p q : List Char) :
    Text.byteLength (p ++ q) = Text.byteLength p + Text.byteLength q := by
  induction p with
  | nil => rw [List.nil_append, Text.byteLength, Nat.zero_add]
  | cons c cs ih => rw [List.cons_append, Text.byteLength, Text.byteLength, ih, Nat.add_assoc]

theorem byteLength_reverse (cs : List Char) : Text.byteLength cs.reverse = Text.byteLength cs := by
  induction cs with
  | nil => rfl
  | cons c cs ih =>
    rw [List.reverse_cons, byteLength_append, ih, Nat.add_comm]
    rfl

theorem dropBytes_append (cs rest : List Char) :
    dropBytes (Text.byteLength cs) (cs ++ rest) = dropBytes 0 rest := by
  induction cs with
  | nil => rfl
  | cons c cs ih =>
    rw [List.cons_append, dropBytes, Text.byteLength, if_pos (Nat.le_add_right _ _),
      Nat.add_sub_cancel_left, ih]

theorem dropBytes_zero (cs : List Char) : dropBytes 0 cs = cs := by
  cases cs with
  | nil => rfl
  | cons c cs => rw [dropBytes, if_neg (Nat.not_le.2 c.utf8Size_pos)]

/-- The dot of an extension that is cut off stays. -/
theorem cutExtension_append (h : IsName (stem ++ '.' :: extension)) (hs : stem ≠ [])
    (he : '.' ∉ extension) :
    cutExtension (lead ++ '/' :: (stem ++ '.' :: extension)) = lead ++ '/' :: (stem ++ ['.']) := by
  have hrev : (lead ++ '/' :: (stem ++ '.' :: extension)).reverse
      = extension.reverse ++ (lead ++ '/' :: (stem ++ ['.'])).reverse := by simp
  rw [cutExtension, (extension?_eq_some_iff h).2 ⟨stem, hs, he, rfl⟩]
  simp only [hrev, ← byteLength_reverse extension, dropBytes_append, dropBytes_zero,
    List.reverse_reverse]

/-- **Another extension takes the place of one**, behind the dot. A stem that is a dot would be left
with another dot as its name, which is the way up. -/
theorem withExtension?_of_extension {path : String} {extension' : String}
    (hpath : path.toList = lead ++ '/' :: (stem ++ '.' :: extension))
    (h : IsName (stem ++ '.' :: extension)) (hs : stem ≠ []) (he : '.' ∉ extension)
    (hslash : '/' ∉ extension'.toList) (hne : extension' ≠ "") :
    withExtension? path extension' = some (String.ofList (lead ++ '/' ::
      if stem = ['.'] then ['.', '.'] else stem ++ '.' :: extension'.toList)) := by
  rw [withExtension?, if_neg hslash, hpath, cutExtension_append h hs he, putExtension]
  have hslash' : '/' ∉ stem ++ ['.'] := by
    rw [List.mem_append, not_or]
    exact ⟨fun hm => h.slash (List.mem_append_left _ hm), by decide⟩
  rw [parts?_append hslash' (by simp) (by simpa using hs)]
  by_cases hdot : stem = ['.']
  · subst hdot
    rfl
  · have hdots : stem ++ ['.'] ≠ ['.', '.'] := fun heq =>
      hdot (List.append_inj_left' (heq : stem ++ ['.'] = ['.'] ++ ['.']) rfl)
    rw [if_neg hdots, if_neg hdot]
    simp only [splitName_append stem List.not_mem_nil, if_neg hs]
    rw [if_neg (by simpa using hne)]
    simp

/-! ## The last piece -/

/-- **A path has a last piece**: all of it, or what stands behind its last slash. -/
theorem exists_last (path : List Char) : ∃ ps name, pieces path = ps ++ [name] ∧ '/' ∉ name ∧
    (path = name ∨ ∃ lead, path = lead ++ '/' :: name) := by
  by_cases h : '/' ∈ path.reverse
  · obtain ⟨behind, before, hrev, hbehind⟩ := List.eq_append_cons_of_mem h
    obtain rfl : path = before.reverse ++ '/' :: behind.reverse := by
      rw [← List.reverse_reverse path, hrev]
      simp
    have hname : '/' ∉ behind.reverse := by simpa using hbehind
    exact ⟨_, _, by rw [pieces_append, pieces_of_notMem hname], hname, .inr ⟨_, rfl⟩⟩
  · have hname : '/' ∉ path := by simpa using h
    exact ⟨[], path, pieces_of_notMem hname, hname, .inl rfl⟩

/-- **A path that is more than a name** is a name in a directory, which ends in a slash. -/
theorem exists_join_of_mem {path : String} (h : '/' ∈ path.toList) :
    ∃ lead name : List Char, '/' ∉ name ∧
      path = String.ofList (lead ++ ['/']) ++ String.ofList name ∧
      path = join (String.ofList (lead ++ ['/'])) (String.ofList name) := by
  obtain ⟨-, name, -, hslash, hpath⟩ := exists_last path.toList
  obtain ⟨lead, hpath⟩ := hpath.resolve_left fun heq => hslash (heq ▸ h)
  have happend : path = String.ofList (lead ++ ['/']) ++ String.ofList name := by
    rw [← String.ofList_append, List.append_assoc, ← String.ofList_toList (s := path), hpath]
    rfl
  refine ⟨lead, name, hslash, happend, ?_⟩
  rw [join, if_pos (by rw [String.toList_ofList, List.getLast?_concat]; rfl), ← happend]

/-- **The last piece that is not empty**, or an empty one if there is none. -/
def finalPiece (path : List Char) : List Char :=
  ((pieces path).reverse.dropWhile (· = [])).head?.getD []

theorem finalPiece_slash (path : List Char) : finalPiece (path ++ ['/']) = finalPiece path := by
  rw [finalPiece, pieces_append, List.reverse_append]
  rfl

theorem finalPiece_of_pieces {ps : List (List Char)} (h : pieces path = ps ++ [name])
    (hne : name ≠ []) : finalPiece path = name := by
  rw [finalPiece, h, List.reverse_append, List.reverse_singleton, List.singleton_append,
    List.dropWhile_cons_of_neg (by simpa using hne)]
  rfl

theorem parts?_slash (path : List Char) : parts? (path ++ ['/']) = parts? path := by
  rw [parts?, parts?, List.reverse_append]
  rfl

/-- The last piece of a path that does not end in a slash is not empty. -/
theorem last_ne_nil {c : Char} (hc : c ≠ '/')
    (h : path ++ [c] = name ∨ ∃ lead, path ++ [c] = lead ++ '/' :: name) : name ≠ [] := by
  rintro rfl
  obtain h | ⟨lead, h⟩ := h
  · simp at h
  · exact hc (List.cons.inj (List.append_inj' h rfl).2).1

theorem parts?_of_isName (h : IsName name) : parts? name = some ⟨[], name⟩ := by
  have hslash : ∀ c ∈ name.reverse, (decide (c ≠ '/')) = true := by
    intro c hc
    simpa using ne_of_mem_of_not_mem (List.mem_reverse.1 hc) h.slash
  have htrim : trimReversed name.reverse = name.reverse := by
    have hdot : name.reverse ≠ ['.'] := fun hd => h.ne_dot (by simpa using congrArg List.reverse hd)
    have hslash : '/' ∉ name.reverse := by simpa using h.slash
    have hself := trimReversed_append hslash (by simpa using h.ne_nil) hdot []
    rwa [List.append_nil] at hself
  rw [parts?, htrim]
  simp only [List.takeWhile_eq_self_iff.2 hslash, List.dropWhile_eq_nil_iff.2 hslash,
    List.reverse_reverse, h.ne_nil, h.ne_dot, h.ne_dots, false_or, if_false, List.reverse_nil]

/-- **A path whose last piece is no way to another place has a file name.** -/
theorem parts?_ne_none (hne : finalPiece path ≠ []) (hdot : finalPiece path ≠ ['.'])
    (hdots : finalPiece path ≠ ['.', '.']) : parts? path ≠ none := by
  induction path using List.reverseRecOn with
  | nil => exact absurd rfl hne
  | append_singleton path c ih =>
    by_cases hc : c = '/'
    · subst hc
      rw [finalPiece_slash] at hne hdot hdots
      rw [parts?_slash]
      exact ih hne hdot hdots
    · obtain ⟨ps, name, hps, hslash, hpath⟩ := exists_last (path ++ [c])
      rw [finalPiece_of_pieces hps (last_ne_nil hc hpath)] at hne hdot hdots
      have hname : IsName name := ⟨hslash, hne, hdot, hdots⟩
      obtain hpath | ⟨lead, hpath⟩ := hpath
      · rw [hpath, parts?_of_isName hname]
        exact Option.some_ne_none _
      · rw [hpath, hname.parts?]
        exact Option.some_ne_none _

theorem of_parts? {p : Parts} (h : parts? path = some p) : '/' ∉ p.name ∧ p.name ≠ [] := by
  unfold parts? at h
  dsimp only at h
  split at h
  · cases h
  · next hname =>
    obtain rfl := Option.some.inj h
    rw [not_or] at hname
    refine ⟨fun hm => ?_, hname.1⟩
    have hne := List.mem_takeWhile_imp (List.mem_reverse.1 hm)
    simp at hne

/-- The stem of a name is not empty, and has no character that the name has not. -/
theorem stem_of_name (h : name ≠ []) :
    (splitName name).1 ≠ [] ∧ ∀ c ∈ (splitName name).1, c ∈ name := by
  unfold splitName
  dsimp only
  split
  · exact ⟨h, fun c hc => hc⟩
  · next hstem =>
    refine ⟨hstem, fun c hc => ?_⟩
    have hc := List.mem_of_mem_drop (List.mem_reverse.1 hc)
    exact List.mem_reverse.1 ((List.dropWhile_sublist _).subset hc)

/-- **The path of an output file ends in a slash only if it has no file name.** -/
theorem getLast?_withExtension? {path extension target : String}
    (h : withExtension? path extension = some target) (hparts : parts? target.toList ≠ none) :
    target.toList.getLast? ≠ some '/' := by
  rw [withExtension?] at h
  split at h
  · cases h
  next hslash =>
  obtain rfl := Option.some.inj h
  rw [String.toList_ofList] at hparts ⊢
  rw [putExtension] at hparts ⊢
  split at hparts
  · next hnone => exact absurd hnone hparts
  next p hp =>
  obtain ⟨hname, hne⟩ := of_parts? hp
  obtain ⟨hstem, hmem⟩ := stem_of_name hne
  intro hlast
  rw [List.append_assoc,
    List.getLast?_append_of_ne_nil _ (List.append_ne_nil_of_left_ne_nil hstem _)] at hlast
  obtain hm | hm := List.mem_append.1 (List.mem_of_getLast? hlast)
  · exact hname (hmem _ hm)
  · split at hm
    · cases hm
    · obtain hm | hm := List.mem_cons.1 hm
      · cases hm
      · exact hslash hm

end JackStack.Path
