import Qumode.CommandLine.Files
import Qumode.Proofs.Steps

/-!
# What writing a file changes

A path leads through directories to a location. A file that is written stands at the location of its
path, reads back as the text that was written, and is all that changes: every directory on the way
was there before, so nothing else comes to stand anywhere.
-/

namespace Qumode.CommandLine

namespace Files

variable {files after : Files} {here there location : Location} {content : ByteArray}
  {path last text : String}

/-! ## Directories on the way -/

/-- Something stands at a location and everywhere above it. -/
def Stands (files : Files) (here : Location) : Prop :=
  ∀ above, above <+: here → files.find? above ≠ none

/-- The working directory and what is above it are always there. -/
theorem stands_of_dots (dots : here.all (· = "..") = true) : files.Stands here := by
  intro above isAbove
  have dots_above : above.all (· = "..") = true := by
    rw [List.all_eq_true] at dots ⊢
    exact fun name inside => dots name (isAbove.subset inside)
  rw [find?]
  split
  · nofun
  · rw [dots_above]
    nofun

theorem Stands.of_above (stands : files.Stands here) (above : there <+: here) :
    files.Stands there :=
  fun _ isAbove => stands _ (isAbove.trans above)

/-- A location stands when something is found in a directory that stands. -/
theorem Stands.push {name : String} (stands : files.Stands here)
    (found : files.find? (here ++ [name]) ≠ none) : files.Stands (here ++ [name]) := by
  intro above isAbove
  rcases List.prefix_concat_iff.1 isAbove with rfl | isAbove
  · exact found
  · exact stands _ isAbove

/-- What holds a standing location stands. -/
theorem Stands.parent (stands : files.Stands here) : files.Stands here.parent := by
  rw [Location.parent]
  split
  · exact stands
  · split
    case isTrue dots =>
      refine stands_of_dots ?_
      rw [List.all_append, dots]
      rfl
    case isFalse => exact stands.of_above (List.dropLast_prefix here)

/-- What a walk comes to stands, if the walk began at something that stands. -/
theorem Stands.walk {names : List String} (stands : files.Stands here)
    (walked : files.walk here names = .ok there) : files.Stands there := by
  fun_induction Files.walk files here names with
  | case1 here =>
    cases walked
    exact stands
  | case2 here rest ih => exact ih stands walked
  | case3 here rest ih => exact ih stands walked
  | case4 here rest ih => exact ih stands.parent walked
  | case5 => cases walked
  | case6 => cases walked
  | case7 => cases walked
  | case8 here name rest _ _ _ _ found ih =>
    exact ih (stands.push (by rw [found]; nofun)) walked

/-- A walk takes the same way where all directories on it are kept. -/
theorem walk_of_directories_kept {names : List String}
    (kept : ∀ l, files.find? l = some .directory → after.find? l = some .directory)
    (walked : files.walk here names = .ok there) : after.walk here names = .ok there := by
  fun_induction Files.walk files here names with
  | case1 here => exact walked
  | case2 here rest ih => exact ih walked
  | case3 here rest ih => exact ih walked
  | case4 here rest ih => exact ih walked
  | case5 => cases walked
  | case6 => cases walked
  | case7 => cases walked
  | case8 here name rest notEmpty notPoint notPoints short found ih =>
    rw [Files.walk, if_neg short, kept _ found]
    · exact ih walked
    · exact notEmpty
    · exact notPoint
    · exact notPoints

/-! ## One more file -/

/-- Entries for one key are found whatever happens to the entries of another. -/
theorem lookup_filter_ne {l other : Location} (different : other ≠ l)
    (entries : List (Location × Entry)) :
    (entries.filter fun (l', _) => l' ≠ l).lookup other = entries.lookup other := by
  induction entries with
  | nil => rfl
  | cons entry rest ih =>
    obtain ⟨l', what⟩ := entry
    by_cases same : l' = l
    · have passedOver : (other == l') = false := by simp [same, different]
      rw [List.filter_cons_of_neg (by simpa using same), ih, List.lookup_cons, passedOver]
    · rw [List.filter_cons_of_pos (by simpa using same), List.lookup_cons, List.lookup_cons, ih]

/-- A file that is put is found where it is put. -/
theorem find?_put_self : (files.put location content).find? location = some (.file content) := by
  simp [find?, put]

/-- After a file is put somewhere, a location leads on to an entry if it did before or is on the way
to the file. -/
theorem any_put {other : Location} :
    (files.put location content).entries.any (fun (l, _) => other.isPrefixOf l) =
      (other.isPrefixOf location || files.entries.any fun (l, _) => other.isPrefixOf l) := by
  cases way : other.isPrefixOf location with
  | true => simp only [put, List.any_cons, way, Bool.true_or]
  | false =>
    simp only [put, List.any_cons, way, Bool.false_or, List.any_filter]
    refine List.any_congr rfl fun (l, _) => ?_
    by_cases same : l = location
    · rw [same, way, Bool.and_false]
    · simp [same]

/-- A file that is put into a directory is all that changes. -/
theorem find?_put_of_ne {other : Location} (stands : files.Stands here)
    (different : other ≠ here ++ [last]) :
    (files.put (here ++ [last]) content).find? other = files.find? other := by
  have passedOver : (other == here ++ [last]) = false := by simpa using different
  have kept : (files.put (here ++ [last]) content).entries.lookup other =
      files.entries.lookup other := by
    rw [put, List.lookup_cons, passedOver]
    exact lookup_filter_ne different files.entries
  cases way : other.isPrefixOf (here ++ [last]) with
  | false => rw [find?, find?, kept, any_put, way, Bool.false_or]
  | true =>
    -- what is on the way to the file was there already
    have isAbove : other <+: here :=
      (List.prefix_concat_iff.1 (List.isPrefixOf_iff_prefix.1 way)).resolve_left different
    have stood := stands other isAbove
    rw [find?] at stood
    rw [find?, find?, kept, any_put, way]
    cases found : files.entries.lookup other with
    | some entry => rfl
    | none =>
      rw [found] at stood
      dsimp only at stood ⊢
      rw [if_pos (by simp), if_pos (by by_contra absent; exact stood (if_neg absent))]

/-! ## Writing -/

/-- A path leads to a name in a directory. -/
structure LeadsTo (files : Files) (path : String) (here : Location) (last : String) : Prop where
  way : ∃ before, split? path = some (before, last) ∧ files.walk [] before = .ok here
  name : last ∉ ["", ".", ".."]
  short : last.utf8ByteSize ≤ 255

/-- The directory that a path leads to is there. -/
theorem LeadsTo.stands (leads : files.LeadsTo path here last) : files.Stands here :=
  have ⟨_, _, walked⟩ := leads.way
  (stands_of_dots rfl).walk walked

/-- A path that leads to an entry resolves to it. -/
theorem LeadsTo.resolve_eq {entry : Entry} (leads : files.LeadsTo path here last)
    (found : files.find? (here ++ [last]) = some entry) : files.resolve path = .ok entry := by
  obtain ⟨before, parts, walked⟩ := leads.way
  simp only [resolve, parts]
  refine Steps.bind_eq_ok.2 ⟨here, walked, ?_⟩
  rw [if_neg leads.name, if_neg (Nat.not_lt.2 leads.short), found]
  rfl

/-- A text is the only text of its bytes. -/
theorem fromUTF8?_toUTF8 (text : String) : String.fromUTF8? text.toUTF8 = some text := by
  simp only [String.fromUTF8?, String.toUTF8_eq_toByteArray, dif_pos text.isValidUTF8]
  rfl

/-- A path that leads to a text reads it. -/
theorem LeadsTo.read_eq (leads : files.LeadsTo path here last)
    (found : files.find? (here ++ [last]) = some (.file text.toUTF8)) :
    files.read path = .ok text := by
  rw [read]
  refine Steps.bind_eq_ok.2 ⟨_, leads.resolve_eq found, ?_⟩
  simp only [fromUTF8?_toUTF8]
  rfl

/-- A file can be written at a path: it leads to a name, and not to that of a directory. -/
def Writable (files : Files) (path : String) : Prop :=
  ∃ here last, files.LeadsTo path here last ∧ files.find? (here ++ [last]) ≠ some .directory

/-- A path with a slash at its end has an empty last name. -/
theorem getLastD_pathNames_slash (front : List Char) :
    (pathNames (String.ofList (front ++ ['/']))).getLastD "" = "" := by
  rw [pathNames, String.toList_ofList, List.splitOn, List.splitOnP_append_cons front [] rfl]
  simp

/-- A path with a name at its end does not end in a slash. -/
theorem withoutLastSlashes_of_named {before : List String}
    (parts : split? path = some (before, last)) (named : last ≠ "") :
    withoutLastSlashes path = path := by
  have kept : path.toList.reverse.dropWhile (· = '/') = path.toList.reverse := by
    cases reversed : path.toList.reverse with
    | nil => rfl
    | cons a rest =>
      refine List.dropWhile_cons_of_neg fun slash => named ?_
      have ends : path = String.ofList (rest.reverse ++ ['/']) := by
        rw [← String.ofList_toList (s := path), ← List.reverse_reverse path.toList, reversed,
          List.reverse_cons, of_decide_eq_true slash]
      rw [split?] at parts
      split at parts
      · cases parts
      · cases parts
        rw [ends, getLastD_pathNames_slash]
  rw [withoutLastSlashes, kept, List.reverse_reverse, String.ofList_toList]

/-- Writing puts the bytes of the text where the path leads to. -/
theorem write_eq_ok_iff : files.write path text = .ok after ↔
    ∃ here last, files.LeadsTo path here last ∧ files.find? (here ++ [last]) ≠ some .directory ∧
      after = files.put (here ++ [last]) text.toUTF8 := by
  constructor
  · intro written
    rw [write] at written
    split at written
    case h_2 => cases written
    case h_1 before last parts =>
      obtain ⟨here, walked, rest⟩ := Steps.bind_eq_ok.1 written
      split at rest
      case isTrue => cases rest
      case isFalse usable =>
        obtain ⟨untrimmed, name⟩ : withoutLastSlashes path = path ∧ last ∉ ["", ".", ".."] := by
          simpa only [Bool.or_eq_true, decide_eq_true_eq, not_or, ne_eq, not_not] using usable
        rw [untrimmed] at parts
        split at rest
        case isTrue => cases rest
        case isFalse short =>
          split at rest
          case isTrue => cases rest
          case isFalse noDirectory =>
            cases rest
            exact ⟨here, last, ⟨⟨before, parts, walked⟩, name, Nat.le_of_not_lt short⟩,
              noDirectory, rfl⟩
  · rintro ⟨here, last, leads, noDirectory, rfl⟩
    obtain ⟨before, parts, walked⟩ := leads.way
    have untrimmed : withoutLastSlashes path = path :=
      withoutLastSlashes_of_named parts fun empty => leads.name (empty ▸ List.mem_cons_self)
    simp only [write, untrimmed, parts]
    refine Steps.bind_eq_ok.2 ⟨here, walked, ?_⟩
    rw [if_neg (by simpa using leads.name), if_neg (Nat.not_lt.2 leads.short),
      if_neg noDirectory]
    rfl

/-- A file is written just when its path is writable. -/
theorem write_isOk_iff :
    (∃ after, files.write path text = .ok after) ↔ files.Writable path := by
  simp only [write_eq_ok_iff]
  constructor
  · rintro ⟨_, here, last, leads, noDirectory, -⟩
    exact ⟨here, last, leads, noDirectory⟩
  · rintro ⟨here, last, leads, noDirectory⟩
    exact ⟨_, here, last, leads, noDirectory, rfl⟩

/-- A file that could be written is at the location of its path, reads back as its text, and is all
that changed. -/
theorem write_spec (written : files.write path text = .ok after) :
    ∃ here last, files.LeadsTo path here last ∧
      after.find? (here ++ [last]) = some (.file text.toUTF8) ∧ after.read path = .ok text ∧
      ∀ other, other ≠ here ++ [last] → after.find? other = files.find? other := by
  obtain ⟨here, last, leads, noDirectory, rfl⟩ := write_eq_ok_iff.1 written
  have unchanged : ∀ other, other ≠ here ++ [last] →
      (files.put (here ++ [last]) text.toUTF8).find? other = files.find? other :=
    fun _ => find?_put_of_ne leads.stands
  have kept : (files.put (here ++ [last]) text.toUTF8).LeadsTo path here last := by
    obtain ⟨before, parts, walked⟩ := leads.way
    refine ⟨⟨before, parts, walk_of_directories_kept ?_ walked⟩, leads.name, leads.short⟩
    intro l isDirectory
    rw [unchanged l fun same => noDirectory (same ▸ isDirectory), isDirectory]
  exact ⟨here, last, leads, find?_put_self, kept.read_eq find?_put_self, unchanged⟩

end Files

end Qumode.CommandLine
