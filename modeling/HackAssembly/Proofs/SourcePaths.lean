import HackAssembly.Build.File

/-!
# Where sources and outputs lie

The output of a source lies in the same directory, under the name of the source with another
extension. So no output is ever a source, and two sources share an output only if they are the same
file, however their paths are written: from the working directory, from the root, or by way of a
parent. A path leads to the same place for as long as the directories stay what they are, and to
read it no other file matters than the one at its end.
-/

namespace HackAssembly

/-! ### Names and locations -/

/-- What is put at the end of a path, without a slash, stays together with the last name. -/
theorem exists_splitOn_append (separator : UInt8) (path : Bytes) :
    ∃ front last, ∀ ending, separator ∉ ending →
      (path ++ ending).splitOn separator = front ++ [last ++ ending] := by
  by_cases h : separator ∈ path
  · obtain ⟨last, front, hpath, hlast⟩ := List.eq_append_cons_of_mem (List.mem_reverse.mpr h)
    have hsplit : path = front.reverse ++ separator :: last.reverse := by
      rw [← List.reverse_reverse path, hpath]
      simp
    refine ⟨front.reverse.splitOn separator, last.reverse, ?_⟩
    intro ending hending
    have hnot : separator ∉ last.reverse ++ ending := by simp [hlast, hending]
    rw [hsplit, List.append_assoc, List.cons_append, List.splitOn_append_cons_self,
      List.splitOn_eq_singleton hnot]
  · refine ⟨[], path, ?_⟩
    intro ending hending
    exact List.splitOn_eq_singleton (by simp [h, hending])

namespace Path

theorem exists_names_append (path : Bytes) :
    ∃ front last, ∀ ending, byte '/' ∉ ending → ending ≠ [] →
      names (path ++ ending) = front ++ [last ++ ending] := by
  obtain ⟨front, last, hsplit⟩ := exists_splitOn_append (byte '/') path
  refine ⟨front.filter (!·.isEmpty), last, ?_⟩
  intro ending hending hne
  have hlast : [last ++ ending].filter (!·.isEmpty) = [last ++ ending] := by simp [hne]
  rw [names, hsplit ending hending, List.filter_append, hlast]

theorem origin_append {ending : Bytes} (h : byte '/' ∉ ending) (home : Location) (path : Bytes) :
    origin home (path ++ ending) = origin home path := by
  have hbegins : beginsAtRoot (path ++ ending) = beginsAtRoot path := by
    cases path with
    | cons b rest => rfl
    | nil =>
        cases ending with
        | nil => rfl
        | cons b rest =>
            have hb : b ≠ byte '/' := fun hb => h (hb ▸ List.mem_cons_self)
            simp [beginsAtRoot, hb]
  rw [origin, origin, hbegins]

/-- A name of more than two bytes is looked for in the directory where it stands. -/
theorem follow_of_length {name : Bytes} (h : 2 < name.length) (dir : Location) :
    follow dir name = name :: dir := by
  have hself : name ≠ selfName := by
    rintro rfl
    exact absurd h (by decide)
  have hparent : name ≠ parentName := by
    rintro rfl
    exact absurd h (by decide)
  unfold follow
  rw [if_neg hself, if_neg hparent]

/-- The directory of a path does not depend on how its last name ends. -/
theorem exists_location_append (home : Location) (path : Bytes) :
    ∃ dir last, ∀ ending, byte '/' ∉ ending → 2 < ending.length →
      location home (path ++ ending) = (last ++ ending) :: dir := by
  obtain ⟨front, last, hnames⟩ := exists_names_append path
  refine ⟨front.foldl follow (origin home path), last, ?_⟩
  intro ending hending hlength
  have hne : ending ≠ [] := by
    rintro rfl
    exact absurd hlength (by decide)
  have hlast : 2 < (last ++ ending).length := by
    rw [List.length_append]
    omega
  rw [location, origin_append hending, hnames ending hending hne, List.foldl_append,
    List.foldl_cons, List.foldl_nil, follow_of_length hlast]

end Path

/-! ### Sources and their outputs -/

/-- Whether a path is one of an assembly source. -/
def IsSource (path : Bytes) : Prop := Bytes.endsWith path sourceExtension = true

/-- Where the output of a source lies in a working directory. -/
def outputLocation (home : Location) (path : Bytes) : Location :=
  Path.location home (outputPath path [])

theorem IsSource.exists_locations {path : Bytes} (h : IsSource path) (home : Location) :
    ∃ dir name, Path.location home path = (name ++ sourceExtension) :: dir ∧
      outputLocation home path = (name ++ outputExtension) :: dir := by
  obtain ⟨stem, rfl⟩ := List.isSuffixOf_iff_suffix.mp h
  obtain ⟨dir, name, hlocation⟩ := Path.exists_location_append home stem
  refine ⟨dir, name, hlocation sourceExtension (by decide) (by decide), ?_⟩
  have houtput : outputPath (stem ++ sourceExtension) [] = stem ++ outputExtension := by
    have hlength : (stem ++ sourceExtension).length - sourceExtension.length = stem.length := by
      rw [List.length_append, Nat.add_sub_cancel]
    have hends : Bytes.endsWith (stem ++ sourceExtension) sourceExtension = true := h
    rw [outputPath, List.isEmpty_nil, if_pos rfl, Bytes.withoutEnding, if_pos hends, hlength,
      List.take_left]
  rw [outputLocation, houtput]
  exact hlocation outputExtension (by decide) (by decide)

/-- The output of a source is never a source. -/
theorem IsSource.location_ne_output {path other : Bytes} (h : IsSource path)
    (hother : IsSource other) (home : Location) :
    Path.location home path ≠ outputLocation home other := by
  obtain ⟨dir, name, hpath, -⟩ := h.exists_locations home
  obtain ⟨dir', name', -, houtput⟩ := hother.exists_locations home
  rw [hpath, houtput]
  intro heq
  have hsource : (name ++ sourceExtension).getLast? = some (byte 'm') := by
    rw [List.getLast?_append]
    rfl
  have hhack : (name' ++ outputExtension).getLast? = some (byte 'k') := by
    rw [List.getLast?_append]
    rfl
  rw [(List.cons.inj heq).1, hhack] at hsource
  exact absurd hsource (by decide)

/-- Sources with the same output are the same file. -/
theorem IsSource.location_eq_of_output {path other : Bytes} (h : IsSource path)
    (hother : IsSource other) {home : Location}
    (houtput : outputLocation home path = outputLocation home other) :
    Path.location home path = Path.location home other := by
  obtain ⟨dir, name, hpath, hout⟩ := h.exists_locations home
  obtain ⟨dir', name', hpath', hout'⟩ := hother.exists_locations home
  rw [hout, hout'] at houtput
  obtain ⟨hname, rfl⟩ := List.cons.inj houtput
  rw [hpath, hpath', List.append_cancel_right hname]

/-! ### Resolving and reading -/

namespace Store

/-- The stores have the same directories, and among them the same working directory. -/
structure SameDirectories (s t : Store) : Prop where
  home_eq : s.home = t.home
  directory_iff : ∀ l, s.node? l = some .directory ↔ t.node? l = some .directory

theorem SameDirectories.refl (s : Store) : SameDirectories s s := ⟨rfl, fun _ => Iff.rfl⟩

theorem SameDirectories.symm {s t : Store} (h : SameDirectories s t) : SameDirectories t s :=
  ⟨h.home_eq.symm, fun l => (h.directory_iff l).symm⟩

theorem SameDirectories.trans {s t u : Store} (h : SameDirectories s t)
    (h' : SameDirectories t u) : SameDirectories s u :=
  ⟨h.home_eq.trans h'.home_eq, fun l => (h.directory_iff l).trans (h'.directory_iff l)⟩

theorem SameDirectories.locate_eq {s t : Store} (h : SameDirectories s t) (path : Bytes) :
    s.locate path = t.locate path := by
  rw [locate, locate, h.home_eq]

theorem eq_foldl_of_walk {s : Store} {dir l : Location} {names : List Bytes}
    (h : s.walk dir names = .ok l) : l = names.foldl Path.follow dir := by
  fun_induction walk s dir names with
  | case1 dir =>
      cases h
      rfl
  | case2 dir name =>
      cases h
      rfl
  | case3 => cases h
  | case4 => cases h
  | case5 dir name rest _ _ _ ih => exact ih h
  | case6 => cases h

theorem walk_congr {s t : Store} (hdirectories : SameDirectories s t) {dir l : Location}
    {names : List Bytes} (h : s.walk dir names = .ok l) : t.walk dir names = .ok l := by
  fun_induction walk s dir names with
  | case1 dir => exact h
  | case2 dir name => exact h
  | case3 => cases h
  | case4 => cases h
  | case5 dir name rest hrest hlength hdirectory ih =>
      rw [walk, if_neg hlength, (hdirectories.directory_iff _).mp hdirectory]
      · exact ih h
      · exact hrest
  | case6 => cases h

theorem resolve_eq_ok_iff {s : Store} {path : Bytes} {l : Location} :
    s.resolve path = .ok l ↔ 0 ∉ path ∧ path.length < Path.lengthBound ∧ path ≠ [] ∧
      s.walk (Path.origin s.home path) (Path.names path) = .ok l := by
  unfold resolve
  split
  · rename_i hzero
    simp [hzero]
  · rename_i hzero
    split
    · rename_i hlong
      simp [Nat.not_lt.mpr hlong]
    · rename_i hlength
      split
      · rename_i hempty
        simp [List.isEmpty_iff.mp hempty]
      · rename_i hempty
        simp_all

theorem location_of_resolve {s : Store} {path : Bytes} {l : Location}
    (h : s.resolve path = .ok l) : l = s.locate path :=
  eq_foldl_of_walk (resolve_eq_ok_iff.mp h).2.2.2

theorem resolve_congr {s t : Store} (h : SameDirectories s t) {path : Bytes} {l : Location} :
    s.resolve path = .ok l ↔ t.resolve path = .ok l := by
  have hwalk : ∀ dir names, s.walk dir names = .ok l ↔ t.walk dir names = .ok l :=
    fun _ _ => ⟨walk_congr h, walk_congr h.symm⟩
  rw [resolve_eq_ok_iff, resolve_eq_ok_iff, h.home_eq, hwalk]

/-- What is read is the file at the end of the path. -/
theorem read_eq_ok_iff {s : Store} {path data : Bytes} :
    s.read path = .ok data ↔ ∃ l, s.resolve path = .ok l ∧
      Path.endsInOverlongName path = false ∧ s.node? l = some (.file data) ∧
      Path.endsInSlash path = false := by
  unfold read
  cases hresolve : s.resolve path with
  | error fault => simp
  | ok l =>
      cases hlong : Path.endsInOverlongName path with
      | true => simp
      | false =>
          rcases hnode : s.node? l with _ | ⟨found⟩ | _ | _
          · simp [hnode]
          · cases hslash : Path.endsInSlash path <;> simp [hnode]
          · simp [hnode]
          · simp [hnode]

theorem read_congr {s t : Store} (h : SameDirectories s t) {path : Bytes}
    (hnode : s.node? (s.locate path) = t.node? (s.locate path)) {data : Bytes} :
    s.read path = .ok data ↔ t.read path = .ok data := by
  rw [read_eq_ok_iff, read_eq_ok_iff]
  apply exists_congr
  intro l
  rw [← resolve_congr h]
  apply and_congr_right
  intro hresolve
  rw [location_of_resolve hresolve, hnode]

theorem create_eq_ok_iff {s : Store} {path : Bytes} {l : Location} :
    s.create path = .ok l ↔ s.resolve path = .ok l ∧ Path.endsInSlash path = false ∧
      s.node? l ≠ some .directory ∧ Path.endsInOverlongName path = false := by
  unfold create
  cases hresolve : s.resolve path with
  | error fault => simp
  | ok m =>
      dsimp only
      split
      · rename_i hdirectory
        simp only [reduceCtorEq, Except.ok.injEq, false_iff]
        rintro ⟨rfl, hslash, hnode, -⟩
        rcases hdirectory with h | h
        · rw [hslash] at h
          cases h
        · exact hnode h
      · rename_i hfile
        rw [not_or, Bool.not_eq_true] at hfile
        split
        · rename_i hlong
          simp only [reduceCtorEq, Except.ok.injEq, false_iff]
          rintro ⟨rfl, -, -, hshort⟩
          rw [hlong] at hshort
          cases hshort
        · rename_i hshort
          rw [Bool.not_eq_true] at hshort
          constructor
          · rintro ⟨rfl⟩
            exact ⟨rfl, hfile.1, hfile.2, hshort⟩
          · rintro ⟨⟨rfl⟩, -⟩
            rfl

theorem location_of_create {s : Store} {path : Bytes} {l : Location}
    (h : s.create path = .ok l) : l = s.locate path :=
  location_of_resolve (create_eq_ok_iff.mp h).1

theorem create_congr {s t : Store} (h : SameDirectories s t) {path : Bytes} {l : Location} :
    s.create path = .ok l ↔ t.create path = .ok l := by
  rw [create_eq_ok_iff, create_eq_ok_iff, resolve_congr h, Ne, Ne, h.directory_iff l]

end Store

end HackAssembly
