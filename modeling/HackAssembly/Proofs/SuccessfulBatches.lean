import HackAssembly.Proofs.Batches

/-!
# Successful batches

Whether a source can be built depends on the directories, the devices and the sources of a store
(`Store.SameInputs`), and a build that succeeds leaves all of these as they are: it only writes its
output. Builds that succeed therefore succeed in every order and a second time, and what is left to
show is about writing outputs: two outputs can be written in any order, for at the same place they
hold the same words, and writing one twice is writing it once. So it makes no difference how many
files are built at once, or which of them are finished first (`buildBatch_of_builds`).
-/

namespace HackAssembly

/-- Sources with the same output have the same words. -/
def AgreeOnOutputs (home : Location) (words : Bytes → List Word) (paths : List Bytes) : Prop :=
  ∀ path ∈ paths, ∀ other ∈ paths, outputLocation home path = outputLocation home other →
    words path = words other

namespace Store

/-! ### Writing outputs -/

/-- A file can be written at a location: there is one, or there is nothing. -/
def Writable (s : Store) (l : Location) : Prop :=
  s.node? l ≠ some .directory ∧ s.node? l ≠ some .full

instance (s : Store) (l : Location) : Decidable (s.Writable l) :=
  inferInstanceAs (Decidable (_ ∧ _))

/-- The store with words written at a location. A directory and a full device stay what they are. -/
def withWords (s : Store) (l : Location) (words : List Word) : Store :=
  if s.Writable l then s.insert l (.file (codeText words)) else s

/-- The store with the outputs of several sources, written in order. -/
def withOutputs (s : Store) (home : Location) (words : Bytes → List Word) (paths : List Bytes) :
    Store :=
  paths.foldl (fun s path => s.withWords (outputLocation home path) (words path)) s

section

variable {s : Store} {l k : Location} {words words' : List Word}

theorem withWords_of_writable (h : s.Writable l) :
    s.withWords l words = s.insert l (.file (codeText words)) := if_pos h

theorem withWords_of_not_writable (h : ¬s.Writable l) : s.withWords l words = s := if_neg h

@[simp]
theorem home_withWords (s : Store) (l : Location) (words : List Word) :
    (s.withWords l words).home = s.home := by
  rw [withWords]
  split <;> rfl

theorem node?_withWords (s : Store) (l : Location) (words : List Word) (other : Location) :
    (s.withWords l words).node? other =
      if l = other ∧ s.Writable other then some (.file (codeText words)) else s.node? other := by
  by_cases hl : s.Writable l
  · rw [withWords_of_writable hl, node?_insert_of_ne_directory hl.1]
    by_cases heq : l = other
    · rw [if_pos heq, if_pos ⟨heq, heq ▸ hl⟩]
    · rw [if_neg heq, if_neg fun h => heq h.1]
  · rw [withWords_of_not_writable hl, if_neg]
    rintro ⟨rfl, h⟩
    exact hl h

/-- Directories and devices stay what they are, and no others appear. -/
theorem node?_withWords_iff {n : Node} (hn : n = .directory ∨ n = .full) (s : Store) (l : Location)
    (words : List Word) (other : Location) :
    (s.withWords l words).node? other = some n ↔ s.node? other = some n := by
  rw [node?_withWords]
  split
  · rename_i hwritten
    rcases hn with rfl | rfl
    · simp [hwritten.2.1]
    · simp [hwritten.2.2]
  · exact Iff.rfl

theorem writable_withWords_iff (s : Store) (l : Location) (words : List Word) (other : Location) :
    (s.withWords l words).Writable other ↔ s.Writable other :=
  and_congr (not_congr (node?_withWords_iff (Or.inl rfl) s l words other))
    (not_congr (node?_withWords_iff (Or.inr rfl) s l words other))

theorem withWords_withWords (s : Store) (l : Location) (words : List Word) :
    (s.withWords l words).withWords l words = s.withWords l words := by
  by_cases hl : s.Writable l
  · have hstill := (writable_withWords_iff s l words l).mpr hl
    rw [withWords_of_writable hstill, withWords_of_writable hl, insert_insert]
  · rw [withWords_of_not_writable hl, withWords_of_not_writable hl]

/-- Words can be written in any order at two locations, if they are the same words where the
locations are the same. -/
theorem withWords_comm (hsame : l = k → words = words') (s : Store) :
    (s.withWords l words).withWords k words' = (s.withWords k words').withWords l words := by
  by_cases hlocation : l = k
  · rw [hlocation, hsame hlocation]
  · -- whether a file can be written at one location is not changed by writing at the other
    have hk := writable_withWords_iff s l words k
    have hl := writable_withWords_iff s k words' l
    by_cases hwritable : s.Writable l
    · by_cases hwritable' : s.Writable k
      · rw [withWords_of_writable (hk.mpr hwritable'), withWords_of_writable (hl.mpr hwritable),
          withWords_of_writable hwritable, withWords_of_writable hwritable',
          insert_comm s hlocation]
      · rw [withWords_of_not_writable hwritable', withWords_of_not_writable (mt hk.mp hwritable')]
    · rw [withWords_of_not_writable hwritable, withWords_of_not_writable (mt hl.mp hwritable)]

end

section

variable {home : Location} {words : Bytes → List Word} {paths : List Bytes}

theorem withOutputs_perm (hsame : AgreeOnOutputs home words paths) {paths' : List Bytes}
    (hperm : paths.Perm paths') (s : Store) :
    s.withOutputs home words paths = s.withOutputs home words paths' := by
  apply hperm.foldl_eq'
  intro path hpath other hother t
  exact withWords_comm (hsame path hpath other hother) t

/-- An output that has been written among others is not changed by writing it again. -/
theorem withWords_withOutputs (hsame : AgreeOnOutputs home words paths) {path : Bytes}
    (hpath : path ∈ paths) (s : Store) :
    (s.withOutputs home words paths).withWords (outputLocation home path) (words path) =
      s.withOutputs home words paths := by
  have hperm : paths.Perm (paths.erase path ++ [path]) :=
    (List.perm_cons_erase hpath).trans (List.perm_append_singleton path _).symm
  have hlast : s.withOutputs home words (paths.erase path ++ [path]) =
      (s.withOutputs home words (paths.erase path)).withWords (outputLocation home path)
        (words path) := by
    rw [withOutputs, withOutputs, List.foldl_append, List.foldl_cons, List.foldl_nil]
  rw [withOutputs_perm hsame hperm, hlast, withWords_withWords]

theorem withOutputs_eq_self {s : Store}
    (h : ∀ path ∈ paths, s.withWords (outputLocation home path) (words path) = s) :
    s.withOutputs home words paths = s := by
  induction paths with
  | nil => rfl
  | cons path paths ih =>
      have hrest := ih fun other hother => h other (List.mem_cons_of_mem path hother)
      rw [withOutputs] at hrest
      rw [withOutputs, List.foldl_cons, h path List.mem_cons_self, hrest]

/-- Writing several outputs twice is writing them once. -/
theorem withOutputs_withOutputs (hsame : AgreeOnOutputs home words paths) (s : Store) :
    (s.withOutputs home words paths).withOutputs home words paths =
      s.withOutputs home words paths :=
  withOutputs_eq_self fun _ hpath => withWords_withOutputs hsame hpath s

end

/-! ### What decides whether a source can be built -/

/-- The stores have the same directories, the same devices and the same sources. -/
structure SameInputs (s t : Store) : Prop where
  directories : s.SameDirectories t
  devices : ∀ l, s.node? l = some .full ↔ t.node? l = some .full
  sources : ∀ path, IsSource path → s.node? (s.locate path) = t.node? (s.locate path)

theorem SameInputs.refl (s : Store) : SameInputs s s :=
  ⟨.refl s, fun _ => Iff.rfl, fun _ _ => rfl⟩

theorem SameInputs.symm {s t : Store} (h : SameInputs s t) : SameInputs t s where
  directories := h.directories.symm
  devices := fun l => (h.devices l).symm
  sources := by
    intro path hpath
    rw [← h.directories.locate_eq, h.sources path hpath]

theorem SameInputs.trans {s t u : Store} (h : SameInputs s t) (h' : SameInputs t u) :
    SameInputs s u where
  directories := h.directories.trans h'.directories
  devices := fun l => (h.devices l).trans (h'.devices l)
  sources := by
    intro path hpath
    rw [h.sources path hpath, h.directories.locate_eq, h'.sources path hpath]

/-- The source at a path can be built: it can be translated, its output can be created, and if that
is a full device there is nothing to write to it. -/
structure Builds (s : Store) (path : Bytes) (built : Built) : Prop where
  translated : s.translate path = .ok built
  creatable : s.create (outputPath path []) = .ok (outputLocation s.home path)
  taken : s.node? (outputLocation s.home path) = some .full → built.words = []

variable {s t : Store} {path other : Bytes} {built : Built}

theorem Builds.congr (h : s.Builds path built) (hpath : IsSource path) (hst : SameInputs s t) :
    t.Builds path built where
  translated := by
    obtain ⟨text, hread, hwords⟩ := translate_eq_ok_iff.mp h.translated
    have hread' := (read_congr hst.directories (hst.sources path hpath)).mp hread
    exact translate_eq_ok_iff.mpr ⟨text, hread', hwords⟩
  creatable := by
    rw [← hst.directories.home_eq]
    exact (create_congr hst.directories).mp h.creatable
  taken := by
    rw [← hst.directories.home_eq]
    exact fun hfull => h.taken ((hst.devices _).mpr hfull)

/-- Sources that can be built and have the same output are the same file, with the same words. -/
theorem Builds.words_eq (h : s.Builds path built) (hpath : IsSource path) {built' : Built}
    (h' : s.Builds other built') (hother : IsSource other)
    (hlocation : outputLocation s.home path = outputLocation s.home other) :
    built.words = built'.words :=
  words_eq_of_translate h.translated h'.translated
    (hpath.location_eq_of_output hother hlocation)

/-- Writing an output changes nothing that decides whether a source can be built. -/
theorem sameInputs_withWords (hpath : IsSource path) (s : Store) (words : List Word) :
    SameInputs s (s.withWords (outputLocation s.home path) words) where
  directories := ⟨(home_withWords s _ words).symm,
    fun l => (node?_withWords_iff (Or.inl rfl) s _ words l).symm⟩
  devices := fun l => (node?_withWords_iff (Or.inr rfl) s _ words l).symm
  sources := by
    intro other hother
    have hne : outputLocation s.home path ≠ s.locate other :=
      (hother.location_ne_output hpath s.home).symm
    rw [node?_withWords, if_neg fun hl => hne hl.1]

end Store

/-! ### Builds that succeed -/

section

variable {s : Store} {path : Bytes} {built : Built}

theorem builds_of_result (h : (buildFile s none path (outputPath path [])).result = .ok built) :
    s.Builds path built := by
  rcases buildFile_ending s none path (outputPath path []) with
    ⟨-, found, l, hfound, htranslate, hcreate, hstore⟩ | ⟨-, e, hfailed, -⟩ | ⟨⟨e, hfailed⟩, -⟩
  · obtain rfl := Except.ok.inj (hfound.symm.trans h)
    obtain rfl := Store.location_of_create hcreate
    refine ⟨htranslate, hcreate, ?_⟩
    intro hfull
    rcases hstore with ⟨hfile, -⟩ | ⟨-, hwords, -⟩
    · exact absurd hfull hfile
    · exact hwords
  · cases hfailed.symm.trans h
  · cases hfailed.symm.trans h

/-- A source that can be built is built, and its output is written. -/
theorem buildFile_of_builds (h : s.Builds path built) :
    (buildFile s none path (outputPath path [])).result = .ok built ∧
      (buildFile s none path (outputPath path [])).store =
        s.withWords (outputLocation s.home path) built.words := by
  rcases buildFile_ending s none path (outputPath path []) with
    ⟨-, found, l, hfound, htranslate, hcreate, hstore⟩ | ⟨-, e, -, ⟨-, limit, hlimit, -⟩ |
      hsource | ⟨fault, -, hrefused⟩⟩ | ⟨-, found, l, htranslate, hwords, hcreate, hfull, -⟩
  · obtain rfl := Except.ok.inj (htranslate.symm.trans h.translated)
    obtain rfl := Store.location_of_create hcreate
    refine ⟨hfound, ?_⟩
    rcases hstore with ⟨hfile, hstore⟩ | ⟨hfull, -, hstore⟩
    · have hwritable : s.Writable (outputLocation s.home path) :=
        ⟨Store.node?_ne_directory_of_create hcreate, hfile⟩
      rw [hstore, Store.withWords_of_writable hwritable]
      rfl
    · have hdevice : ¬s.Writable (outputLocation s.home path) := fun h => h.2 hfull
      rw [hstore, Store.withWords_of_not_writable hdevice]
  · cases hlimit
  · cases hsource.symm.trans h.translated
  · cases hrefused.symm.trans h.creatable
  · obtain rfl := Except.ok.inj (htranslate.symm.trans h.translated)
    obtain rfl := Store.location_of_create hcreate
    exact absurd (h.taken hfull) hwords

end

namespace Batch

variable {s : Store} {paths : List Bytes} {result : Bytes → Built}

/-- Sources that can be built at the start are all built: what one build writes is no concern of the
others. -/
theorem run_of_builds (hpaths : ∀ path ∈ paths, IsSource path)
    (h : ∀ path ∈ paths, s.Builds path (result path)) :
    (run s none [] paths).failure? = none ∧ (run s none [] paths).built = paths.map result ∧
      (run s none [] paths).store =
        s.withOutputs s.home (fun path => (result path).words) paths ∧
      s.SameInputs (run s none [] paths).store := by
  induction paths generalizing s with
  | nil => exact ⟨rfl, rfl, rfl, .refl s⟩
  | cons path rest ih =>
      have hpath := hpaths path List.mem_cons_self
      have hbuilds := h path List.mem_cons_self
      have hrest : ∀ other ∈ rest, IsSource other :=
        fun other hother => hpaths other (List.mem_cons_of_mem path hother)
      have hkept := Store.sameInputs_withWords hpath s (result path).words
      obtain ⟨hresult, hstore⟩ := buildFile_of_builds hbuilds
      obtain ⟨hfailure, hbuilt, hothers, hinputs⟩ := ih hrest fun other hother =>
        (h other (List.mem_cons_of_mem path hother)).congr (hrest other hother) hkept
      rw [Store.home_withWords] at hothers
      rw [run_of_ok hresult, hstore]
      exact ⟨hfailure, congrArg (result path :: ·) hbuilt, hothers, hkept.trans hinputs⟩

/-- In a batch without failure every source could have been built at the start. -/
theorem exists_builds (hpaths : ∀ path ∈ paths, IsSource path)
    (h : (run s none [] paths).failure? = none) :
    ∀ path ∈ paths, ∃ built, s.Builds path built := by
  induction paths generalizing s with
  | nil => simp
  | cons path rest ih =>
      have hpath := hpaths path List.mem_cons_self
      have hrest : ∀ other ∈ rest, IsSource other :=
        fun other hother => hpaths other (List.mem_cons_of_mem path hother)
      cases hresult : (buildFile s none path (outputPath path [])).result with
      | error e =>
          rw [run_of_error hresult] at h
          cases h
      | ok built =>
          have hbuilds := builds_of_result hresult
          rw [run_of_ok hresult, (buildFile_of_builds hbuilds).2] at h
          intro other hother
          rcases List.mem_cons.mp hother with rfl | hother
          · exact ⟨built, hbuilds⟩
          · obtain ⟨found, hfound⟩ := ih hrest h other hother
            have hkept := Store.sameInputs_withWords hpath s built.words
            exact ⟨found, hfound.congr (hrest other hother) hkept.symm⟩

/-- What the sources of a batch without failure are built to. -/
theorem exists_result (hpaths : ∀ path ∈ paths, IsSource path)
    (h : (run s none [] paths).failure? = none) :
    ∃ result : Bytes → Built, (∀ path ∈ paths, s.Builds path (result path)) ∧
      AgreeOnOutputs s.home (fun path => (result path).words) paths := by
  have : Nonempty Built := ⟨⟨[], [], SymbolTable.predefined⟩⟩
  choose! result hresult using exists_builds hpaths h
  refine ⟨result, hresult, ?_⟩
  intro path hpath other hother hlocation
  exact (hresult path hpath).words_eq (hpaths path hpath) (hresult other hother)
    (hpaths other hother) hlocation

/-- The order of the sources makes no difference to a batch that succeeds: it succeeds in every
order, leaves the same store, and builds the same words and symbols from each source, those that it
stood for at the start. -/
theorem outcome_independent_of_order (store : Store) {paths paths' : List Bytes}
    (hpaths : ∀ path ∈ paths, IsSource path) (hperm : paths.Perm paths')
    (h : (run store none [] paths).failure? = none) :
    (run store none [] paths').failure? = none ∧
      (run store none [] paths').store = (run store none [] paths).store ∧
      ∃ result : Bytes → Built, (∀ path ∈ paths, store.translate path = .ok (result path)) ∧
        (run store none [] paths).built = paths.map result ∧
        (run store none [] paths').built = paths'.map result := by
  obtain ⟨result, hbuilds, hsame⟩ := exists_result hpaths h
  obtain ⟨-, hbuilt, hstore, -⟩ := run_of_builds hpaths hbuilds
  obtain ⟨hfailure', hbuilt', hstore', -⟩ := run_of_builds
    (fun path hpath => hpaths path (hperm.mem_iff.mpr hpath))
    (fun path hpath => hbuilds path (hperm.mem_iff.mpr hpath))
  refine ⟨hfailure', ?_, result, fun path hpath => (hbuilds path hpath).translated, hbuilt,
    hbuilt'⟩
  rw [hstore, hstore', Store.withOutputs_perm hsame hperm]

/-- One source under two paths with an output that is there already, and one without words whose
output is a full device. -/
theorem outcome_of_two_orders :
    let store := ((((Store.empty [ascii "w"]).put (ascii "a.asm") (.file (ascii "@i\n@7"))).put
      (ascii "a.hack") (.file (ascii "old"))).put (ascii "d/b.asm") (.file (ascii "// none"))).put
      (ascii "d/b.hack") .full
    let paths := [ascii "a.asm", ascii "d/b.asm", ascii "d/../a.asm", ascii "/w/a.asm"]
    let paths' := [ascii "d/../a.asm", ascii "/w/a.asm", ascii "a.asm", ascii "d/b.asm"]
    (∀ path ∈ paths, IsSource path) ∧ paths.Perm paths' ∧
      (run store none [] paths).failure? = none ∧ (run store none [] paths').failure? = none ∧
      (run store none [] paths').store = (run store none [] paths).store := by
  intro store paths paths'
  have hpaths : ∀ path ∈ paths, IsSource path := by
    unfold IsSource
    decide
  have hperm : paths.Perm paths' := by decide
  have hsuccess : (run store none [] paths).failure? = none := by decide +kernel
  obtain ⟨hsuccess', hstore, -⟩ := outcome_independent_of_order store hpaths hperm hsuccess
  exact ⟨hpaths, hperm, hsuccess, hsuccess', hstore⟩

end Batch

/-! ### Batches as asked for -/

section

variable {render : List Binding → Bytes} {s : Store} {jobs : Int} {report : ReportOptions}
  {choices : List Nat} {paths : List Bytes}

/-- The files of a batch in the order in which a pool finishes them. -/
theorem map_fst_poolOrder_perm (workers : Nat) (choices : List Nat) (paths : List Bytes) :
    ((poolOrder workers choices paths.zipIdx).map Prod.fst).Perm paths := by
  have hperm := (poolOrder_perm workers choices paths.zipIdx).map Prod.fst
  rwa [List.zipIdx_map_fst] at hperm

/-- What the arguments of a batch without failure are built to. -/
theorem exists_result_of_buildBatch
    (h : (buildBatch render s none ⟨[], jobs, report⟩ choices paths).1.failure? = none) :
    (∀ path ∈ paths, IsSource path) ∧
      ∃ result : Bytes → Built, (∀ path ∈ paths, s.Builds path (result path)) ∧
        AgreeOnOutputs s.home (fun path => (result path).words) paths := by
  rw [buildBatch] at h
  cases hrefusal : Batch.refusal? [] paths with
  | some e =>
      rw [hrefusal] at h
      cases h
  | none =>
      have hpaths := Batch.refusal?_eq_none_iff.mp hrefusal
      rw [hrefusal] at h
      have hmem := fun path => (map_fst_poolOrder_perm
        (BatchOptions.workers ⟨[], jobs, report⟩) choices paths).mem_iff (a := path)
      obtain ⟨result, hbuilds, hsame⟩ :=
        Batch.exists_result (fun path hpath => hpaths path ((hmem path).mp hpath)) h
      refine ⟨hpaths, result, fun path hpath => hbuilds path ((hmem path).mpr hpath), ?_⟩
      intro path hpath other hother
      exact hsame path ((hmem path).mpr hpath) other ((hmem other).mpr hother)

/-- Sources that can be built at the start are all built, and in whichever order they are finished,
the store and the report are the same. -/
theorem buildBatch_of_builds (hpaths : ∀ path ∈ paths, IsSource path) {result : Bytes → Built}
    (hbuilds : ∀ path ∈ paths, s.Builds path (result path))
    (hsame : AgreeOnOutputs s.home (fun path => (result path).words) paths)
    (render : List Binding → Bytes) (jobs : Int) (report : ReportOptions) (choices : List Nat) :
    let build := buildBatch render s none ⟨[], jobs, report⟩ choices paths
    build.1.failure? = none ∧
      build.1.store = s.withOutputs s.home (fun path => (result path).words) paths ∧
      s.SameInputs build.1.store ∧
      build.2 = (paths.map result).flatMap (Built.report render report) := by
  have hperm := poolOrder_perm (BatchOptions.workers ⟨[], jobs, report⟩) choices paths.zipIdx
  have hfiles := map_fst_poolOrder_perm (BatchOptions.workers ⟨[], jobs, report⟩) choices paths
  rw [buildBatch, Batch.refusal?_eq_none_iff.mpr hpaths]
  dsimp only
  generalize poolOrder (BatchOptions.workers ⟨[], jobs, report⟩) choices paths.zipIdx = order at *
  obtain ⟨hfailure, hbuilt, hstore, hinputs⟩ := Batch.run_of_builds
    (fun path hpath => hpaths path (hfiles.mem_iff.mp hpath))
    (fun path hpath => hbuilds path (hfiles.mem_iff.mp hpath))
  refine ⟨hfailure, ?_, hinputs, ?_⟩
  · rw [hstore, Store.withOutputs_perm hsame hfiles.symm]
  · rw [hbuilt, List.map_map]
    exact congrArg (List.flatMap (Built.report render report)) (inPosition_of_perm hperm result)

end

/-- Building once more after a success changes nothing: it succeeds again, leaves the store as it is
and prints the same report. So it does for any number of workers, whichever files they finish first
the first time and the second time. -/
theorem buildBatch_again_changes_nothing (render : List Binding → Bytes) (store : Store)
    (jobs : Int) (report : ReportOptions) (choices choices' : List Nat) (paths : List Bytes)
    (h : (buildBatch render store none ⟨[], jobs, report⟩ choices paths).1.failure? = none) :
    let first := buildBatch render store none ⟨[], jobs, report⟩ choices paths
    let second := buildBatch render first.1.store none ⟨[], jobs, report⟩ choices' paths
    second.1.failure? = none ∧ second.1.store = first.1.store ∧ second.2 = first.2 := by
  obtain ⟨hpaths, result, hbuilds, hsame⟩ := exists_result_of_buildBatch h
  obtain ⟨-, hstore, hinputs, hprinted⟩ :=
    buildBatch_of_builds hpaths hbuilds hsame render jobs report choices
  intro first second
  have hhome : first.1.store.home = store.home := hinputs.directories.home_eq.symm
  obtain ⟨hfailure', hstore', -, hprinted'⟩ := buildBatch_of_builds hpaths
    (fun path hpath => (hbuilds path hpath).congr (hpaths path hpath) hinputs)
    (hhome ▸ hsame) render jobs report choices'
  refine ⟨hfailure', ?_, hprinted'.trans hprinted.symm⟩
  calc second.1.store
      = first.1.store.withOutputs store.home (fun path => (result path).words) paths :=
        hhome ▸ hstore'
    _ = first.1.store := by
        rw [show first.1.store = _ from hstore, Store.withOutputs_withOutputs hsame]

/-- A source given twice next to an empty one whose output is a full device, built by three workers
in two orders, with everything printed. -/
theorem buildBatch_again_after_repeated_source :
    let store := (((Store.empty [ascii "w"]).put (ascii "a.asm") (.file (ascii "@i\n@7"))).put
      (ascii "b.asm") (.file [])).put (ascii "b.hack") .full
    let paths := [ascii "a.asm", ascii "b.asm", ascii "/w/a.asm"]
    let render : List Binding → Bytes := List.flatMap Binding.name
    let first := buildBatch render store none ⟨[], 3, ⟨true, true⟩⟩ [2, 1] paths
    let second := buildBatch render first.1.store none ⟨[], 3, ⟨true, true⟩⟩ [1] paths
    first.1.failure? = none ∧ second.1.failure? = none ∧ second.1.store = first.1.store ∧
      second.2 = first.2 := by
  intro store paths render first second
  have hsuccess : first.1.failure? = none := by decide +kernel
  exact ⟨hsuccess,
    buildBatch_again_changes_nothing render store 3 ⟨true, true⟩ [2, 1] [1] paths hsuccess⟩

end HackAssembly
