import HackAssembly.Build.Batch
import HackAssembly.Proofs.CompleteOutputs
import HackAssembly.Proofs.Pools
import HackAssembly.Proofs.SourcePaths
import Mathlib.Data.List.Forall2

/-!
# Batches read the initial sources

Every file of a batch is read from a store that the builds before it have changed. They change
nothing but outputs, and an output is never a source, so what a file is translated to can be said of
the store at the start. `Reached` is what holds after some files; each build keeps it, whether it
succeeds (`Reached.step_ok`) or fails (`Reached.step_error`), and so does a whole batch up to its
first failure (`Reached.run`). The builds after that failure are cancelled and do nothing.
-/

namespace HackAssembly

/-! ### Translations and outputs -/

namespace Store

theorem translate_eq_ok_iff {s : Store} {path : Bytes} {built : Built} :
    s.translate path = .ok built ↔ ∃ text, s.read path = .ok text ∧
      (Assembler.new.assemble (readLines text)).result = .ok built.words ∧ built.path = path ∧
      built.symbols = (Assembler.new.assemble (readLines text)).assembler.symbols := by
  obtain ⟨builtPath, words, symbols⟩ := built
  unfold translate
  cases s.read path with
  | error e => simp
  | ok text =>
      simp only [Except.ok.injEq, exists_eq_left']
      rcases Assembler.new.assemble (readLines text) with ⟨asm, failure | found, notices⟩
      · simp
      · simp only [Except.ok.injEq, Built.mk.injEq]
        constructor
        · rintro ⟨rfl, rfl, rfl⟩
          exact ⟨rfl, rfl, rfl⟩
        · rintro ⟨rfl, rfl, rfl⟩
          exact ⟨rfl, rfl, rfl⟩

/-- Two paths to one file are translated to the same words. -/
theorem words_eq_of_translate {s : Store} {path other : Bytes} {a b : Built}
    (ha : s.translate path = .ok a) (hb : s.translate other = .ok b)
    (hlocation : s.locate path = s.locate other) : a.words = b.words := by
  obtain ⟨text, hread, hwords, -⟩ := translate_eq_ok_iff.mp ha
  obtain ⟨text', hread', hwords', -⟩ := translate_eq_ok_iff.mp hb
  obtain ⟨l, hresolve, -, hnode, -⟩ := read_eq_ok_iff.mp hread
  obtain ⟨l', hresolve', -, hnode', -⟩ := read_eq_ok_iff.mp hread'
  rw [location_of_resolve hresolve, hlocation, ← location_of_resolve hresolve', hnode'] at hnode
  cases hnode
  rw [hwords] at hwords'
  exact Except.ok.inj hwords'

/-- The words that the source at a path is translated to; none if it is not. -/
def wordsOf (s : Store) (path : Bytes) : List Word :=
  match s.translate path with
  | .ok built => built.words
  | .error _ => []

theorem wordsOf_of_translate {s : Store} {path : Bytes} {built : Built}
    (h : s.translate path = .ok built) : s.wordsOf path = built.words := by
  rw [wordsOf, h]

/-- The output of a source holds all words: it is a file with their codes, or a full device that
there is nothing to write to. -/
def HoldsWords (s : Store) (path : Bytes) (words : List Word) : Prop :=
  ∃ l, s.create (outputPath path []) = .ok l ∧
    (s.node? l = some (.file (codeText words)) ∨ words = [] ∧ s.node? l = some .full)

end Store

/-! ### What a build keeps -/

/-- What holds of a store after the files `tried`, of which `done` have been built: only outputs of
files that were tried have changed, no directory among them, and those of the files that have been
built are complete. -/
structure Reached (initial s : Store) (tried done : List Bytes) : Prop where
  sources : ∀ path ∈ tried, IsSource path
  directories : s.SameDirectories initial
  changed : ∀ l, s.node? l ≠ initial.node? l →
    ∃ path ∈ tried, l = outputLocation initial.home path
  done_tried : ∀ path ∈ done, path ∈ tried
  complete : ∀ path ∈ done, ∃ built, initial.translate path = .ok built ∧
    s.HoldsWords path built.words

theorem Reached.start (s : Store) : Reached s s [] [] where
  sources := by simp
  directories := .refl s
  changed := fun _ h => absurd rfl h
  done_tried := by simp
  complete := by simp

namespace Reached

variable {initial s : Store} {tried done : List Bytes} {path : Bytes}

/-- Where the output of a source can be created, if it can be. -/
theorem location_of_create (h : Reached initial s tried done) {l : Location}
    (hcreate : s.create (outputPath path []) = .ok l) : l = outputLocation initial.home path := by
  rw [Store.location_of_create hcreate, Store.locate, h.directories.home_eq, outputLocation]

theorem node?_source (h : Reached initial s tried done) (hpath : IsSource path) :
    s.node? (initial.locate path) = initial.node? (initial.locate path) := by
  apply Classical.byContradiction
  intro hne
  obtain ⟨other, hother, heq⟩ := h.changed _ hne
  exact hpath.location_ne_output (h.sources other hother) initial.home heq

theorem read_source (h : Reached initial s tried done) (hpath : IsSource path) {text : Bytes} :
    s.read path = .ok text ↔ initial.read path = .ok text :=
  (Store.read_congr h.directories.symm (h.node?_source hpath).symm).symm

theorem translate_source (h : Reached initial s tried done) (hpath : IsSource path)
    {built : Built} : s.translate path = .ok built ↔ initial.translate path = .ok built := by
  simp only [Store.translate_eq_ok_iff, h.read_source hpath]

/-- A file that was built before has the same words as the file at hand if it has the same output,
for then they are one file. -/
theorem words_eq_of_output (h : Reached initial s tried done) (hpath : IsSource path)
    {other : Bytes} (hother : other ∈ done) {a b : Built} (ha : initial.translate path = .ok a)
    (hb : initial.translate other = .ok b) {l : Location}
    (hl : s.create (outputPath path []) = .ok l)
    (hl' : s.create (outputPath other []) = .ok l) : a.words = b.words := by
  have hsource := h.sources other (h.done_tried other hother)
  have houtput := (h.location_of_create hl).symm.trans (h.location_of_create hl')
  exact Store.words_eq_of_translate ha hb (hpath.location_eq_of_output hsource houtput)

/-- What was built is what the source at the start says, and its output can be read back unless it
is a device. -/
theorem read_output (h : Reached initial s tried done) (hpath : path ∈ done) :
    ∃ text, initial.read path = .ok text ∧
      (Assembler.new.assemble (readLines text)).result = .ok (initial.wordsOf path) ∧
      (s.read (outputPath path []) = .ok (codeText (initial.wordsOf path)) ∨
        initial.wordsOf path = [] ∧
          s.node? (outputLocation initial.home path) = some .full) := by
  obtain ⟨built, htranslate, l, hcreate, hnode⟩ := h.complete path hpath
  obtain ⟨text, hread, hwords, -⟩ := Store.translate_eq_ok_iff.mp htranslate
  obtain ⟨hresolve, hslash, -, hshort⟩ := Store.create_eq_ok_iff.mp hcreate
  rw [Store.wordsOf_of_translate htranslate]
  refine ⟨text, hread, hwords, ?_⟩
  rcases hnode with hfile | ⟨hempty, hfull⟩
  · exact Or.inl (Store.read_eq_ok_iff.mpr ⟨l, hresolve, hshort, hfile, hslash⟩)
  · exact Or.inr ⟨hempty, h.location_of_create hcreate ▸ hfull⟩

/-- A build that changes nothing. -/
theorem keep (h : Reached initial s tried done) (hpath : IsSource path) :
    Reached initial s (tried ++ [path]) done where
  sources := by
    simp only [List.mem_append, List.mem_singleton]
    rintro other (hother | rfl)
    · exact h.sources other hother
    · exact hpath
  directories := h.directories
  changed := by
    intro l hl
    obtain ⟨other, hother, heq⟩ := h.changed l hl
    exact ⟨other, List.mem_append_left _ hother, heq⟩
  done_tried := fun other hother => List.mem_append_left _ (h.done_tried other hother)
  complete := h.complete

/-- A build that changes its output. What was built to the same output before has to stay
complete. -/
theorem update (h : Reached initial s tried done) (hpath : IsSource path) {l : Location}
    (hcreate : s.create (outputPath path []) = .ok l) {s' : Store} {n : Option Node}
    (hn : n ≠ some .directory) (hhome : s'.home = s.home)
    (hs' : ∀ other, s'.node? other = if l = other then n else s.node? other)
    (hsame : ∀ other ∈ done, ∀ built, initial.translate other = .ok built →
      s.HoldsWords other built.words → s.create (outputPath other []) = .ok l →
      n = some (.file (codeText built.words))) :
    Reached initial s' (tried ++ [path]) done := by
  have hdirectories : s'.SameDirectories s := by
    refine ⟨hhome, ?_⟩
    intro other
    rw [hs']
    split
    · rename_i heq
      have hl := Store.node?_ne_directory_of_create hcreate
      exact ⟨fun hd => absurd hd hn, fun hd => absurd hd (heq ▸ hl)⟩
    · exact Iff.rfl
  have hkept := h.keep hpath
  refine ⟨hkept.sources, hdirectories.trans h.directories, ?_, hkept.done_tried, ?_⟩
  · intro other hother
    rw [hs'] at hother
    split at hother
    · rename_i heq
      exact ⟨path, by simp, heq ▸ h.location_of_create hcreate⟩
    · exact hkept.changed other hother
  · intro other hother
    obtain ⟨built, htranslate, m, hm, hnode⟩ := h.complete other hother
    refine ⟨built, htranslate, m, (Store.create_congr hdirectories).mpr hm, ?_⟩
    rw [hs']
    split
    · rename_i heq
      exact Or.inl (hsame other hother built htranslate ⟨m, hm, hnode⟩ (heq ▸ hm))
    · exact hnode

theorem extend (h : Reached initial s (tried ++ [path]) done) {built : Built}
    (htranslate : initial.translate path = .ok built) (hholds : s.HoldsWords path built.words) :
    Reached initial s (tried ++ [path]) (done ++ [path]) where
  sources := h.sources
  directories := h.directories
  changed := h.changed
  done_tried := by
    simp only [List.mem_append, List.mem_singleton]
    rintro other (hother | rfl)
    · exact List.mem_append.mp (h.done_tried other hother) |>.imp id List.mem_singleton.mp
    · exact Or.inr rfl
  complete := by
    simp only [List.mem_append, List.mem_singleton]
    rintro other (hother | rfl)
    · exact h.complete other hother
    · exact ⟨built, htranslate, hholds⟩

/-- The output is written. If a file built before has the same output, it is the same source, and
its words are written once more. -/
theorem write (h : Reached initial s tried done) (hpath : IsSource path) {built : Built}
    (htranslate : initial.translate path = .ok built) {l : Location}
    (hcreate : s.create (outputPath path []) = .ok l) :
    Reached initial (s.insert l (.file (codeText built.words))) (tried ++ [path])
      (done ++ [path]) := by
  have hnode := Store.node?_insert_of_ne_directory
    (Store.node?_ne_directory_of_create hcreate) (.file (codeText built.words))
  have hreached := h.update hpath hcreate (by simp) (Store.home_insert s l _) hnode (by
    intro other hother earlier hearlier _ hcreate'
    rw [h.words_eq_of_output hpath hother htranslate hearlier hcreate hcreate'])
  have hcreate' := (Store.create_congr h.directories).mp hcreate
  refine hreached.extend htranslate ⟨l, (Store.create_congr hreached.directories).mpr hcreate', ?_⟩
  rw [hnode, if_pos rfl]
  exact Or.inl rfl

/-- The output is a full device and is removed. No file built before has the same output: it would
be the same source, and there would be words to write. -/
theorem remove (h : Reached initial s tried done) (hpath : IsSource path) {built : Built}
    (htranslate : initial.translate path = .ok built) (hwords : built.words ≠ []) {l : Location}
    (hcreate : s.create (outputPath path []) = .ok l) (hfull : s.node? l = some .full) :
    Reached initial (s.erase l) (tried ++ [path]) done := by
  have hnode := Store.node?_erase_of_ne_directory (Store.node?_ne_directory_of_create hcreate)
  refine h.update hpath hcreate (by simp) (Store.home_erase s l) hnode ?_
  rintro other hother earlier hearlier ⟨m, hm, hholds⟩ hcreate'
  obtain rfl := Except.ok.inj (hm.symm.trans hcreate')
  have heq := h.words_eq_of_output hpath hother htranslate hearlier hcreate hcreate'
  rw [hfull] at hholds
  rcases hholds with hfile | ⟨hempty, -⟩
  · cases hfile
  · exact absurd (heq.trans hempty) hwords

theorem step_ok (h : Reached initial s tried done) (hpath : IsSource path) {built : Built}
    (hresult : (buildFile s none path (outputPath path [])).result = .ok built) :
    initial.translate path = .ok built ∧
      Reached initial (buildFile s none path (outputPath path [])).store (tried ++ [path])
        (done ++ [path]) := by
  rcases buildFile_ending s none path (outputPath path []) with
    ⟨-, found, l, hfound, htranslate, hcreate, hstore⟩ | ⟨-, e, hfailed, -⟩ | ⟨⟨e, hfailed⟩, -⟩
  · obtain rfl := Except.ok.inj (hfound.symm.trans hresult)
    have hinitial := (h.translate_source hpath).mp htranslate
    refine ⟨hinitial, ?_⟩
    rcases hstore with ⟨-, hstore⟩ | ⟨hfull, hwords, hstore⟩
    · rw [hstore]
      exact h.write hpath hinitial hcreate
    · rw [hstore]
      exact (h.keep hpath).extend hinitial ⟨l, hcreate, Or.inr ⟨hwords, hfull⟩⟩
  · cases hfailed.symm.trans hresult
  · cases hfailed.symm.trans hresult

theorem step_error (h : Reached initial s tried done) (hpath : IsSource path) {e : BuildError}
    (hresult : (buildFile s none path (outputPath path [])).result = .error e) :
    Reached initial (buildFile s none path (outputPath path [])).store (tried ++ [path]) done := by
  rcases buildFile_ending s none path (outputPath path []) with
    ⟨-, built, l, hbuilt, -⟩ | ⟨hstore, -⟩ |
      ⟨-, built, l, htranslate, hwords, hcreate, hfull, hstore⟩
  · cases hbuilt.symm.trans hresult
  · rw [hstore]
    exact h.keep hpath
  · rw [hstore]
    exact h.remove hpath ((h.translate_source hpath).mp htranslate) hwords hcreate hfull

end Reached

/-! ### The first failure -/

namespace Batch

/-- What each file of a batch does, in the store that the files before it leave, if none of them
is cancelled. -/
def attempts (store : Store) (output : Bytes) : List Bytes → List FileBuild
  | [] => []
  | path :: rest =>
    let build := buildFile store none path (outputPath path output)
    build :: attempts build.store output rest

/-- The number of files before the first that fails. -/
def firstFailure (store : Store) (output : Bytes) (paths : List Bytes) : Nat :=
  (attempts store output paths).findIdx fun build => !build.result.isOk

section

variable {s : Store} {output path : Bytes} {rest : List Bytes}

theorem firstFailure_of_error {e : BuildError}
    (h : (buildFile s none path (outputPath path output)).result = .error e) :
    firstFailure s output (path :: rest) = 0 := by
  simp [firstFailure, attempts, List.findIdx_cons, h, Except.isOk, Except.toBool]

theorem firstFailure_of_ok {built : Built}
    (h : (buildFile s none path (outputPath path output)).result = .ok built) :
    firstFailure s output (path :: rest) =
      firstFailure (buildFile s none path (outputPath path output)).store output rest + 1 := by
  simp [firstFailure, attempts, List.findIdx_cons, h, Except.isOk, Except.toBool]

/-- Files that are cancelled from the start do nothing. -/
theorem run_cancelled (s : Store) (output : Bytes) (paths : List Bytes) :
    (run s (some 0) output paths).store = s ∧ (run s (some 0) output paths).log = [] ∧
      (run s (some 0) output paths).built = [] := by
  induction paths with
  | nil => exact ⟨rfl, rfl, rfl⟩
  | cons path rest ih => exact ih

theorem run_of_error {e : BuildError}
    (h : (buildFile s none path (outputPath path output)).result = .error e) :
    run s none output (path :: rest) =
      ⟨(buildFile s none path (outputPath path output)).store,
        (buildFile s none path (outputPath path output)).log, [], some (.file path e)⟩ := by
  obtain ⟨hstore, hlog, hbuilt⟩ :=
    run_cancelled (buildFile s none path (outputPath path output)).store output rest
  rw [run, h]
  dsimp only
  rw [hstore, hlog, hbuilt, List.append_nil]

theorem run_of_ok {built : Built}
    (h : (buildFile s none path (outputPath path output)).result = .ok built) :
    run s none output (path :: rest) =
      let others := run (buildFile s none path (outputPath path output)).store none output rest
      ⟨others.store, (buildFile s none path (outputPath path output)).log ++ others.log,
        built :: others.built, others.failure?⟩ := by
  rw [run, h]

end

/-- The files after the first that fails make no difference. -/
theorem run_take (s : Store) (output : Bytes) (paths : List Bytes) :
    run s none output (paths.take (firstFailure s output paths + 1)) =
      run s none output paths := by
  induction paths generalizing s with
  | nil => rfl
  | cons path rest ih =>
      cases hresult : (buildFile s none path (outputPath path output)).result with
      | error e => rw [List.take_succ_cons, run_of_error hresult, run_of_error hresult]
      | ok built =>
          rw [List.take_succ_cons, firstFailure_of_ok hresult, run_of_ok hresult,
            run_of_ok hresult, ih]

/-- A batch fails with the first of its files that fails, and only then. -/
theorem failure?_run (s : Store) (output : Bytes) (paths : List Bytes) :
    firstFailure s output paths = paths.length ∧ (run s none output paths).failure? = none ∨
      ∃ path build e, paths[firstFailure s output paths]? = some path ∧
        (attempts s output paths)[firstFailure s output paths]? = some build ∧
        build.result = .error e ∧ (run s none output paths).failure? = some (.file path e) := by
  induction paths generalizing s with
  | nil => exact Or.inl ⟨rfl, rfl⟩
  | cons path rest ih =>
      cases hresult : (buildFile s none path (outputPath path output)).result with
      | error e =>
          rw [firstFailure_of_error hresult, run_of_error hresult]
          exact Or.inr ⟨path, _, e, rfl, rfl, hresult, rfl⟩
      | ok built =>
          rw [firstFailure_of_ok hresult, run_of_ok hresult]
          rcases ih (buildFile s none path (outputPath path output)).store with
            ⟨hlength, hnone⟩ | ⟨other, build, e, hother, hbuild, he, hfailure⟩
          · exact Or.inl ⟨congrArg (· + 1) hlength, hnone⟩
          · exact Or.inr ⟨other, build, e, hother, hbuild, he, hfailure⟩

end Batch

/-- A whole batch. -/
theorem Reached.run {initial s : Store} {tried done paths : List Bytes}
    (h : Reached initial s tried done) (hpaths : ∀ path ∈ paths, IsSource path) :
    Reached initial (Batch.run s none [] paths).store
        (tried ++ paths.take (Batch.firstFailure s [] paths + 1))
        (done ++ paths.take (Batch.firstFailure s [] paths)) ∧
      List.Forall₂ (fun path built => initial.translate path = .ok built)
        (paths.take (Batch.firstFailure s [] paths)) (Batch.run s none [] paths).built := by
  induction paths generalizing s tried done with
  | nil => simpa [Batch.run] using h
  | cons path rest ih =>
      have hpath := hpaths path List.mem_cons_self
      cases hresult : (buildFile s none path (outputPath path [])).result with
      | error e =>
          rw [Batch.firstFailure_of_error hresult, Batch.run_of_error hresult]
          simpa using h.step_error hpath hresult
      | ok built =>
          obtain ⟨htranslate, hreached⟩ := h.step_ok hpath hresult
          obtain ⟨hstore, hbuilt⟩ :=
            ih hreached fun other hother => hpaths other (List.mem_cons_of_mem _ hother)
          rw [Batch.firstFailure_of_ok hresult, Batch.run_of_ok hresult]
          simp only [List.append_assoc, List.singleton_append] at hstore
          exact ⟨hstore, .cons htranslate hbuilt⟩

/-! ### The report -/

theorem flatMap_report_listing (render : List Binding → Bytes) {initial : Store}
    {paths : List Bytes} {built : List Built}
    (h : List.Forall₂ (fun path b => initial.translate path = .ok b) paths built) :
    built.flatMap (Built.report render ⟨true, false⟩) =
      paths.flatMap fun path => path ++ ascii ":\n" ++ listing (initial.wordsOf path) := by
  induction h with
  | nil => rfl
  | @cons path b paths built hpath _ ih =>
      have hb : b.path = path := by
        obtain ⟨-, -, -, hb, -⟩ := Store.translate_eq_ok_iff.mp hpath
        exact hb
      rw [List.flatMap_cons, List.flatMap_cons, ih, Store.wordsOf_of_translate hpath, ← hb]
      simp [Built.report]

/-- With outputs next to the sources nothing else can be wrong with a batch. -/
theorem Batch.refusal?_eq_none_iff {paths : List Bytes} :
    Batch.refusal? [] paths = none ↔ ∀ path ∈ paths, IsSource path := by
  simp [refusal?, IsSource]

theorem Batch.length_built_le (s : Store) (c : Cancellation) (output : Bytes)
    (paths : List Bytes) : (Batch.run s c output paths).built.length ≤ paths.length := by
  induction paths generalizing s c with
  | nil => exact Nat.le_refl 0
  | cons path rest ih =>
      rw [run]
      dsimp only
      split
      · exact Nat.le_succ_of_le (ih _ _)
      · exact Nat.succ_le_succ (ih _ _)

/-- One worker builds the files in order, and reports them in this order too. -/
theorem buildBatch_of_one_worker (render : List Binding → Bytes) (store : Store)
    (c : Cancellation) {options : BatchOptions} (hjobs : options.jobs ≤ 1) (choices : List Nat)
    {paths : List Bytes} (h : Batch.refusal? options.output paths = none) :
    buildBatch render store c options choices paths =
      let batch := Batch.run store c options.output paths
      (batch, batch.built.flatMap (Built.report render options.report)) := by
  have hworkers : options.workers ≤ 1 := by
    rw [BatchOptions.workers]
    omega
  have hpositions : (List.range' 0 paths.length).Pairwise (· ≤ ·) := List.pairwise_le_range' 1
  have hlength := Batch.length_built_le store c options.output paths
  rw [buildBatch, h]
  dsimp only
  rw [poolOrder_of_le_one hworkers, List.zipIdx_map_fst, List.zipIdx_map_snd,
    inPosition_of_pairwise hpositions (by rwa [List.length_range'])]

end HackAssembly
