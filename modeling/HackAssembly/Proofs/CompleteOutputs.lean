import HackAssembly.Build.File

/-!
# Complete outputs or none

Building a file has several exits: it may be cancelled at two points, the source may be unreadable
or refused, the output may not be creatable, and writing it may fail after some of it was written.
Whichever is taken, the store is left in one of three ways: with the output complete, as it was, or
without the output that could not be written. `Store.save_cases` and `buildFile_eq` list the exits
once; everything else is read off them.
-/

namespace HackAssembly

/-- What the source at a path is translated to, or what is wrong with it. -/
def Store.translate (s : Store) (path : Bytes) : Except BuildError Built :=
  match s.read path with
  | .error e => .error (.unreadable e)
  | .ok text =>
    let outcome := Assembler.new.assemble (readLines text)
    match outcome.result with
    | .error failure => .error (.refused failure)
    | .ok words => .ok ⟨path, words, outcome.assembler.symbols⟩

theorem codeText_eq_nil_iff {words : List Word} : codeText words = [] ↔ words = [] := by
  cases words with
  | nil => simp [codeText]
  | cons w words => simp [codeText, Word.codeLine]

/-! ### The exits -/

/-- How saving a text ends: the output cannot be created, it is a device that takes nothing and
there is nothing to write or there is something, or it is written. -/
theorem Store.save_cases (s : Store) (path text : Bytes) :
    (∃ fault, s.create path = .error fault ∧ s.save path text = (s, .error (.notCreated fault))) ∨
      ∃ l, s.create path = .ok l ∧
        (s.node? l = some .full ∧ text = [] ∧ s.save path text = (s, .ok ()) ∨
          s.node? l = some .full ∧ text ≠ [] ∧
            s.save path text = (s.erase l, .error (.notWritten path ⟨.writing, path, .noSpace⟩)) ∨
          s.node? l ≠ some .full ∧ s.save path text = (s.insert l (.file text), .ok ())) := by
  rw [save]
  cases hcreate : s.create path with
  | error fault => exact Or.inl ⟨fault, rfl, rfl⟩
  | ok l =>
      refine Or.inr ⟨l, rfl, ?_⟩
      dsimp only
      by_cases hfull : s.node? l = some .full
      · rw [if_pos hfull]
        cases text with
        | nil => exact Or.inl ⟨hfull, rfl, rfl⟩
        | cons b text => exact Or.inr (Or.inl ⟨hfull, List.cons_ne_nil b text, rfl⟩)
      · rw [if_neg hfull]
        exact Or.inr (Or.inr ⟨hfull, rfl⟩)

/-- The exits of a build, in the order in which they are met. -/
theorem buildFile_eq (store : Store) (c : Cancellation) (path output : Bytes) :
    let build := buildFile store c path output
    (build.store, build.result) =
      if c.answer 1 then (store, .error .canceled)
      else match store.translate path with
        | .error e => (store, .error e)
        | .ok built =>
          if c.answer 2 then (store, .error .canceled)
          else match store.save output (codeText built.words) with
            | (saved, .error e) => (saved, .error (.unsaved e))
            | (saved, .ok ()) => (saved, .ok built) := by
  have hlines : ∀ words : List Word, (words.map Word.codeLine).flatten = codeText words :=
    fun _ => rfl
  rw [buildFile, Store.translate]
  cases c.answer 1 with
  | true => rfl
  | false =>
      simp only [Bool.false_eq_true, if_false, Store.saveLines_eq_save, hlines]
      cases store.read path with
      | error e => rfl
      | ok text =>
          dsimp only
          rcases Assembler.new.assemble (readLines text) with ⟨asm, failure | words, notices⟩
          · rfl
          · dsimp only
            cases c.answer 2 with
            | true => rfl
            | false =>
                simp only [Bool.false_eq_true, if_false]
                rcases store.save output (codeText words) with ⟨saved, e | ⟨⟩⟩ <;> rfl

namespace Cancellation

theorem answer_eq_true_iff {c : Cancellation} {n : Nat} :
    c.answer n = true ↔ ∃ limit, c = some limit ∧ limit < n := by
  cases c <;> simp [answer]

theorem answer_eq_false_iff {c : Cancellation} {n : Nat} :
    c.answer n = false ↔ ∀ limit, c = some limit → n ≤ limit := by
  cases c <;> simp [answer]

end Cancellation

/-! ### The endings -/

section Endings

variable (store : Store) (c : Cancellation) (path output : Bytes) (build : FileBuild)

/-- The build succeeded: it was not cancelled at either point, and the output holds the codes of
all words. A full device is a good output for no words at all, and stays as it is. -/
structure Completed : Prop where
  uncancelled : ∀ limit, c = some limit → 2 ≤ limit
  output_holds_words : ∃ built l, build.result = .ok built ∧ store.translate path = .ok built ∧
    store.create output = .ok l ∧
    (store.node? l ≠ some .full ∧ build.store = store.insert l (.file (codeText built.words)) ∨
      store.node? l = some .full ∧ built.words = [] ∧ build.store = store)

/-- The build failed before the output was created, and nothing has changed. -/
structure Untouched : Prop where
  store_eq : build.store = store
  failed : ∃ e, build.result = .error e ∧
    (e = .canceled ∧ (∃ limit, c = some limit ∧ limit < 2) ∨ store.translate path = .error e ∨
      ∃ fault, e = .unsaved (.notCreated fault) ∧ store.create output = .error fault)

/-- The output was created, but could not be written: it is gone, and nothing else has changed. -/
structure Withdrawn : Prop where
  failed : ∃ fault, build.result = .error (.unsaved (.notWritten output fault))
  output_removed : ∃ built l, store.translate path = .ok built ∧ built.words ≠ [] ∧
    store.create output = .ok l ∧ store.node? l = some .full ∧ build.store = store.erase l

end Endings

section

variable {store : Store} {c : Cancellation} {path output : Bytes} {build : FileBuild}

theorem Completed.not_untouched (h : Completed store c path output build) :
    ¬Untouched store c path output build := by
  rintro ⟨-, e, herror, -⟩
  obtain ⟨-, built, l, hok, -⟩ := h
  rw [hok] at herror
  cases herror

theorem Completed.not_withdrawn (h : Completed store c path output build) :
    ¬Withdrawn store path output build := by
  rintro ⟨⟨fault, herror⟩, -⟩
  obtain ⟨-, built, l, hok, -⟩ := h
  rw [hok] at herror
  cases herror

theorem Untouched.not_withdrawn (h : Untouched store c path output build) :
    ¬Withdrawn store path output build := by
  rintro ⟨⟨fault, hfault⟩, built, l, htranslate, -, hcreate, -⟩
  obtain ⟨-, e, herror, ⟨rfl, -⟩ | hsource | ⟨refusal, -, hrefusal⟩⟩ := h
  · rw [hfault] at herror
    cases herror
  · rw [htranslate] at hsource
    cases hsource
  · rw [hcreate] at hrefusal
    cases hrefusal

end

/-- Every build ends in one of the three ways. -/
theorem buildFile_ending (store : Store) (c : Cancellation) (path output : Bytes) :
    Completed store c path output (buildFile store c path output) ∨
      Untouched store c path output (buildFile store c path output) ∨
      Withdrawn store path output (buildFile store c path output) := by
  have hexit := buildFile_eq store c path output
  generalize buildFile store c path output = build at hexit ⊢
  dsimp only at hexit
  cases hfirst : c.answer 1 with
  | true =>
      rw [hfirst, if_pos rfl, Prod.mk.injEq] at hexit
      obtain ⟨limit, hc, hlimit⟩ := Cancellation.answer_eq_true_iff.mp hfirst
      exact Or.inr (Or.inl ⟨hexit.1, _, hexit.2, Or.inl ⟨rfl, limit, hc, by omega⟩⟩)
  | false =>
      rw [hfirst, if_neg Bool.false_ne_true] at hexit
      cases htranslate : store.translate path with
      | error e =>
          simp only [htranslate, Prod.mk.injEq] at hexit
          exact Or.inr (Or.inl ⟨hexit.1, e, hexit.2, Or.inr (Or.inl htranslate)⟩)
      | ok built =>
          simp only [htranslate] at hexit
          cases hsecond : c.answer 2 with
          | true =>
              rw [hsecond, if_pos rfl, Prod.mk.injEq] at hexit
              exact Or.inr (Or.inl ⟨hexit.1, _, hexit.2,
                Or.inl ⟨rfl, Cancellation.answer_eq_true_iff.mp hsecond⟩⟩)
          | false =>
              rw [hsecond, if_neg Bool.false_ne_true] at hexit
              have huncancelled := Cancellation.answer_eq_false_iff.mp hsecond
              rcases store.save_cases output (codeText built.words) with
                ⟨fault, hcreate, hsave⟩ | ⟨l, hcreate, ⟨hfull, htext, hsave⟩ |
                  ⟨hfull, htext, hsave⟩ | ⟨hfull, hsave⟩⟩
              all_goals simp only [hsave, Prod.mk.injEq] at hexit
              · exact Or.inr (Or.inl ⟨hexit.1, _, hexit.2, Or.inr (Or.inr ⟨fault, rfl, hcreate⟩)⟩)
              · exact Or.inl ⟨huncancelled, built, l, hexit.2, htranslate, hcreate,
                  Or.inr ⟨hfull, codeText_eq_nil_iff.mp htext, hexit.1⟩⟩
              · have hwords : built.words ≠ [] := fun h => htext (codeText_eq_nil_iff.mpr h)
                exact Or.inr (Or.inr ⟨⟨_, hexit.2⟩, built, l, htranslate, hwords, hcreate, hfull,
                  hexit.1⟩)
              · exact Or.inl ⟨huncancelled, built, l, hexit.2, htranslate, hcreate,
                  Or.inl ⟨hfull, hexit.1⟩⟩

/-- A file that is there after a build was there before, or is the complete output. -/
theorem file_of_buildFile {store : Store} {c : Cancellation} {path output : Bytes} {l : Location}
    {data : Bytes} (h : (buildFile store c path output).store.node? l = some (.file data)) :
    store.node? l = some (.file data) ∨
      ∃ built, (buildFile store c path output).result = .ok built ∧
        store.translate path = .ok built ∧ data = codeText built.words := by
  rcases buildFile_ending store c path output with
    ⟨-, built, m, hresult, htranslate, hcreate, ⟨-, hstore⟩ | ⟨-, -, hstore⟩⟩ | ⟨hstore, -⟩ |
      ⟨-, built, m, -, -, hcreate, -, hstore⟩
  · have hnode := Store.node?_insert_of_ne_directory (Store.node?_ne_directory_of_create hcreate)
    rw [hstore, hnode] at h
    split at h
    · cases h
      exact Or.inr ⟨built, hresult, htranslate, rfl⟩
    · exact Or.inl h
  · exact Or.inl (hstore ▸ h)
  · exact Or.inl (hstore ▸ h)
  · have hnode := Store.node?_erase_of_ne_directory (Store.node?_ne_directory_of_create hcreate)
    rw [hstore, hnode] at h
    split at h
    · cases h
    · exact Or.inl h

/-- A fault of the source is reported unless the build is cancelled before the source is read,
whatever is wrong with the output. -/
theorem result_of_translate_error {store : Store} {path : Bytes} {e : BuildError}
    (h : store.translate path = .error e) (c : Cancellation) (output : Bytes) :
    (buildFile store c path output).result = .error (if c = some 0 then .canceled else e) := by
  have hexit := congrArg Prod.snd (buildFile_eq store c path output)
  dsimp only at hexit
  rw [hexit, h]
  cases c with
  | none => rfl
  | some limit => cases limit <;> rfl

/-- A full device takes no word and is removed. -/
example :
    let home := [ascii "w"]
    let store := ((Store.empty home).put (ascii "a.asm") (.file (ascii "@7\n"))).put
      (ascii "a.hack") .full
    let build := buildFile store none (ascii "a.asm") (ascii "/w/a.hack")
    store.node? (ascii "a.hack" :: home) = some .full ∧
      build.store.node? (ascii "a.hack" :: home) = none := by
  decide +kernel

end HackAssembly
