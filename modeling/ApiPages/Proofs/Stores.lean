import ApiPages.FileSystem.Store
import ApiPages.Proofs.PathComponents
import ApiPages.Proofs.RunDiagnostics

/-!
# Files of stores

A path that leads somewhere in a store leads to the place that its components spell out, whatever
else the store holds. So what an operation does to a store is said by places: it keeps the
directories that are there, and all files but the one at its own place.

Results:

* `Store.locate_eq_ok_iff`, `Store.place_of_locate`: when a path leads somewhere, and to which place.
* `Store.Keeps.read`: files that are kept can still be read.
* `Store.exists_of_replaceFile`: what replacing a file does.
* `Store.read_of_replaceFile`, `Store.keeps_of_replaceFile`: a file that was replaced has its new
  text, and other files stay as they are.
-/

namespace ApiPages

/-- Where a component leads from a place. -/
def UnixPath.Component.enter (place : List String) : UnixPath.Component → List String
  | root => []
  | current => place
  | parent => place.dropLast
  | normal name => place ++ [String.ofList name]

namespace Store

open UnixPath (components isAbsolute isIdle named named_cons)

/-- The place that a path spells out. -/
def placeOf (s : Store) (path : String) : List String :=
  (components path).foldl UnixPath.Component.enter s.workingDir

/-! ## Places -/

/-- The name is that of a file or a directory, and not too long for one. -/
def IsName (name : String) : Prop :=
  (name.isEmpty || name == ".") = false ∧ (name == "..") = false ∧ name.utf8ByteSize ≤ nameLimit

/-- The names lead from a directory to a location: through directories, and the last name need not
be there. -/
inductive Leads (s : Store) : List String → List String → Location → Prop
  | here (dir : List String) : Leads s dir [] ⟨dir, false⟩
  | idle {dir rest : List String} {name : String} {l : Location}
      (hname : (name.isEmpty || name == ".") = true) (h : Leads s dir rest l) :
      Leads s dir (name :: rest) l
  | above {dir rest : List String} {l : Location} (h : Leads s dir.dropLast rest l) :
      Leads s dir (".." :: rest) l
  | inside {dir rest : List String} {name : String} {l : Location} (hname : IsName name)
      (hdir : s.isDir (dir ++ [name]) = true) (h : Leads s (dir ++ [name]) rest l) :
      Leads s dir (name :: rest) l
  | last {dir rest : List String} {name : String} (hname : IsName name)
      (hdir : s.isDir (dir ++ [name]) = false) (hrest : rest.all String.isEmpty = true) :
      Leads s dir (name :: rest) ⟨dir ++ [name], !rest.isEmpty⟩

theorem leads_of_follow {s : Store} {dir ss : List String} {l : Location}
    (h : s.follow dir ss = .ok l) : s.Leads dir ss l := by
  induction ss generalizing dir with
  | nil =>
    cases h
    exact .here dir
  | cons name rest ih =>
    rw [follow] at h
    split at h
    · next hidle => exact .idle hidle (ih h)
    · next hidle =>
      split at h
      · next habove =>
        obtain rfl := beq_iff_eq.mp habove
        exact .above (ih h)
      · next habove =>
        split at h
        · cases h
        · next hlimit =>
          have hname : IsName name := by
            rw [Bool.not_eq_true] at hidle habove
            exact ⟨hidle, habove, by omega⟩
          simp only at h
          split at h
          · next hdir => exact .inside hname hdir (ih h)
          · next hdir =>
            split at h
            · next hrest =>
              cases h
              exact .last hname (by simpa using hdir) hrest
            · split at h <;> cases h

theorem Leads.follow_eq {s : Store} {dir ss : List String} {l : Location} (h : s.Leads dir ss l) :
    s.follow dir ss = .ok l := by
  induction h with
  | here dir => rfl
  | idle hname _ ih => rw [follow, if_pos hname, ih]
  | above _ ih => exact ih
  | inside hname hdir _ ih =>
    obtain ⟨hidle, habove, hlimit⟩ := hname
    rw [follow, hidle, habove, if_neg (by simp), if_neg (by simp), if_neg (by omega)]
    simp only [hdir, if_true, ih]
  | last hname hdir hrest =>
    obtain ⟨hidle, habove, hlimit⟩ := hname
    rw [follow, hidle, habove, if_neg (by simp), if_neg (by simp), if_neg (by omega)]
    simp [hdir, hrest]

/-- With more directories names lead to the same place, unless that became a directory. -/
theorem Leads.mono {s s' : Store} (hdirs : ∀ place, s.isDir place = true → s'.isDir place = true)
    {dir ss : List String} {l : Location} (h : s.Leads dir ss l) (hl : s'.isDir l.place = false) :
    s'.Leads dir ss l := by
  induction h with
  | here dir => exact .here dir
  | idle hname _ ih => exact .idle hname (ih hl)
  | above _ ih => exact .above (ih hl)
  | inside hname hdir _ ih => exact .inside hname (hdirs _ hdir) (ih hl)
  | last hname _ hrest => exact .last hname hl hrest

theorem isIdle_toList (name : String) :
    isIdle name.toList = (name.isEmpty || name == ".") := by
  have hdot : name.toList = ".".toList ↔ name = "." := String.toList_inj
  rw [Bool.eq_iff_iff]
  simpa [isIdle] using or_congr_right hdot

theorem IsName.ofSegment_toList {name : String} (h : IsName name) :
    UnixPath.ofSegment name.toList = .normal name.toList := by
  obtain ⟨hidle, habove, -⟩ := h
  have hcurrent : name.toList ≠ ['.'] := by
    intro heq
    simp [← isIdle_toList, heq, isIdle] at hidle
  have hparent : name.toList ≠ ['.', '.'] := by
    simpa [← String.toList_inj] using habove
  rw [UnixPath.ofSegment, if_neg hcurrent, if_neg hparent]

/-- Names that lead somewhere lead to the place that they spell out. -/
theorem Leads.place_eq {s : Store} {dir ss : List String} {l : Location} (h : s.Leads dir ss l) :
    l.place = (named (ss.map String.toList)).foldl UnixPath.Component.enter dir := by
  induction h with
  | here dir => rfl
  | idle hname _ ih => rw [List.map_cons, named_cons, isIdle_toList, hname, if_pos rfl, ih]
  | above _ ih =>
    rw [ih]
    rfl
  | inside hname _ _ ih =>
    rw [List.map_cons, named_cons, isIdle_toList, hname.1, if_neg (by simp), List.foldl_cons,
      hname.ofSegment_toList, ih, UnixPath.Component.enter, String.ofList_toList]
  | @last dir rest name hname _ hrest =>
    have hnone : named (rest.map String.toList) = [] := by
      simp only [named, List.map_eq_nil_iff, List.filter_eq_nil_iff, List.mem_map]
      rintro _ ⟨slash, hmem, rfl⟩
      rw [isIdle_toList, List.all_eq_true.mp hrest slash hmem]
      simp
    rw [List.map_cons, named_cons, isIdle_toList, hname.1, if_neg (by simp), List.foldl_cons,
      hname.ofSegment_toList, hnone, UnixPath.Component.enter, String.ofList_toList]
    rfl

theorem foldl_enter_components (dir : List String) (path : String) :
    (components path).foldl UnixPath.Component.enter dir =
      (named (Text.splitOn '/' path.toList)).foldl UnixPath.Component.enter
        (if isAbsolute path then [] else dir) := by
  cases habsolute : isAbsolute path with
  | true =>
    obtain ⟨s, hs⟩ : ∃ s, path.toList = '/' :: s := by
      rw [isAbsolute, beq_iff_eq] at habsolute
      exact List.head?_eq_some_iff.mp habsolute
    obtain rfl : path = String.ofList ('/' :: s) := by rw [← hs, String.ofList_toList]
    have hsplit : Text.splitOn '/' ('/' :: s) = [] :: Text.splitOn '/' s := by
      rw [Text.splitOn, if_pos rfl]
    rw [UnixPath.components_slash, hs, hsplit, named_cons]
    rfl
  | false =>
    rw [UnixPath.components_eq, UnixPath.segments_of_not_isAbsolute habsolute, habsolute]
    obtain ⟨first, rest, hsplit⟩ :=
      List.exists_cons_of_ne_nil (Text.splitOn_ne_nil '/' path.toList)
    rw [hsplit, named_cons]
    by_cases hnil : first = []
    · simp [UnixPath.spell, isIdle, hnil]
    · by_cases hdot : first = ['.']
      · simp [UnixPath.spell, isIdle, hdot, UnixPath.ofSegment, UnixPath.Component.enter]
      · simp [UnixPath.spell, isIdle, hnil, hdot]

/-- The text can be a path at all. -/
def IsPath (path : String) : Prop :=
  path.isEmpty = false ∧ path.toList.contains '\x00' = false ∧ path.utf8ByteSize < pathLimit

theorem locate_eq_ok_iff {s : Store} {path : String} {l : Location} :
    s.locate path = .ok l ↔ IsPath path ∧
      s.Leads (if isAbsolute path then [] else s.workingDir) (Text.splitString '/' path) l := by
  unfold locate IsPath
  constructor
  · intro h
    split at h
    · cases h
    · next hempty =>
      split at h
      · cases h
      · next hnul =>
        split at h
        · cases h
        · next hlimit =>
          rw [Bool.not_eq_true] at hempty hnul
          exact ⟨⟨hempty, hnul, by omega⟩, leads_of_follow h⟩
  · rintro ⟨⟨hempty, hnul, hlimit⟩, hleads⟩
    rw [hempty, hnul, if_neg (by simp), if_neg (by simp), if_neg (by omega)]
    exact hleads.follow_eq

/-- The place of a path is the one that it spells out. -/
theorem place_of_locate {s : Store} {path : String} {l : Location} (h : s.locate path = .ok l) :
    l.place = s.placeOf path := by
  have hplace := (locate_eq_ok_iff.mp h).2.place_eq
  rw [placeOf, foldl_enter_components]
  simpa [Text.splitString, Function.comp_def] using hplace

/-- Names below a directory lead to a place below that of the directory. -/
theorem placeOf_of_components {s : Store} {dir path : String} {ns : List (List Char)}
    (h : components path = components dir ++ ns.map .normal) :
    s.placeOf path = s.placeOf dir ++ ns.map String.ofList := by
  rw [placeOf, placeOf, h, List.foldl_append]
  generalize (components dir).foldl UnixPath.Component.enter s.workingDir = place
  clear h
  induction ns generalizing place with
  | nil => simp
  | cons n ns ih => simp [UnixPath.Component.enter, ih]

/-! ## Stores that grow -/

/-- The second store has the directories of the first one, and all its files but those at the places
that were touched. -/
structure Keeps (touched : List (List String)) (s s' : Store) : Prop where
  workingDir : s'.workingDir = s.workingDir
  isDir : ∀ place, s.isDir place = true → s'.isDir place = true
  file : ∀ place, place ∉ touched → ∀ text, s.isDir place = false → s.file? place = some text →
    s'.isDir place = false ∧ s'.file? place = some text

theorem Keeps.refl (s : Store) : Keeps [] s s :=
  ⟨rfl, fun _ h => h, fun _ _ _ hdir hfile => ⟨hdir, hfile⟩⟩

theorem Keeps.trans {a b : List (List String)} {s s' s'' : Store} (h : Keeps a s s')
    (h' : Keeps b s' s'') : Keeps (a ++ b) s s'' where
  workingDir := h'.workingDir.trans h.workingDir
  isDir place hdir := h'.isDir place (h.isDir place hdir)
  file place hplace text hdir hfile := by
    rw [List.mem_append, not_or] at hplace
    obtain ⟨hdir, hfile⟩ := h.file place hplace.1 text hdir hfile
    exact h'.file place hplace.2 text hdir hfile

theorem Keeps.mono {a b : List (List String)} {s s' : Store} (h : Keeps a s s') (hab : a ⊆ b) :
    Keeps b s s' :=
  ⟨h.workingDir, h.isDir, fun place hplace => h.file place fun hmem => hplace (hab hmem)⟩

theorem Keeps.placeOf {a : List (List String)} {s s' : Store} (h : Keeps a s s') (path : String) :
    s'.placeOf path = s.placeOf path := by
  rw [Store.placeOf, Store.placeOf, h.workingDir]

theorem locate_mono {s s' : Store} (hworking : s'.workingDir = s.workingDir)
    (hdirs : ∀ place, s.isDir place = true → s'.isDir place = true) {path : String} {l : Location}
    (hl : s'.isDir l.place = false) (h : s.locate path = .ok l) : s'.locate path = .ok l := by
  rw [locate_eq_ok_iff] at h ⊢
  rw [hworking]
  exact ⟨h.1, h.2.mono hdirs hl⟩

/-- What is done at the location of a path is done at the place that the path spells out. -/
theorem exists_of_locate_bind {α : Type} {s : Store} {path : String}
    {f : Location → Except FileFault α} {a : α} (h : s.locate path >>= f = .ok a) :
    ∃ slash, s.locate path = .ok ⟨s.placeOf path, slash⟩ ∧ f ⟨s.placeOf path, slash⟩ = .ok a := by
  cases hl : s.locate path with
  | error e =>
    rw [hl] at h
    cases h
  | ok l =>
    rw [hl] at h
    obtain ⟨place, slash⟩ := l
    obtain rfl : place = s.placeOf path := place_of_locate hl
    exact ⟨slash, rfl, h⟩

/-- A file can be read if the path leads to its place and there is no directory. -/
theorem read_eq_ok_iff {s : Store} {path text : String} :
    s.read path = .ok text ↔ s.locate path = .ok ⟨s.placeOf path, false⟩ ∧
      s.isDir (s.placeOf path) = false ∧ s.file? (s.placeOf path) = some text := by
  unfold read
  constructor
  · intro h
    obtain ⟨slash, hlocate, h⟩ := exists_of_locate_bind h
    split at h
    · cases h
    · next hdir =>
      split at h
      · next hfile =>
        cases slash <;> cases h
        exact ⟨hlocate, by simpa using hdir, hfile⟩
      · cases h
  · rintro ⟨hlocate, hdir, hfile⟩
    simp [hlocate, hdir, hfile, bind, Except.bind]

/-- Files that are kept can still be read. -/
theorem Keeps.read {touched : List (List String)} {s s' : Store} (h : Keeps touched s s')
    {path text : String} (hplace : s.placeOf path ∉ touched) (hread : s.read path = .ok text) :
    s'.read path = .ok text := by
  rw [read_eq_ok_iff] at hread ⊢
  obtain ⟨hlocate, hdir, hfile⟩ := hread
  obtain ⟨hdir, hfile⟩ := h.file _ hplace text hdir hfile
  rw [h.placeOf]
  exact ⟨locate_mono h.workingDir h.isDir hdir hlocate, hdir, hfile⟩

/-! ## Operations -/

variable {s s' : Store} {path text : String}

/-- A directory is created where there is no file. -/
theorem keeps_of_createDir (h : s.createDir path = .ok s') : Keeps [] s s' := by
  obtain ⟨slash, -, h⟩ := exists_of_locate_bind h
  split at h
  · cases h
  · next hfree =>
    rw [Bool.not_eq_true, Bool.or_eq_false_iff] at hfree
    cases h
    refine ⟨rfl, ?_, ?_⟩
    · intro place hdir
      simp only [isDir, List.contains_append, Bool.or_eq_true] at hdir ⊢
      exact hdir.imp_right Or.inl
    · intro place _ text hdir hfile
      have hne : place ≠ s.placeOf path := by
        rintro rfl
        rw [hfile] at hfree
        cases hfree.2
      refine ⟨?_, hfile⟩
      simpa [isDir, hne] using hdir

/-- What creating directories leaves behind was created one after the other. -/
theorem keeps_of_createDirsFrom (s : Store) (path : String) (fuel : Nat) :
    Keeps [] s (s.createDirsFrom path fuel).2 := by
  induction fuel generalizing s path with
  | zero => exact .refl s
  | succ fuel ih =>
    rw [createDirsFrom]
    split
    · exact .refl s
    · split
      · next hcreate => exact keeps_of_createDir hcreate
      · split
        · exact .refl s
        · next above _ =>
          have habove := ih s above
          split
          · next hrest =>
            rw [hrest] at habove
            exact habove
          · next hrest =>
            rw [hrest] at habove
            split
            · next hcreate => exact habove.trans (keeps_of_createDir hcreate)
            · exact habove
      · exact .refl s

theorem keeps_of_createDirs (s : Store) (path : String) : Keeps [] s (s.createDirs path).2 :=
  keeps_of_createDirsFrom s path _

theorem file?_filter_ne {place target : List String} (h : place ≠ target) :
    file? { s with files := s.files.filter fun f => f.1 != target } place = s.file? place := by
  rw [file?, file?, List.find?_filter]
  congr 2
  funext f
  by_cases hf : f.1 = place
  · simp [hf, h]
  · simp [hf]

theorem keeps_of_remove (h : s.remove path = .ok s') : Keeps [s.placeOf path] s s' := by
  obtain ⟨slash, -, h⟩ := exists_of_locate_bind h
  split at h
  · cases h
  · split at h
    · cases h
    · split at h
      · cases h
      · cases h
        refine ⟨rfl, fun _ hdir => hdir, ?_⟩
        intro place hplace text hdir hfile
        rw [List.mem_singleton] at hplace
        exact ⟨hdir, (file?_filter_ne hplace).trans hfile⟩

/-- A file that is there gets another text. -/
theorem file?_map {target : List String} (h : (s.file? target).isSome = true) (text : String)
    (place : List String) :
    file? { s with files := s.files.map fun f => if f.1 == target then (target, text) else f } place
      = if place = target then some text else s.file? place := by
  have hkey : ((fun f : List String × String => f.1 == place) ∘
      fun f => if f.1 == target then (target, text) else f) = fun f => f.1 == place := by
    funext f
    by_cases hf : f.1 = target <;> simp [hf]
  simp only [file?, List.find?_map, hkey] at h ⊢
  cases hfind : s.files.find? fun f => f.1 == place with
  | none =>
    have hplace : place ≠ target := by
      rintro rfl
      rw [hfind] at h
      cases h
    rw [if_neg hplace]
    rfl
  | some f =>
    obtain rfl : f.1 = place := by simpa using List.find?_some hfind
    by_cases hplace : f.1 = target <;> simp [hplace]

theorem file?_append {target : List String} (h : s.file? target = none) (text : String)
    (place : List String) :
    file? { s with files := s.files ++ [(target, text)] } place
      = if place = target then some text else s.file? place := by
  rw [file?, List.find?_append, Option.map_or]
  change (s.file? place).or _ = _
  by_cases hplace : place = target
  · subst hplace
    simp [h]
  · have hne : target ≠ place := fun heq => hplace heq.symm
    simp [hplace, hne]

/-- Writing sets the text at the place of a path and leaves the rest as it is. -/
structure Sets (s : Store) (path text : String) (s' : Store) : Prop where
  locate : s.locate path = .ok ⟨s.placeOf path, false⟩
  notDir : s.isDir (s.placeOf path) = false
  workingDir : s'.workingDir = s.workingDir
  dirs : s'.dirs = s.dirs
  file : ∀ place, s'.file? place = if place = s.placeOf path then some text else s.file? place

theorem sets_of_write (h : s.write path text = .ok s') : s.Sets path text s' := by
  obtain ⟨slash, hlocate, h⟩ := exists_of_locate_bind h
  split at h
  · cases h
  · next hdir =>
    rw [Bool.not_eq_true] at hdir
    split at h
    · next hthere =>
      cases slash <;> cases h
      exact ⟨hlocate, hdir, rfl, rfl, file?_map hthere text⟩
    · next hthere =>
      cases slash <;> cases h
      exact ⟨hlocate, hdir, rfl, rfl, file?_append (by simpa using hthere) text⟩

theorem keeps_of_write (h : s.write path text = .ok s') : Keeps [s.placeOf path] s s' := by
  obtain ⟨-, -, hworking, hdirs, hfiles⟩ := sets_of_write h
  have hdir : ∀ place, s'.isDir place = s.isDir place := by
    intro place
    rw [isDir, isDir, hdirs]
  refine ⟨hworking, ?_, ?_⟩
  · intro place h
    rw [hdir, h]
  · intro place hplace text h hfile
    rw [List.mem_singleton] at hplace
    rw [hdir, hfiles, if_neg hplace]
    exact ⟨h, hfile⟩

theorem read_of_write (h : s.write path text = .ok s') : s'.read path = .ok text := by
  have hkeeps := keeps_of_write h
  obtain ⟨hlocate, hdir, -, hdirs, hfiles⟩ := sets_of_write h
  have hdir' : s'.isDir (s.placeOf path) = false := by
    rw [isDir, hdirs]
    exact hdir
  rw [read_eq_ok_iff, hkeeps.placeOf, hfiles, if_pos rfl]
  exact ⟨locate_mono hkeeps.workingDir hkeeps.isDir hdir' hlocate, hdir', rfl⟩

/-! ## Replacing files -/

theorem run_of_attempt_eq_ok {σ α : Type} {operation : StateM σ (Except FileFault α)} {st st' : σ}
    {a : α} (h : (FileSystem.attempt path operation).run.run st = (.ok a, st')) :
    operation.run st = (.ok a, st') := by
  unfold FileSystem.attempt at h
  rw [ExceptT.run_mk, StateT.run_bind] at h
  generalize operation.run st = r at h ⊢
  obtain ⟨fault | b, st₁⟩ := r <;> cases h
  rfl

theorem eq_ok_of_run_update {change : Store → Except FileFault Store} {u : Unit}
    (h : (update change).run s = (.ok u, s')) : change s = .ok s' := by
  unfold update at h
  simp only [StateT.run] at h
  split at h
  · next hchange =>
    cases h
    exact hchange
  · cases h

/-- The end of replacing a file: its directory is created, and it is written. -/
theorem exists_of_createParent {u : Unit}
    (h : (do
        match UnixPath.parent path with
        | some dir => FileSystem.attempt dir (fileSystem.createDirs dir)
        | none => pure ()
        FileSystem.attempt path (fileSystem.writeText path text) :
          ExceptT Failure (StateM Store) Unit).run.run s = (.ok u, s')) :
    ∃ s₁, (s₁ = s ∨ ∃ dir, s₁ = (s.createDirs dir).2) ∧ s₁.write path text = .ok s' := by
  cases hparent : UnixPath.parent path with
  | none =>
    rw [hparent] at h
    exact ⟨s, Or.inl rfl, eq_ok_of_run_update (run_of_attempt_eq_ok h)⟩
  | some dir =>
    rw [hparent] at h
    obtain ⟨_, s₁, hdirs, hwrite⟩ := exists_of_run_bind_eq_ok h
    have hdirs : s.createDirs dir = (.ok _, s₁) := run_of_attempt_eq_ok hdirs
    exact ⟨s₁, Or.inr ⟨dir, by rw [hdirs]⟩, eq_ok_of_run_update (run_of_attempt_eq_ok hwrite)⟩

/-- Replacing a file removes an older one, creates directories, and writes. -/
theorem exists_of_replaceFile {u : Unit}
    (h : (fileSystem.replaceFile path text).run.run s = (.ok u, s')) :
    ∃ s₁ s₂, (s₁ = s ∨ s.remove path = .ok s₁) ∧
      (s₂ = s₁ ∨ ∃ dir, s₂ = (s₁.createDirs dir).2) ∧ s₂.write path text = .ok s' := by
  unfold FileSystem.replaceFile at h
  obtain ⟨there, s₀, hthere, h⟩ := exists_of_run_bind_eq_ok h
  obtain rfl : s = s₀ := (Prod.mk.inj hthere).2
  cases there with
  | false =>
    obtain ⟨s₂, hcreate, hwrite⟩ := exists_of_createParent h
    exact ⟨s, s₂, Or.inl rfl, hcreate, hwrite⟩
  | true =>
    obtain ⟨_, s₁, hremove, h⟩ := exists_of_run_bind_eq_ok h
    obtain ⟨s₂, hcreate, hwrite⟩ := exists_of_createParent h
    exact ⟨s₁, s₂, Or.inr (eq_ok_of_run_update (run_of_attempt_eq_ok hremove)), hcreate, hwrite⟩

/-- Replacing a file leaves all others as they are. -/
theorem keeps_of_replaceFile {u : Unit}
    (h : (fileSystem.replaceFile path text).run.run s = (.ok u, s')) :
    Keeps [s.placeOf path] s s' := by
  obtain ⟨s₁, s₂, hremove, hcreate, hwrite⟩ := exists_of_replaceFile h
  have hfirst : Keeps [s.placeOf path] s s₁ := by
    rcases hremove with rfl | hremove
    · exact (Keeps.refl s₁).mono (List.nil_subset _)
    · exact keeps_of_remove hremove
  have hsecond : Keeps [] s₁ s₂ := by
    rcases hcreate with rfl | ⟨dir, rfl⟩
    · exact .refl s₂
    · exact keeps_of_createDirs s₁ dir
  have hthird := keeps_of_write hwrite
  rw [hsecond.placeOf, hfirst.placeOf] at hthird
  exact ((hfirst.trans hsecond).trans hthird).mono (by simp)

theorem read_of_replaceFile {u : Unit}
    (h : (fileSystem.replaceFile path text).run.run s = (.ok u, s')) :
    s'.read path = .ok text := by
  obtain ⟨s₁, s₂, -, -, hwrite⟩ := exists_of_replaceFile h
  exact read_of_write hwrite

end Store

end ApiPages
