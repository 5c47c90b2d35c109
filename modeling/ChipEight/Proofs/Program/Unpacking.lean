import ChipEight.Program.File
import ChipEight.Proofs.Archive.Collation

/-!
# Proofs/Program/Unpacking — which file of an archive is taken

The names of the files are put in alphabetical order, and the first one that is named like a program
is taken, or the first one if none is.  Sorting makes it the least of the files that may be taken
(`choose_least`).  Where names are printable and no two are the same, only one file is that
(`choose_eq_some_iff`), so the order of the members in the archive does not matter (`choose_perm`).
-/

namespace ChipEight.Archive

/-! ## Files by their names -/

/-- **The file of a name**, where no two members have the same one. -/
theorem file?_eq_some_iff {a : Archive} (hnames : (a.map (·.name)).Nodup) {name : String}
    {m : Member} : a.file? name = some m ↔ m ∈ a ∧ m.name = name ∧ m.isDirectory = false := by
  constructor
  · intro h
    have hm := List.find?_some h
    rw [Bool.and_eq_true, decide_eq_true_iff, Bool.not_eq_true'] at hm
    exact ⟨List.mem_of_find?_eq_some h, hm⟩
  · rintro ⟨hmem, rfl, hfile⟩
    obtain ⟨before, behind, rfl⟩ := List.append_of_mem hmem
    refine List.find?_eq_some_iff_append.mpr ⟨?_, before, behind, rfl, fun n hn => ?_⟩
    · simp only [hfile, decide_true, Bool.not_false, Bool.and_self]
    · rw [List.map_append, List.map_cons] at hnames
      have hne : n.name ≠ m.name :=
        (List.pairwise_append.mp hnames).2.2 _ (List.mem_map_of_mem hn) _ List.mem_cons_self
      simp only [hne, decide_false, Bool.false_and, Bool.not_false]

theorem mem_fileNames {a : Archive} {name : String} :
    name ∈ a.fileNames ↔ ∃ m ∈ a, m.isDirectory = false ∧ m.name = name := by
  -- Every name is on one side of the numerals or on the other.
  have hsplit (names : List String) :
      name ∈ names.filter isNumeral ++ names.filter (!isNumeral ·) ↔ name ∈ names := by
    cases h : isNumeral name <;> simp [h]
  rw [fileNames, List.mem_mergeSort, hsplit]
  simp [and_assoc]

theorem fileNames_pairwise (a : Archive) :
    a.fileNames.Pairwise fun m n => Collation.before m n = true :=
  List.pairwise_mergeSort Collation.before_trans Collation.before_total _

/-- The first of an ordered list is its least. -/
theorem before_of_head? {l : List String} (hl : l.Pairwise fun m n => Collation.before m n = true)
    {x : String} (h : l.head? = some x) : ∀ y ∈ l, Collation.before x y := by
  obtain ⟨behind, rfl⟩ := List.head?_eq_some_iff.mp h
  intro y hy
  rcases List.mem_cons.mp hy with rfl | hy
  · exact Collation.before_refl y
  · exact List.rel_of_pairwise_cons hl hy

/-- What is found first in an ordered list is the least of what is looked for. -/
theorem before_of_find? {l : List String} (hl : l.Pairwise fun m n => Collation.before m n = true)
    {p : String → Bool} {x : String} (h : l.find? p = some x) :
    ∀ y ∈ l, p y → Collation.before x y := by
  rw [← List.head?_filter] at h
  intro y hy hp
  exact before_of_head? (hl.filter p) h y (List.mem_filter.mpr ⟨hy, hp⟩)

/-! ## The file that is taken -/

/-- **The files that may be taken**: those named like programs, or all of them if none is. -/
structure Candidate (a : Archive) (m : Member) : Prop where
  mem : m ∈ a
  file : m.isDirectory = false
  named : isProgramName m.name ∨ ∀ n ∈ a, n.isDirectory = false → isProgramName n.name = false

/-- The least of the files that may be taken, by its name. -/
def Least (a : Archive) (name : String) : Prop :=
  (∃ m, a.Candidate m ∧ m.name = name) ∧ ∀ n, a.Candidate n → Collation.before name n.name

theorem candidate_perm {a b : Archive} (h : a.Perm b) {m : Member} :
    a.Candidate m ↔ b.Candidate m := by
  constructor
  · rintro ⟨hm, hfile, hnamed⟩
    exact ⟨h.mem_iff.mp hm, hfile, hnamed.imp_right fun hnone n hn => hnone n (h.mem_iff.mpr hn)⟩
  · rintro ⟨hm, hfile, hnamed⟩
    exact ⟨h.mem_iff.mpr hm, hfile, hnamed.imp_right fun hnone n hn => hnone n (h.mem_iff.mp hn)⟩

theorem least_perm {a b : Archive} (h : a.Perm b) {name : String} :
    a.Least name ↔ b.Least name := by
  simp only [Least, candidate_perm h]

/-- **The file that is taken** may be taken, and none that may be comes before it. -/
theorem choose_least {a : Archive} {name : String} (h : a.choose = some name) : a.Least name := by
  have hsorted := a.fileNames_pairwise
  cases hprogram : a.fileNames.find? isProgramName with
  | some found =>
    rw [choose, hprogram, Option.some_or, Option.some.injEq] at h
    subst h
    have hnamed := List.find?_some hprogram
    obtain ⟨m, hm, hfile, rfl⟩ := mem_fileNames.mp (List.mem_of_find?_eq_some hprogram)
    refine ⟨⟨m, ⟨hm, hfile, .inl hnamed⟩, rfl⟩, fun n hn => ?_⟩
    -- A file is named like a program, so others are candidates only if they are too.
    rcases hn.named with hn' | hnone
    · exact before_of_find? hsorted hprogram _ (mem_fileNames.mpr ⟨n, hn.mem, hn.file, rfl⟩) hn'
    · rw [hnone m hm hfile] at hnamed
      cases hnamed
  | none =>
    rw [choose, hprogram, Option.none_or] at h
    have hnone : ∀ n ∈ a, n.isDirectory = false → isProgramName n.name = false := fun n hn hfile =>
      Bool.eq_false_iff.mpr
        (List.find?_eq_none.mp hprogram _ (mem_fileNames.mpr ⟨n, hn, hfile, rfl⟩))
    obtain ⟨m, hm, hfile, rfl⟩ := mem_fileNames.mp (List.mem_of_head? h)
    refine ⟨⟨m, ⟨hm, hfile, .inr hnone⟩, rfl⟩, fun n hn => ?_⟩
    exact before_of_head? hsorted h _ (mem_fileNames.mpr ⟨n, hn.mem, hn.file, rfl⟩)

theorem choose_eq_none_iff {a : Archive} : a.choose = none ↔ ∀ m ∈ a, m.isDirectory = true := by
  have hnil : a.choose = none ↔ ∀ name, name ∉ a.fileNames := by
    rw [choose, Option.or_eq_none_iff, List.head?_eq_none_iff, ← List.eq_nil_iff_forall_not_mem]
    exact and_iff_right_of_imp fun h => h ▸ List.find?_nil
  rw [hnil]
  constructor
  · intro hnone m hm
    refine eq_true_of_ne_false fun hfile => ?_
    exact hnone m.name (mem_fileNames.mpr ⟨m, hm, hfile, rfl⟩)
  · intro hall name hname
    obtain ⟨m, hm, hfile, -⟩ := mem_fileNames.mp hname
    rw [hall m hm] at hfile
    cases hfile

variable {a b : Archive}

/-- **The file that is taken, as the only one of its kind**: of printable names no two are least. -/
theorem choose_eq_some_iff (hprintable : ∀ m ∈ a, Collation.Printable m.name) {name : String} :
    a.choose = some name ↔ a.Least name := by
  refine ⟨choose_least, fun hleast => ?_⟩
  obtain ⟨⟨m, hm, rfl⟩, hbefore⟩ := hleast
  cases hchoose : a.choose with
  | none =>
    have hdirectory := choose_eq_none_iff.mp hchoose m hm.mem
    rw [hm.file] at hdirectory
    cases hdirectory
  | some other =>
    obtain ⟨⟨n, hn, rfl⟩, hbefore'⟩ := choose_least hchoose
    exact congrArg some (Collation.before_antisymm (hprintable n hn.mem) (hprintable m hm.mem)
      (hbefore' m hm) (hbefore n hn))

/-- The file that is taken does not depend on the order of the members. -/
theorem choose_perm (hprintable : ∀ m ∈ a, Collation.Printable m.name) (h : a.Perm b) :
    b.choose = a.choose := by
  have hprintable' : ∀ m ∈ b, Collation.Printable m.name := fun m hm =>
    hprintable m (h.mem_iff.mpr hm)
  refine Option.ext fun name => ?_
  rw [choose_eq_some_iff hprintable, choose_eq_some_iff hprintable', least_perm h]

theorem file?_perm (hnames : (a.map (·.name)).Nodup) (h : a.Perm b) (name : String) :
    b.file? name = a.file? name := by
  refine Option.ext fun m => ?_
  rw [file?_eq_some_iff hnames, file?_eq_some_iff ((h.map _).nodup_iff.mp hnames), h.mem_iff]

/-! ## What is extracted -/

theorem extract_some (a : Archive) (path : String) :
    a.extract (some path) = match a.file? path with
      | some m => m.contents.mapError .archive
      | none => .error (.load (.memberMissing path)) := rfl

theorem extract_none_of_choose {name : String} (h : a.choose = some name) :
    a.extract none = a.extract (some name) := by
  simp only [extract, h, Option.none_or, Option.some_or]

theorem extract_of_mem (hnames : (a.map (·.name)).Nodup) {m : Member} (hm : m ∈ a)
    (hfile : m.isDirectory = false) : a.extract (some m.name) = m.contents.mapError .archive := by
  rw [extract_some, (file?_eq_some_iff hnames).mpr ⟨hm, rfl, hfile⟩]

theorem extract_of_missing (hnames : (a.map (·.name)).Nodup) {path : String}
    (h : ¬ ∃ m ∈ a, m.name = path ∧ m.isDirectory = false) :
    a.extract (some path) = .error (.load (.memberMissing path)) := by
  have hnone : a.file? path = none := Option.eq_none_iff_forall_ne_some.mpr fun m hm =>
    h ⟨m, (file?_eq_some_iff hnames).mp hm⟩
  rw [extract_some, hnone]

/-- Broken contents are an error of the archive, never of the loading. -/
theorem mapError_archive_ne_load {r : Except ArchiveError (List UInt8)} {e : LoadError} :
    r.mapError FileError.archive ≠ .error (.load e) := by
  cases r <;> exact nofun

theorem mapError_archive_eq_ok {r : Except ArchiveError (List UInt8)} {bytes : List UInt8} :
    r.mapError FileError.archive = .ok bytes ↔ r = .ok bytes := by
  cases r with
  | error e => exact iff_of_false nofun nofun
  | ok bytes' =>
    exact ⟨fun h => congrArg Except.ok (Except.ok.inj h),
      fun h => congrArg Except.ok (Except.ok.inj h)⟩

theorem extractProgram_of_read {data : List UInt8} (h : Archive.read data = .ok a)
    (path : Option String) : extractProgram data path = a.extract path := by
  rw [extractProgram, h]
  rfl

/-- What a path gives is what its file contains. -/
theorem extract_some_eq_ok_iff (hnames : (a.map (·.name)).Nodup) {path : String}
    {bytes : List UInt8} : a.extract (some path) = .ok bytes
      ↔ ∃ m ∈ a, m.name = path ∧ m.isDirectory = false ∧ m.contents = .ok bytes := by
  constructor
  · intro h
    rw [extract_some] at h
    split at h
    case h_1 m hm =>
      obtain ⟨hmem, hname, hfile⟩ := (file?_eq_some_iff hnames).mp hm
      exact ⟨m, hmem, hname, hfile, mapError_archive_eq_ok.mp h⟩
    case h_2 => cases h
  · rintro ⟨m, hm, rfl, hfile, hcontents⟩
    exact (extract_of_mem hnames hm hfile).trans (mapError_archive_eq_ok.mpr hcontents)

/-- A path gives nothing to load exactly if no file has it. -/
theorem extract_some_eq_load_iff (hnames : (a.map (·.name)).Nodup) {path : String} :
    (∃ e, a.extract (some path) = .error (.load e))
      ↔ ¬ ∃ m ∈ a, m.name = path ∧ m.isDirectory = false := by
  constructor
  · rintro ⟨e, h⟩ ⟨m, hm, rfl, hfile⟩
    exact mapError_archive_ne_load ((extract_of_mem hnames hm hfile).symm.trans h)
  · exact fun h => ⟨_, extract_of_missing hnames h⟩

/-- Without a path there is nothing to load exactly if there are directories only. -/
theorem extract_none_eq_load_iff (hnames : (a.map (·.name)).Nodup) :
    (∃ e, a.extract none = .error (.load e)) ↔ ∀ m ∈ a, m.isDirectory = true := by
  rw [← choose_eq_none_iff]
  cases hchoose : a.choose with
  | none => exact iff_of_true ⟨.archiveEmpty, by rw [extract, hchoose]; rfl⟩ rfl
  | some name =>
    obtain ⟨⟨m, hm, rfl⟩, -⟩ := choose_least hchoose
    rw [extract_none_of_choose hchoose, extract_some_eq_load_iff hnames]
    exact iff_of_false (not_not_intro ⟨m, hm.mem, rfl, hm.file⟩) nofun

/-- **The file that is taken, among the others**: every other one that may be taken comes later. -/
theorem extract_none_of_exists (hnames : (a.map (·.name)).Nodup)
    (hprintable : ∀ m ∈ a, Collation.Printable m.name) (h : ∃ m ∈ a, m.isDirectory = false) :
    ∃ m, a.Candidate m
      ∧ (∀ n, a.Candidate n → n ≠ m →
          Collation.before m.name n.name ∧ ¬ Collation.before n.name m.name)
      ∧ a.extract none = m.contents.mapError .archive := by
  cases hchoose : a.choose with
  | none =>
    obtain ⟨m, hm, hfile⟩ := h
    rw [choose_eq_none_iff.mp hchoose m hm] at hfile
    cases hfile
  | some name =>
    obtain ⟨⟨m, hm, rfl⟩, hbefore⟩ := choose_least hchoose
    have hextract := (extract_none_of_choose hchoose).trans (extract_of_mem hnames hm.mem hm.file)
    refine ⟨m, hm, fun n hn hne => ⟨hbefore n hn, fun hbehind => hne ?_⟩, hextract⟩
    have hname := Collation.before_antisymm (hprintable n hn.mem) (hprintable m hm.mem) hbehind
      (hbefore n hn)
    have hfound := (file?_eq_some_iff hnames).mpr ⟨hm.mem, rfl, hm.file⟩
    have hfound' := (file?_eq_some_iff hnames).mpr ⟨hn.mem, hname, hn.file⟩
    exact Option.some.inj (hfound'.symm.trans hfound)

theorem extract_perm (hnames : (a.map (·.name)).Nodup)
    (hprintable : ∀ m ∈ a, Collation.Printable m.name) (h : a.Perm b) (path : Option String) :
    b.extract path = a.extract path := by
  have hfound := funext (file?_perm hnames h)
  simp only [extract, choose_perm hprintable h, hfound]

/-- **Unpacking is canonical.**  Say the names in an archive are printable and no two are the same.
Then what comes out of data that holds the archive is what comes out of the archive.  If there is a
file at all, one that may be taken comes before all others that may be, and its contents are what
comes out when no path is given; there is nothing to load exactly if all members are directories.
The order of the members does not matter.  With a path the contents of the file of that name come
out, and if there is none there is nothing to load. -/
theorem extract_canonical (a : Archive) (hnames : (a.map (·.name)).Nodup)
    (hprintable : ∀ m ∈ a, Collation.Printable m.name) :
    (∀ data path, Archive.read data = .ok a → extractProgram data path = a.extract path)
    ∧ ((∃ m ∈ a, m.isDirectory = false) → ∃ m, a.Candidate m
        ∧ (∀ n, a.Candidate n → n ≠ m →
            Collation.before m.name n.name ∧ ¬ Collation.before n.name m.name)
        ∧ a.extract none = m.contents.mapError .archive)
    ∧ ((∃ e, a.extract none = .error (.load e)) ↔ ∀ m ∈ a, m.isDirectory = true)
    ∧ (∀ b : Archive, a.Perm b → ∀ path, b.extract path = a.extract path)
    ∧ ∀ path,
        (∀ bytes, a.extract (some path) = .ok bytes
          ↔ ∃ m ∈ a, m.name = path ∧ m.isDirectory = false ∧ m.contents = .ok bytes)
        ∧ ((∃ e, a.extract (some path) = .error (.load e))
          ↔ ¬ ∃ m ∈ a, m.name = path ∧ m.isDirectory = false) := by
  exact ⟨fun data path h => extractProgram_of_read h path,
    extract_none_of_exists hnames hprintable, extract_none_eq_load_iff hnames,
    fun b h => extract_perm hnames hprintable h,
    fun path => ⟨fun bytes => extract_some_eq_ok_iff hnames, extract_some_eq_load_iff hnames⟩⟩

/-- Two programs, a text and a directory: the name in capitals is the first of a program. -/
theorem extract_canonical_shelf :
    let docs : Member := ⟨"docs/", true, .ok []⟩
    let readme : Member := ⟨"a readme.txt", false, .ok [0x41]⟩
    let maze : Member := ⟨"MAZE.C8", false, .ok [0x12, 0x00]⟩
    let pong : Member := ⟨"pong.ch8", false, .ok [0x12, 0x02]⟩
    let shelf : Archive := [pong, docs, readme, maze]
    (shelf.map (·.name)).Nodup ∧ (∀ m ∈ shelf, Collation.Printable m.name)
      ∧ (∀ b : Archive, shelf.Perm b → b.extract none = .ok [0x12, 0x00])
      ∧ shelf.extract (some "pong.ch8") = .ok [0x12, 0x02] := by
  intro docs readme maze pong shelf
  have hnames : (shelf.map (·.name)).Nodup := by decide
  have hprintable : ∀ m ∈ shelf, Collation.Printable m.name := by decide
  obtain ⟨-, -, -, hperm, hpath⟩ := extract_canonical shelf hnames hprintable
  have hmem : maze ∈ shelf := by simp [shelf]
  have hprogram : isProgramName maze.name := by decide
  have hfirst : ∀ n ∈ shelf, isProgramName n.name → Collation.before maze.name n.name := by decide
  have hchoose : shelf.choose = some maze.name := by
    refine (choose_eq_some_iff hprintable).mpr
      ⟨⟨maze, ⟨hmem, rfl, .inl hprogram⟩, rfl⟩, fun n hn => hfirst n hn.mem ?_⟩
    refine hn.named.resolve_right fun hnone => ?_
    rw [hnone maze hmem rfl] at hprogram
    cases hprogram
  have hmaze : shelf.extract (some maze.name) = .ok [0x12, 0x00] :=
    ((hpath _).1 _).mpr ⟨maze, hmem, rfl, rfl, rfl⟩
  exact ⟨hnames, hprintable,
    fun b h => (hperm b h none).trans ((extract_none_of_choose hchoose).trans hmaze),
    ((hpath _).1 _).mpr ⟨pong, List.mem_cons_self, rfl, rfl, rfl⟩⟩

end ChipEight.Archive
