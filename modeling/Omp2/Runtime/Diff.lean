import Mathlib.Data.List.Lex
import Mathlib.Data.String.Basic
import Omp2.Library.EditScript
import Omp2.Library.Pairing

/-!
# Workspace diffs

`compute_diff` of `omp-runtime/src/workspace.rs` compares the files of an isolated workspace with
the files at its allocation. Both are hash maps, which are walked in any order; a map is the list of
its entries in the order of the walk. A created file is paired with a deleted one of the same
content as a rename. The entries of the diff are an edit script between the two maps, except that a
file whose size changed under the same hash is taken for unchanged.
-/

namespace Omp2.Runtime

open EditScript Pairing List

/-- A place: the names that lead to it from the root directory. -/
abbrev Place := List String

/-- `FileBaseline`. -/
structure FileBaseline where
  size : UInt64
  sha256 : String
  deriving DecidableEq, Repr

/-- A hash map from paths to files, in the order in which it is walked. -/
structure FileMap where
  entries : List (Place × FileBaseline)
  distinct : (entries.map Prod.fst).Nodup

/-- `get`. -/
def FileMap.get (files : FileMap) (path : Place) : Option FileBaseline :=
  (files.entries.find? fun entry => decide (entry.1 = path)).map Prod.snd

/-- `DiffKind`. -/
inductive DiffKind where
  | created
  | modified
  | deleted
  | renamed (source : Place)
  deriving DecidableEq, Repr

/-- `FileDiffEntry`. -/
structure FileDiffEntry where
  path : Place
  kind : DiffKind
  bytesChanged : UInt64
  beforeBytes : Option UInt64
  afterBytes : Option UInt64
  beforeHash : Option String
  afterHash : Option String
  deriving DecidableEq, Repr

/-! ## The comparison -/

/-- The entry of a file that is in both maps. -/
def modifiedEntry (path : Place) (base iso : FileBaseline) : FileDiffEntry where
  path
  kind := .modified
  bytesChanged := if base.size ≤ iso.size then iso.size - base.size else base.size - iso.size
  beforeBytes := some base.size
  afterBytes := some iso.size
  beforeHash := some base.sha256
  afterHash := some iso.sha256

def renamedEntry (pair : (Place × FileBaseline) × (Place × FileBaseline)) : FileDiffEntry where
  path := pair.2.1
  kind := .renamed pair.1.1
  bytesChanged := 0
  beforeBytes := some pair.1.2.size
  afterBytes := some pair.2.2.size
  beforeHash := some pair.1.2.sha256
  afterHash := some pair.2.2.sha256

def createdEntry (file : Place × FileBaseline) : FileDiffEntry where
  path := file.1
  kind := .created
  bytesChanged := file.2.size
  beforeBytes := none
  afterBytes := some file.2.size
  beforeHash := none
  afterHash := some file.2.sha256

def deletedEntry (file : Place × FileBaseline) : FileDiffEntry where
  path := file.1
  kind := .deleted
  bytesChanged := file.2.size
  beforeBytes := some file.2.size
  afterBytes := none
  beforeHash := some file.2.sha256
  afterHash := none

/-- What the loop over the isolated files collects. -/
structure Matching where
  entries : List FileDiffEntry
  matched : List Place
  created : List (Place × FileBaseline)

/-- One round of the loop over the isolated files. -/
def Matching.visit (baseline : FileMap) (found : Matching) (file : Place × FileBaseline) :
    Matching :=
  match baseline.get file.1 with
  | some base =>
    { found with
      matched := file.1 :: found.matched
      entries :=
        if file.2.sha256 ≠ base.sha256 then found.entries ++ [modifiedEntry file.1 base file.2]
        else found.entries }
  | none => { found with created := found.created ++ [file] }

/-- The loop over the isolated files. -/
def matchFiles (baseline isolated : FileMap) : Matching :=
  isolated.entries.foldl (Matching.visit baseline) ⟨[], [], []⟩

/-- The files of the baseline that no isolated file matched. -/
def deletedFiles (baseline isolated : FileMap) : List (Place × FileBaseline) :=
  baseline.entries.filter fun file => decide (file.1 ∉ (matchFiles baseline isolated).matched)

/-- A deleted and a created file with the same content. -/
def sameContent (deleted created : Place × FileBaseline) : Bool :=
  decide (deleted.2.sha256 = created.2.sha256 ∧ deleted.2.size = created.2.size)

/-- The entries in the order in which they are pushed. -/
def unsortedEntries (baseline isolated : FileMap) : List FileDiffEntry :=
  let found := matchFiles baseline isolated
  let deleted := deletedFiles baseline isolated
  let renames := greedy sameContent deleted found.created
  found.entries ++ renames.pairs.map renamedEntry ++
    (unpaired renames.usedRight found.created).map createdEntry ++
    (unpaired renames.usedLeft deleted).map deletedEntry

/-- The entries of the diff. -/
def diffEntries (baseline isolated : FileMap) : List FileDiffEntry :=
  (unsortedEntries baseline isolated).mergeSort fun a b => decide (a.path ≤ b.path)

/-! ## Entries as edits -/

/-- The file an entry leaves at its path. -/
def FileDiffEntry.after (entry : FileDiffEntry) : Option FileBaseline :=
  match entry.afterBytes, entry.afterHash with
  | some size, some sha256 => some { size, sha256 }
  | _, _ => none

/-- What an entry does to a map of files. -/
def FileDiffEntry.edit (entry : FileDiffEntry) : Edit Place FileBaseline :=
  match entry.kind with
  | .created | .modified => .set entry.path entry.after
  | .deleted => .set entry.path none
  | .renamed source => .move source entry.path

/-- The paths an entry names: its own, and the source of a rename. -/
def FileDiffEntry.touched (entry : FileDiffEntry) : List Place :=
  entry.edit.touched

/-! ## The maps -/

theorem FileMap.get_eq_some {files : FileMap} {path : Place} {info : FileBaseline} :
    files.get path = some info ↔ (path, info) ∈ files.entries := by
  unfold FileMap.get
  rw [Option.map_eq_some_iff]
  constructor
  · rintro ⟨entry, hfind, rfl⟩
    have hpath := find?_some hfind
    rw [decide_eq_true_eq] at hpath
    rw [← hpath]
    exact mem_of_find?_eq_some hfind
  · intro hmem
    cases hfind : files.entries.find? fun entry => decide (entry.1 = path) with
    | none =>
      have hnot := find?_eq_none.mp hfind _ hmem
      simp at hnot
    | some entry =>
      have hpath := find?_some hfind
      rw [decide_eq_true_eq] at hpath
      have hentry := mem_of_find?_eq_some hfind
      refine ⟨entry, rfl, ?_⟩
      exact congrArg Prod.snd
        (inj_on_of_nodup_map files.distinct hentry hmem hpath)

theorem FileMap.get_eq_none {files : FileMap} {path : Place} :
    files.get path = none ↔ path ∉ files.entries.map Prod.fst := by
  rw [Option.eq_none_iff_forall_ne_some, mem_map]
  constructor
  · rintro h ⟨⟨_, info⟩, hmem, rfl⟩
    exact h info (FileMap.get_eq_some.mpr hmem)
  · intro h info hinfo
    exact h ⟨_, FileMap.get_eq_some.mp hinfo, rfl⟩

/-! ## What the comparison finds -/

variable {baseline isolated : FileMap}

/-- The hash of a file that is in both maps has changed. -/
def hashChanged (baseline : FileMap) (file : Place × FileBaseline) : Bool :=
  (baseline.get file.1).any fun base => decide (file.2.sha256 ≠ base.sha256)

/-- The loop has sorted the files it has seen. -/
structure Matching.Sorted (baseline : FileMap) (seen : List (Place × FileBaseline))
    (found : Matching) : Prop where
  entries : ∀ entry ∈ found.entries, ∃ file ∈ seen, ∃ base, baseline.get file.1 = some base ∧
    entry = modifiedEntry file.1 base file.2
  paths : found.entries.map FileDiffEntry.path =
    (seen.filter (hashChanged baseline)).map Prod.fst
  matched : ∀ path, path ∈ found.matched ↔ path ∈ seen.map Prod.fst ∧ baseline.get path ≠ none
  created : found.created = seen.filter fun file => decide (baseline.get file.1 = none)

theorem Matching.Sorted.visit {seen : List (Place × FileBaseline)} {found : Matching}
    (h : found.Sorted baseline seen) (file : Place × FileBaseline) :
    (found.visit baseline file).Sorted baseline (seen ++ [file]) := by
  have hseen : ∀ {entry : FileDiffEntry}, (∃ f ∈ seen, ∃ base, baseline.get f.1 = some base ∧
      entry = modifiedEntry f.1 base f.2) → ∃ f ∈ seen ++ [file], ∃ base,
        baseline.get f.1 = some base ∧ entry = modifiedEntry f.1 base f.2 := by
    rintro entry ⟨f, hf, hrest⟩
    exact ⟨f, mem_append_left _ hf, hrest⟩
  unfold Matching.visit
  cases hbase : baseline.get file.1 with
  | none =>
      have hsame : hashChanged baseline file = false := by
        unfold hashChanged
        rw [hbase]
        rfl
      refine ⟨fun entry hentry => hseen (h.entries entry hentry), ?_, fun path => ?_, ?_⟩
      · rw [filter_append, filter_singleton, hsame, map_append]
        exact h.paths.trans (append_nil _).symm
      · rw [h.matched, map_append, mem_append, or_and_right]
        refine (or_iff_left ?_).symm
        rintro ⟨hpath, hsome⟩
        rw [mem_singleton.mp hpath] at hsome
        exact hsome hbase
      · rw [filter_append, filter_singleton, hbase]
        exact congrArg (· ++ [file]) h.created
  | some base =>
      have hsame : hashChanged baseline file = decide (file.2.sha256 ≠ base.sha256) := by
        unfold hashChanged
        rw [hbase]
        rfl
      refine ⟨fun entry hentry => ?_, ?_, fun path => ?_, ?_⟩
      · dsimp only at hentry
        split at hentry
        · rcases mem_append.mp hentry with hold | hnew
          · exact hseen (h.entries entry hold)
          · exact ⟨file, mem_append_right _ (mem_singleton_self _), base, hbase,
              mem_singleton.mp hnew⟩
        · exact hseen (h.entries entry hentry)
      · rw [filter_append, filter_singleton, hsame, map_append, ← h.paths]
        dsimp only
        by_cases hchanged : file.2.sha256 ≠ base.sha256
        · rw [if_pos hchanged, decide_eq_true hchanged, map_append]
          rfl
        · rw [if_neg hchanged, decide_eq_false hchanged]
          exact (append_nil _).symm
      · rw [mem_cons, h.matched, map_append, mem_append, or_and_right, or_comm]
        refine or_congr_right ?_
        rw [map_singleton, mem_singleton]
        refine ⟨fun heq => ⟨heq, ?_⟩, And.left⟩
        rw [heq, hbase]
        exact Option.some_ne_none base
      · rw [filter_append, filter_singleton, hbase]
        exact h.created.trans (append_nil _).symm

theorem matchFiles_sorted (baseline isolated : FileMap) :
    (matchFiles baseline isolated).Sorted baseline isolated.entries := by
  have hfold : ∀ (rest seen : List (Place × FileBaseline)) (found : Matching),
      found.Sorted baseline seen →
        (rest.foldl (Matching.visit baseline) found).Sorted baseline (seen ++ rest) := by
    intro rest
    induction rest with
    | nil =>
      intro seen found h
      rw [append_nil]
      exact h
    | cons file rest ih =>
      intro seen found h
      rw [append_cons]
      exact ih _ _ (h.visit file)
  exact hfold isolated.entries [] ⟨[], [], []⟩ ⟨nofun, rfl, fun path => by simp, rfl⟩

/-- The deleted files are those of the baseline that the isolated map does not have. -/
theorem deletedFiles_eq (baseline isolated : FileMap) :
    deletedFiles baseline isolated =
      baseline.entries.filter fun file => decide (isolated.get file.1 = none) := by
  refine filter_congr fun file hfile => decide_eq_decide.mpr ?_
  have hbase : baseline.get file.1 ≠ none := by
    rw [FileMap.get_eq_some.mpr (show (file.1, file.2) ∈ baseline.entries from hfile)]
    exact Option.some_ne_none _
  rw [(matchFiles_sorted baseline isolated).matched, FileMap.get_eq_none]
  exact not_congr (and_iff_left hbase)

/-! ## The edit script -/

theorem eq_of_sameContent {deleted created : Place × FileBaseline}
    (h : sameContent deleted created = true) : deleted.2 = created.2 := by
  obtain ⟨hhash, hsize⟩ := of_decide_eq_true h
  obtain ⟨_, ⟨⟩⟩ := deleted
  obtain ⟨_, ⟨⟩⟩ := created
  cases hhash
  cases hsize
  rfl

/-- What is known of an entry of the diff. -/
inductive EntryOf (baseline isolated : FileMap) (entry : FileDiffEntry) : Prop where
  | modified (base iso : FileBaseline) : baseline.get entry.path = some base →
      isolated.get entry.path = some iso → entry = modifiedEntry entry.path base iso →
      EntryOf baseline isolated entry
  | created (iso : FileBaseline) : baseline.get entry.path = none →
      isolated.get entry.path = some iso → entry = createdEntry (entry.path, iso) →
      EntryOf baseline isolated entry
  | deleted (base : FileBaseline) : baseline.get entry.path = some base →
      isolated.get entry.path = none → entry = deletedEntry (entry.path, base) →
      EntryOf baseline isolated entry
  | renamed (source : Place) (info : FileBaseline) : baseline.get source = some info →
      isolated.get source = none → baseline.get entry.path = none →
      isolated.get entry.path = some info →
      entry = renamedEntry ((source, info), (entry.path, info)) → EntryOf baseline isolated entry

theorem mem_createdFiles {file : Place × FileBaseline}
    (h : file ∈ (matchFiles baseline isolated).created) :
    baseline.get file.1 = none ∧ isolated.get file.1 = some file.2 := by
  rw [(matchFiles_sorted baseline isolated).created, mem_filter, decide_eq_true_eq] at h
  exact ⟨h.2, FileMap.get_eq_some.mpr h.1⟩

theorem mem_deletedFiles {file : Place × FileBaseline}
    (h : file ∈ deletedFiles baseline isolated) :
    baseline.get file.1 = some file.2 ∧ isolated.get file.1 = none := by
  rw [deletedFiles_eq, mem_filter, decide_eq_true_eq] at h
  exact ⟨FileMap.get_eq_some.mpr h.1, h.2⟩

/-- Every entry comes from one of the four passes. -/
theorem entryOf_of_mem {entry : FileDiffEntry} (h : entry ∈ diffEntries baseline isolated) :
    EntryOf baseline isolated entry := by
  obtain ⟨hfit, hleft, hright⟩ := greedy_sound sameContent (deletedFiles baseline isolated)
    (matchFiles baseline isolated).created
  unfold diffEntries at h
  rw [(mergeSort_perm _ _).mem_iff] at h
  unfold unsortedEntries at h
  simp only [mem_append] at h
  rcases h with ((hmodified | hrenamed) | hcreated) | hdeleted
  · obtain ⟨file, hfile, base, hbase, rfl⟩ :=
      (matchFiles_sorted baseline isolated).entries entry hmodified
    exact .modified base file.2 hbase (FileMap.get_eq_some.mpr hfile) rfl
  · obtain ⟨⟨⟨source, info⟩, ⟨target, iso⟩⟩, hpair, rfl⟩ := mem_map.mp hrenamed
    obtain rfl : info = iso := eq_of_sameContent (hfit _ hpair)
    obtain ⟨hbase, hgone⟩ := mem_deletedFiles (hleft.mem_iff.mpr
      (mem_append_left _ (mem_map_of_mem hpair)))
    obtain ⟨hnew, hiso⟩ := mem_createdFiles (hright.mem_iff.mpr
      (mem_append_left _ (mem_map_of_mem hpair)))
    exact .renamed source info hbase hgone hnew hiso rfl
  · obtain ⟨file, hfile, rfl⟩ := mem_map.mp hcreated
    obtain ⟨hnew, hiso⟩ := mem_createdFiles (hright.mem_iff.mpr
      (mem_append_right _ hfile))
    exact .created file.2 hnew hiso rfl
  · obtain ⟨file, hfile, rfl⟩ := mem_map.mp hdeleted
    obtain ⟨hbase, hgone⟩ := mem_deletedFiles (hleft.mem_iff.mpr
      (mem_append_right _ hfile))
    exact .deleted file.2 hbase hgone rfl

/-- Every entry is a right edit from the baseline to the isolated files. -/
theorem EntryOf.right {entry : FileDiffEntry} (h : EntryOf baseline isolated entry) :
    entry.edit.Right baseline.get isolated.get := by
  cases h with
  | modified base iso _ hiso hentry =>
      rw [hentry]
      exact hiso
  | created iso _ hiso hentry =>
      rw [hentry]
      exact hiso
  | deleted base _ hgone hentry =>
      rw [hentry]
      exact hgone
  | renamed source info hbase hgone _ hiso hentry =>
      rw [hentry]
      exact ⟨hiso.trans hbase.symm, hgone⟩

theorem flatMap_touched_singleton {γ : Type} (items : List γ) (entryOf : γ → FileDiffEntry)
    (path : γ → Place) (h : ∀ item ∈ items, (entryOf item).touched = [path item]) :
    (items.map entryOf).flatMap FileDiffEntry.touched = items.map path := by
  rw [flatMap_map, map_eq_flatMap]
  exact flatMap_congr h

/-- The paths the entries name, pass by pass. -/
theorem touched_perm (baseline isolated : FileMap) :
    ((diffEntries baseline isolated).flatMap FileDiffEntry.touched).Perm
      ((isolated.entries.filter (hashChanged baseline)).map Prod.fst ++
        ((matchFiles baseline isolated).created.map Prod.fst ++
          (deletedFiles baseline isolated).map Prod.fst)) := by
  obtain ⟨-, hleft, hright⟩ := greedy_sound sameContent (deletedFiles baseline isolated)
    (matchFiles baseline isolated).created
  have hsorted := matchFiles_sorted baseline isolated
  have hmodified : (matchFiles baseline isolated).entries.flatMap FileDiffEntry.touched =
      (isolated.entries.filter (hashChanged baseline)).map Prod.fst := by
    rw [← hsorted.paths, ← map_id (matchFiles baseline isolated).entries, map_map]
    refine flatMap_touched_singleton _ id FileDiffEntry.path fun entry hentry => ?_
    obtain ⟨file, -, base, -, rfl⟩ := hsorted.entries entry hentry
    rfl
  generalize hgreedy : greedy sameContent (deletedFiles baseline isolated)
    (matchFiles baseline isolated).created = renames at hleft hright
  have hrenamed : ((renames.pairs.map renamedEntry).flatMap FileDiffEntry.touched).Perm
      ((renames.pairs.map Prod.snd).map Prod.fst ++ (renames.pairs.map Prod.fst).map Prod.fst) := by
    rw [flatMap_map, map_map, map_map, map_eq_flatMap, map_eq_flatMap]
    exact (flatMap_append_perm renames.pairs (fun pair => [pair.2.1])
      fun pair => [pair.1.1]).symm
  have hcreated : ((unpaired renames.usedRight (matchFiles baseline isolated).created).map
      createdEntry).flatMap FileDiffEntry.touched =
        (unpaired renames.usedRight (matchFiles baseline isolated).created).map Prod.fst :=
    flatMap_touched_singleton _ createdEntry Prod.fst fun _ _ => rfl
  have hdeleted : ((unpaired renames.usedLeft (deletedFiles baseline isolated)).map
      deletedEntry).flatMap FileDiffEntry.touched =
        (unpaired renames.usedLeft (deletedFiles baseline isolated)).map Prod.fst :=
    flatMap_touched_singleton _ deletedEntry Prod.fst fun _ _ => rfl
  have hleft := hleft.map Prod.fst
  have hright := hright.map Prod.fst
  rw [map_append] at hleft hright
  unfold diffEntries
  refine ((mergeSort_perm _ _).flatMap_right _).trans ?_
  unfold unsortedEntries
  simp only [hgreedy, flatMap_append, hmodified, hcreated, hdeleted, append_assoc]
  refine List.Perm.append_left _ ?_
  refine (hrenamed.append_right _).trans ?_
  refine List.Perm.trans ?_ (hright.append hleft).symm
  rw [append_assoc, append_assoc]
  refine List.Perm.append_left _ ?_
  rw [← append_assoc, ← append_assoc]
  exact perm_append_comm.append_right _

/-- No path is named twice. -/
theorem touched_nodup (baseline isolated : FileMap) :
    ((diffEntries baseline isolated).flatMap FileDiffEntry.touched).Nodup := by
  refine (touched_perm baseline isolated).nodup_iff.mpr ?_
  have hcreated : ∀ path ∈ (matchFiles baseline isolated).created.map Prod.fst,
      baseline.get path = none ∧ isolated.get path ≠ none := by
    intro path hpath
    obtain ⟨file, hfile, rfl⟩ := mem_map.mp hpath
    obtain ⟨hnew, hiso⟩ := mem_createdFiles hfile
    exact ⟨hnew, by rw [hiso]; exact Option.some_ne_none _⟩
  have hdeleted : ∀ path ∈ (deletedFiles baseline isolated).map Prod.fst,
      isolated.get path = none := by
    intro path hpath
    obtain ⟨file, hfile, rfl⟩ := mem_map.mp hpath
    exact (mem_deletedFiles hfile).2
  have hmodified : ∀ path ∈ (isolated.entries.filter (hashChanged baseline)).map Prod.fst,
      baseline.get path ≠ none ∧ isolated.get path ≠ none := by
    intro path hpath
    obtain ⟨file, hfile, rfl⟩ := mem_map.mp hpath
    obtain ⟨hmem, hchanged⟩ := mem_filter.mp hfile
    obtain ⟨base, hbase, -⟩ := (Option.any_eq_true _ _).mp hchanged
    rw [hbase, FileMap.get_eq_some.mpr (show (file.1, file.2) ∈ isolated.entries from hmem)]
    exact ⟨Option.some_ne_none _, Option.some_ne_none _⟩
  rw [(matchFiles_sorted baseline isolated).created, deletedFiles_eq] at *
  refine nodup_append'.mpr ⟨isolated.distinct.sublist (filter_sublist.map _),
    nodup_append'.mpr ⟨isolated.distinct.sublist (filter_sublist.map _),
      baseline.distinct.sublist (filter_sublist.map _), ?_⟩, ?_⟩
  · intro path hleft hright
    exact (hcreated path hleft).2 (hdeleted path hright)
  · intro path hleft hright
    rcases mem_append.mp hright with hnew | hold
    · exact (hmodified path hleft).1 (hcreated path hnew).1
    · exact (hmodified path hleft).2 (hdeleted path hold)

/-- The paths that are named are those whose hash changed, counting a missing file as a change. -/
theorem mem_touched {path : Place} :
    path ∈ (diffEntries baseline isolated).flatMap FileDiffEntry.touched ↔
      (baseline.get path).map FileBaseline.sha256 ≠
        (isolated.get path).map FileBaseline.sha256 := by
  rw [(touched_perm baseline isolated).mem_iff, (matchFiles_sorted baseline isolated).created,
    deletedFiles_eq]
  have hin : ∀ {files : FileMap} {keep : Place × FileBaseline → Bool},
      path ∈ (files.entries.filter keep).map Prod.fst ↔
        ∃ info, files.get path = some info ∧ keep (path, info) = true := by
    intro files keep
    rw [mem_map]
    constructor
    · rintro ⟨⟨_, info⟩, hfile, rfl⟩
      obtain ⟨hmem, hkeep⟩ := mem_filter.mp hfile
      exact ⟨info, FileMap.get_eq_some.mpr hmem, hkeep⟩
    · rintro ⟨info, hget, hkeep⟩
      exact ⟨(path, info), mem_filter.mpr ⟨FileMap.get_eq_some.mp hget, hkeep⟩, rfl⟩
  rw [mem_append, mem_append, hin, hin, hin]
  unfold hashChanged
  cases hbase : baseline.get path with
  | none =>
      cases hiso : isolated.get path with
      | none => simp [hbase]
      | some iso => simp [hbase]
  | some base =>
      cases hiso : isolated.get path with
      | none => simp [hiso]
      | some iso => simp [hbase, hiso, ne_comm]

/-- The entries are an edit script from the baseline to the isolated files: their replay gives the
isolated files, they name each changed path once and no other, a rename pairs a file that went
with one that came and has the same content, and they are sorted by path. -/
structure Faithful (baseline isolated : FileMap) (entries : List FileDiffEntry) : Prop where
  replayed : ∀ path,
    replay baseline.get (entries.map FileDiffEntry.edit) path = isolated.get path
  once : (entries.flatMap FileDiffEntry.touched).Nodup
  changed : ∀ path, path ∈ entries.flatMap FileDiffEntry.touched ↔
    baseline.get path ≠ isolated.get path
  renames : ∀ entry ∈ entries, ∀ source, entry.kind = .renamed source →
    ∃ info, baseline.get source = some info ∧ isolated.get source = none ∧
      baseline.get entry.path = none ∧ isolated.get entry.path = some info
  sorted : entries.Pairwise fun a b => a.path ≤ b.path

/-- The diff is a faithful edit script, for every order in which the maps are walked, exactly when
no file changed its size under the same hash. -/
theorem diffEntries_faithful_iff (baseline isolated : FileMap) :
    Faithful baseline isolated (diffEntries baseline isolated) ↔
      ∀ path base iso, baseline.get path = some base → isolated.get path = some iso →
        base.sha256 = iso.sha256 → base.size = iso.size := by
  constructor
  · intro h path base iso hbase hiso hhash
    by_contra hsize
    have hne : baseline.get path ≠ isolated.get path := by
      rw [hbase, hiso]
      exact fun heq => hsize (congrArg FileBaseline.size (Option.some.inj heq))
    have hmem := mem_touched.mp ((h.changed path).mpr hne)
    rw [hbase, hiso] at hmem
    exact hmem (congrArg some hhash)
  · intro hsizes
    have hchanged : ∀ path,
        path ∈ (diffEntries baseline isolated).flatMap FileDiffEntry.touched ↔
          baseline.get path ≠ isolated.get path := by
      intro path
      rw [mem_touched]
      refine not_congr ⟨fun hhash => ?_, congrArg _⟩
      cases hbase : baseline.get path with
      | none =>
        rw [hbase] at hhash
        exact (Option.map_eq_none_iff.mp hhash.symm).symm
      | some base =>
        rw [hbase] at hhash
        obtain ⟨iso, hiso, hsame⟩ := Option.map_eq_some_iff.mp hhash.symm
        rw [hiso]
        have hsize := hsizes path base iso hbase hiso hsame.symm
        obtain ⟨⟩ := base
        obtain ⟨⟩ := iso
        cases hsame
        cases hsize
        rfl
    have htouched : (diffEntries baseline isolated).flatMap FileDiffEntry.touched =
        ((diffEntries baseline isolated).map FileDiffEntry.edit).flatMap Edit.touched := by
      rw [flatMap_map]
      rfl
    refine ⟨fun path => ?_, touched_nodup baseline isolated, hchanged, ?_, ?_⟩
    · have hright : ∀ edit ∈ (diffEntries baseline isolated).map FileDiffEntry.edit,
          Edit.Right baseline.get isolated.get edit := by
        intro edit hedit
        obtain ⟨entry, hentry, rfl⟩ := mem_map.mp hedit
        exact (entryOf_of_mem hentry).right
      have hdistinct := touched_nodup baseline isolated
      rw [htouched] at hdistinct
      rw [replay_eq hright hdistinct fun _ _ => rfl, ← htouched]
      split
      · rfl
      · next hnot => exact not_not.mp fun hne => hnot ((hchanged path).mpr hne)
    · intro entry hentry source hkind
      cases entryOf_of_mem hentry with
      | modified base iso _ _ heq =>
        rw [heq] at hkind
        cases hkind
      | created iso _ _ heq =>
        rw [heq] at hkind
        cases hkind
      | deleted base _ _ heq =>
        rw [heq] at hkind
        cases hkind
      | renamed other info hbase hgone hnew hiso heq =>
        rw [heq] at hkind
        cases hkind
        exact ⟨info, hbase, hgone, hnew, hiso⟩
    · have hpairwise : (diffEntries baseline isolated).Pairwise
          fun a b => decide (a.path ≤ b.path) = true := by
        refine pairwise_mergeSort (fun a b c hab hbc => ?_) (fun a b => ?_) _
        · exact decide_eq_true (le_trans (of_decide_eq_true hab) (of_decide_eq_true hbc))
        · simpa using le_total a.path b.path
      exact hpairwise.imp of_decide_eq_true

/-- A file that grows under the same hash is missing from the diff. -/
theorem not_faithful_resized :
    ¬Faithful ⟨[(["a"], ⟨1, "00"⟩)], by decide⟩ ⟨[(["a"], ⟨2, "00"⟩)], by decide⟩
      (diffEntries ⟨[(["a"], ⟨1, "00"⟩)], by decide⟩ ⟨[(["a"], ⟨2, "00"⟩)], by decide⟩) := by
  intro h
  have hmem := mem_touched.mp ((h.changed ["a"]).mpr (by decide))
  exact hmem rfl

end Omp2.Runtime
