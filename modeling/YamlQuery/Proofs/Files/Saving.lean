import YamlQuery.Proofs.Document.Entries
import YamlQuery.Proofs.Files.Endings

/-!
# Proofs.Files.Saving — what saving does to the files

Saving writes the backup, if one is asked for, and the draft, and moves the draft to the target
(`Saved`).
-/

namespace YamlQuery

namespace Files

variable {fs fs' : Files} {path place p : String} {content : ByteArray} {settings : Settings}
  {v : Value}

/-! ### Places -/

/-- Where all directories stay, a path leads to where it led. -/
theorem place?_mono (hcurrent : fs'.current = fs.current)
    (hdir : ∀ p, fs.isDirectory p → fs'.isDirectory p) (h : fs.place? path = some p) :
    fs'.place? path = some p := by
  have henter (q piece r) (he : fs.enter? q piece = some r) : fs'.enter? q piece = some r := by
    rw [enter?] at he ⊢
    split at he
    · cases he
    · next hq => rwa [if_neg (by simpa using hdir q (by simpa using hq))]
  have hfold (pieces : List (List Char)) (q : String) (hq : pieces.foldlM fs.enter? q = some p) :
      pieces.foldlM fs'.enter? q = some p := by
    induction pieces generalizing q with
    | nil => exact hq
    | cons piece pieces ih =>
      rw [List.foldlM_cons, Option.bind_eq_bind, Option.bind_eq_some_iff] at hq ⊢
      obtain ⟨r, hr, hrest⟩ := hq
      exact ⟨r, henter q piece r hr, ih r hrest⟩
  have hstart : fs'.start path = fs.start path := by rw [start, start, hcurrent]
  rw [place?] at h ⊢
  split at h
  · cases h
  · next hne =>
    rw [if_neg hne, hstart]
    exact hfold _ _ h

/-- A path with an ending that is more than dots leads to a place with this ending. -/
theorem suffix_of_place? {a b : List Char} (hpath : path.toList = a ++ b) (hslash : '/' ∉ b)
    (hdots : ∃ c ∈ b, c ≠ '.') (h : fs.place? path = some p) : b <:+ p.toList := by
  obtain ⟨front, w, hpieces⟩ := Path.exists_pieces hpath hslash
  rw [place?, hpieces] at h
  split at h
  · cases h
  · rw [List.foldlM_append, Option.bind_eq_bind, Option.bind_eq_some_iff] at h
    obtain ⟨q, -, hlast⟩ := h
    replace hlast : fs.enter? q (w ++ b) = some p := by simpa using hlast
    rw [enter?, Path.isIdle_append hdots, if_neg (Path.append_ne_up hdots w)] at hlast
    simp only [Bool.false_eq_true, if_false] at hlast
    split at hlast
    · cases hlast
    · split at hlast
      · cases hlast
        exact ⟨q.toList ++ '/' :: w, by simp⟩
      · cases hlast

/-! ### Changes of single files -/

/-- The files without what stands at a place. -/
def drop (fs : Files) (place : String) : Files := { fs with nodes := fs.nodes.erase place }

theorem isDirectory_iff : fs.isDirectory p ↔ fs.node? p = some .directory := by
  rw [isDirectory]
  split <;> simp_all

theorem ne_empty_of_not_isDirectory (h : fs.isDirectory p = false) : p ≠ "" := by
  rintro rfl
  cases h

theorem node?_drop_of_ne (h : p ≠ place) (fs : Files) : (fs.drop place).node? p = fs.node? p := by
  rw [node?, node?, drop, Entries.get?_erase_of_ne h]

theorem node?_drop_self (hfs : fs.nodes.Distinct) (hp : p ≠ "") : (fs.drop p).node? p = none := by
  rw [node?, if_neg (by simpa using hp), drop]
  exact Entries.get?_erase_self hfs

theorem node?_put_of_ne (h : p ≠ place) (fs : Files) (content : ByteArray) :
    (fs.put place content).node? p = fs.node? p := by
  rw [node?, node?, put, Entries.get?_put, if_neg h]

theorem node?_put_self (hp : p ≠ "") (fs : Files) (content : ByteArray) :
    (fs.put p content).node? p = some (.file content) := by
  rw [node?, if_neg (by simpa using hp), put]
  exact Entries.get?_put_self _ _ _

theorem exists_of_write? (h : fs.write? path content = some fs') : ∃ place,
    fs.place? path = some place ∧ fs.isDirectory place = false ∧ fs' = fs.put place content := by
  rw [write?] at h
  split at h
  · cases h
  · next place hplace =>
    split at h
    · cases h
    · next hdir =>
      cases h
      exact ⟨place, hplace, by simpa using hdir, rfl⟩

/-! ### Saving -/

/-- The place of the backup that is made when a file is saved. -/
def backupPlace? (fs : Files) (settings : Settings) (path : String) : Option String :=
  if settings.createBackup && fs.holds path then (backupPath? path).bind fs.place? else none

/-- The files with a copy of what a path held, if the copy has a place. -/
inductive BackedUp (fs : Files) (settings : Settings) (path : String) : Files → Prop
  | skipped (h : fs.backupPlace? settings path = none) : BackedUp fs settings path fs
  | made {place : String} (content : ByteArray) (h : fs.backupPlace? settings path = some place)
    (hdir : fs.isDirectory place = false) : BackedUp fs settings path (fs.put place content)

/-- A file is written at its source and moved from there. -/
theorem exists_of_move? {source target : String} {g : Files}
    (hwrite : fs.write? source content = some g) (hmove : g.move? source target = some fs') :
    ∃ draft place, fs.place? source = some draft ∧ fs.isDirectory draft = false ∧
      fs.place? target = some place ∧ fs.isDirectory place = false ∧
      fs' = ((fs.put draft content).drop draft).put place content := by
  obtain ⟨draft, hdraft, hdir, rfl⟩ := exists_of_write? hwrite
  have hread : (fs.put draft content).read? source = some content := by
    rw [read?, place?_put hdir, hdraft, Option.bind_some,
      node?_put_self (ne_empty_of_not_isDirectory hdir)]
  rw [move?, hread, place?_put hdir, place?_put hdir, hdraft, isDirectory_put hdir] at hmove
  split at hmove
  · next _ _ place hsource hcontent htarget =>
    cases hsource
    cases hcontent
    split at hmove
    · cases hmove
    · next hfile =>
      cases hmove
      exact ⟨draft, place, hdraft, hdir, htarget, by simpa using hfile, rfl⟩
  · cases hmove

theorem exists_of_replace (h : fs.replace path content = (.ok (), fs')) : ∃ draft target,
    fs.place? (draftPath path) = some draft ∧ fs.isDirectory draft = false ∧
      fs.place? path = some target ∧ fs.isDirectory target = false ∧
      fs' = ((fs.put draft content).drop draft).put target content := by
  unfold replace at h
  split at h
  · cases h
  · next g hwrite =>
    split at h
    · cases h
    · next hmove =>
      cases h
      exact exists_of_move? hwrite hmove

theorem backedUp_of_backUp (hback : settings.createBackup && fs.holds path)
    (h : fs.backUp path = .ok fs') : fs.BackedUp settings path fs' := by
  rw [backUp] at h
  split at h
  · cases h
  · next backup hbackup =>
    split at h
    · next hcopy =>
      cases h
      rw [copy?, Option.bind_eq_some_iff] at hcopy
      obtain ⟨content, -, hwrite⟩ := hcopy
      obtain ⟨place, hplace, hdir, rfl⟩ := exists_of_write? hwrite
      refine .made content ?_ hdir
      rw [backupPlace?, if_pos hback, hbackup, Option.bind_some, hplace]
    · cases h

theorem exists_backedUp_of_save (h : fs.save settings path v = (.ok (), fs')) :
    ∃ g, fs.BackedUp settings path g ∧ g.replace path (encode settings path v) = (.ok (), fs') := by
  rw [save] at h
  split at h
  · cases h
  · next g hg =>
    refine ⟨g, ?_, h⟩
    split at hg
    · next hback => exact backedUp_of_backUp hback hg
    · next hback =>
      cases hg
      exact .skipped (by rw [backupPlace?, if_neg hback])

namespace BackedUp

variable {g : Files} (h : fs.BackedUp settings path g)
include h

theorem place?_eq (path' : String) : g.place? path' = fs.place? path' := by
  cases h with
  | skipped => rfl
  | made _ _ hdir => exact place?_put hdir _ _

theorem isDirectory_eq : g.isDirectory = fs.isDirectory := by
  cases h with
  | skipped => rfl
  | made _ _ hdir => exact isDirectory_put hdir _

theorem node?_eq (hp : fs.backupPlace? settings path ≠ some p) : g.node? p = fs.node? p := by
  cases h with
  | skipped => rfl
  | made content hplace =>
    refine node?_put_of_ne ?_ fs content
    rintro rfl
    exact hp hplace

theorem distinct (hfs : fs.nodes.Distinct) : g.nodes.Distinct := by
  cases h with
  | skipped => exact hfs
  | made => exact hfs.put _ _

theorem current_eq : g.current = fs.current := by
  cases h <;> rfl

end BackedUp

/-- What saving does when it succeeds: the target has the content, nothing is left at the place of
the draft, and all places but these two and that of the backup are as they were. -/
structure Saved (fs : Files) (settings : Settings) (path : String) (content : ByteArray)
    (draft target : String) (fs' : Files) : Prop where
  draft_eq : fs.place? (draftPath path) = some draft
  target_eq : fs.place? path = some target
  file : fs'.node? target = some (.file content)
  gone : fs.nodes.Distinct → draft ≠ target → fs'.node? draft = none
  other : ∀ p, p ≠ draft → p ≠ target → fs.backupPlace? settings path ≠ some p →
    fs'.node? p = fs.node? p
  directory : ∀ p, fs.isDirectory p → fs'.isDirectory p
  current_eq : fs'.current = fs.current

theorem exists_saved (h : fs.save settings path v = (.ok (), fs')) :
    ∃ draft target, fs.Saved settings path (encode settings path v) draft target fs' := by
  obtain ⟨g, hg, hreplace⟩ := exists_backedUp_of_save h
  obtain ⟨draft, target, hdraft, hdraftFile, htarget, htargetFile, rfl⟩ :=
    exists_of_replace hreplace
  rw [hg.place?_eq] at hdraft htarget
  generalize encode settings path v = content
  have hother (p : String) (hp : p ≠ draft) (hp' : p ≠ target) :
      (((g.put draft content).drop draft).put target content).node? p = g.node? p := by
    rw [node?_put_of_ne hp', node?_drop_of_ne hp, node?_put_of_ne hp]
  refine ⟨draft, target, hdraft, htarget, ?_, ?_, ?_, ?_, hg.current_eq⟩
  · exact node?_put_self (ne_empty_of_not_isDirectory htargetFile) _ _
  · intro hfs hne
    rw [node?_put_of_ne hne]
    exact node?_drop_self ((hg.distinct hfs).put _ _) (ne_empty_of_not_isDirectory hdraftFile)
  · intro p hp hp' hbackup
    rw [hother p hp hp', hg.node?_eq hbackup]
  · intro p hp
    rw [← hg.isDirectory_eq] at hp
    have hne (q : String) (hq : g.isDirectory q = false) : p ≠ q := by
      rintro rfl
      rw [hq] at hp
      cases hp
    rw [isDirectory_iff, hother p (hne draft hdraftFile) (hne target htargetFile)]
    exact isDirectory_iff.1 hp

/-! ### The draft and the backup -/

theorem exists_join (w b : List Char) : ∀ ws : List (List Char),
    ∃ a, Text.join ['/'] (ws ++ [w ++ b]) = a ++ b
  | [] => ⟨w, rfl⟩
  | u :: ws => by
    obtain ⟨a, h⟩ := exists_join w b ws
    refine ⟨u ++ ['/'] ++ a, ?_⟩
    rw [List.cons_append, Text.join_cons (by simp), h, List.append_assoc (u ++ ['/'])]

theorem exists_within (dir name : String) :
    ∃ a, (Path.within dir name).toList = a ++ name.toList := by
  rw [Path.within]
  split
  · exact ⟨[], rfl⟩
  · split
    · exact ⟨dir.toList, String.toList_append⟩
    · exact ⟨(dir ++ "/").toList, String.toList_append⟩

/-- The path of the draft ends with `.tmp`, unless the path has no name. -/
theorem exists_draftPath (path : String) :
    draftPath path = path ∨ ∃ a, (draftPath path).toList = a ++ ['.', 't', 'm', 'p'] := by
  have htmp : "tmp".toList = ['t', 'm', 'p'] := by decide
  rw [draftPath, Path.withExtension, htmp]
  split
  · exact .inl rfl
  · rw [String.toList_ofList]
    exact .inr (exists_join _ _ _)

theorem exists_backupPath {backup : String} (h : backupPath? path = some backup) :
    ∃ a, backup.toList = a ++ ['.', 'b', 'a', 'k'] := by
  have hbak : ".bak".toList = ['.', 'b', 'a', 'k'] := by decide
  obtain ⟨name, -, rfl⟩ := Option.map_eq_some_iff.1 h
  have hname : (String.ofList (name ++ ".bak".toList)).toList = name ++ ['.', 'b', 'a', 'k'] := by
    rw [String.toList_ofList, hbak]
  rw [Path.beside]
  split
  · next dir _ =>
    obtain ⟨a, ha⟩ := exists_within dir (String.ofList (name ++ ".bak".toList))
    exact ⟨a ++ name, by rw [ha, hname, List.append_assoc]⟩
  · exact ⟨name, hname⟩

/-- The draft and the backup of a file are different files. -/
theorem Saved.backupPlace?_ne {draft target : String}
    (h : fs.Saved settings path content draft target fs') (hne : draft ≠ target) :
    fs.backupPlace? settings path ≠ some draft := by
  intro hplace
  have hdraft : ['.', 't', 'm', 'p'] <:+ draft.toList := by
    rcases exists_draftPath path with heq | ⟨a, ha⟩
    · have hdraft := h.draft_eq
      rw [heq, h.target_eq] at hdraft
      exact absurd (Option.some.inj hdraft).symm hne
    · exact suffix_of_place? ha (by decide) ⟨'t', by decide⟩ h.draft_eq
  have hbackup : ['.', 'b', 'a', 'k'] <:+ draft.toList := by
    rw [backupPlace?] at hplace
    split at hplace
    · obtain ⟨backup, hpath, hplace⟩ := Option.bind_eq_some_iff.1 hplace
      obtain ⟨a, ha⟩ := exists_backupPath hpath
      exact suffix_of_place? ha (by decide) ⟨'b', by decide⟩ hplace
    · cases hplace
  have heq := List.suffix_of_suffix_length_le hdraft hbackup (Nat.le_refl _)
  exact absurd (heq.eq_of_length rfl) (by decide)

/-- **Saving leaves all files alone but the target, the backup and the draft.**  Nothing is left of
the draft, so that saving touches no other file just if none stood at the place of the draft, or the
target itself does. -/
theorem others_of_save (hfs : fs.nodes.Distinct)
    (h : fs.save settings path v = (.ok (), fs')) : ∃ draft target,
    fs.place? (draftPath path) = some draft ∧ fs.place? path = some target ∧
      (∀ p, p ≠ draft → p ≠ target → fs.backupPlace? settings path ≠ some p →
        fs'.node? p = fs.node? p) ∧
      (draft ≠ target → fs'.node? draft = none) ∧
      ((∀ p, p ≠ target → fs.backupPlace? settings path ≠ some p → fs'.node? p = fs.node? p) ↔
        draft = target ∨ fs.node? draft = none) := by
  obtain ⟨draft, target, hsaved⟩ := exists_saved h
  refine ⟨draft, target, hsaved.draft_eq, hsaved.target_eq, hsaved.other, hsaved.gone hfs, ?_⟩
  constructor
  · intro hall
    by_cases hne : draft = target
    · exact .inl hne
    · rw [← hall draft hne (hsaved.backupPlace?_ne hne)]
      exact .inr (hsaved.gone hfs hne)
  · intro hdraft p hp hbackup
    by_cases heq : p = draft
    · subst heq
      rw [hsaved.gone hfs hp, hdraft.resolve_left hp]
    · exact hsaved.other p heq hp hbackup

theorem save_of_isOk (fs : Files) (settings : Settings) (path : String) (v : Value)
    (h : (fs.save settings path v).1.isOk) :
    fs.save settings path v = (.ok (), (fs.save settings path v).2) := by
  cases hsave : fs.save settings path v with
  | mk result fs' =>
    cases result with
    | ok => rfl
    | error e => simp [hsave, Except.isOk, Except.toBool] at h

theorem others_of_save_backup :
    let fs : Files := { nodes := [("/d", .directory), ("/d/a.yaml", .file "old".toUTF8),
      ("/d/b.tmp", .file "mine".toUTF8)] }
    let settings : Settings := { createBackup := true }
    ∃ fs', fs.nodes.Distinct ∧ fs.save settings "d/a.yaml" .null = (.ok (), fs') ∧
      fs.place? (draftPath "d/a.yaml") = some "/d/a.tmp" ∧
      fs.backupPlace? settings "d/a.yaml" = some "/d/a.yaml.bak" ∧
      fs'.node? "/d/b.tmp" = fs.node? "/d/b.tmp" ∧ fs'.node? "/d/a.tmp" = none ∧
      ∀ p, p ≠ "/d/a.yaml" → p ≠ "/d/a.yaml.bak" → fs'.node? p = fs.node? p := by
  intro fs settings
  have hfs : fs.nodes.Distinct := by decide
  have hsave := save_of_isOk fs settings "d/a.yaml" .null (by decide +kernel)
  have hdraft : fs.place? (draftPath "d/a.yaml") = some "/d/a.tmp" := by decide +kernel
  have htarget : fs.place? "d/a.yaml" = some "/d/a.yaml" := by decide +kernel
  have hbackup : fs.backupPlace? settings "d/a.yaml" = some "/d/a.yaml.bak" := by decide +kernel
  obtain ⟨draft, target, hdraft', htarget', hother, hgone, hiff⟩ := others_of_save hfs hsave
  obtain rfl := Option.some.inj (hdraft.symm.trans hdraft')
  obtain rfl := Option.some.inj (htarget.symm.trans htarget')
  have hall := hiff.2 (.inr rfl)
  have hbackup' (p : String) (hp : p ≠ "/d/a.yaml.bak") :
      fs.backupPlace? settings "d/a.yaml" ≠ some p := by
    rw [hbackup]
    exact fun heq => hp (Option.some.inj heq).symm
  exact ⟨_, hfs, hsave, hdraft, hbackup, hother _ (by decide) (by decide) (hbackup' _ (by decide)),
    hgone (by decide), fun p hp hp' => hall p hp (hbackup' p hp')⟩

/-- What stood at the place of the draft is gone, though saving succeeds. -/
theorem save_removes_draft :
    let mine : Node := .file "mine".toUTF8
    let fs : Files := { nodes := [("/doc.tmp", mine)] }
    ∃ fs', fs.save {} "doc.yaml" .null = (.ok (), fs') ∧
      fs.place? "doc.yaml" = some "/doc.yaml" ∧ fs.backupPlace? {} "doc.yaml" = none ∧
      fs.node? "/doc.tmp" = some mine ∧ fs'.node? "/doc.tmp" = none := by
  intro mine fs
  have hsave := save_of_isOk fs {} "doc.yaml" .null (by decide +kernel)
  refine ⟨_, hsave, by decide +kernel, by decide +kernel, rfl, ?_⟩
  rw [← Option.isNone_iff_eq_none]
  decide +kernel

end Files

end YamlQuery
