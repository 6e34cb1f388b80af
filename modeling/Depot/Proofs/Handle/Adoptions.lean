import Depot.Proofs.Files.Overlays
import Depot.Proofs.Handle.Renewals

/-! Base directories that are taken as they are. The source is copied over what such a directory
holds. No file is lost where nothing is copied into the source itself; a source that is taken for
the base directory of its own handle loses them all. -/

namespace Depot

open FileSystem Work

namespace FileSystem

variable {fs fs' : FileSystem} {p : Path} {content : Content}

theorem read_eq_ok : fs.read p = .ok content ↔ ∃ loc, fs.status p = .ok (loc, .file content) := by
  unfold read
  cases fs.status p with
  | error e => simp [bind, Except.bind]
  | ok found =>
    obtain ⟨loc, node⟩ := found
    cases node <;> simp [bind, Except.bind]

/-- A file in a directory without links is read under any path to it that there is room for. -/
theorem read_join {loc : Location} {names : List String} (hl : fs.Leads p loc)
    (hfree : fs.LinkFree loc) (hplain : ∀ name ∈ names, Path.IsPlain name) (hne : names ≠ []) :
    fs.read (p.join (.ofComponents names)) = .ok content ↔
      Reachable p names ∧ fs.node? (loc ++ names) = some (.file content) := by
  rw [read_eq_ok]
  constructor
  · rintro ⟨found, hs⟩
    obtain ⟨hreach, rfl⟩ := loc_of_status hl hfree hplain hne hs
    exact ⟨hreach, (leads_of_status hs).2.1⟩
  · rintro ⟨hreach, hn⟩
    exact ⟨loc ++ names, status_of_reachable hl hplain hne hreach hn (by simp)⟩

end FileSystem

namespace HandleM

/-- The files of the source are in the directory that has been taken, and still in the source. -/
theorem adopted_keeps_files {s s' : Scene} {source dir : Path} {b d : Location}
    (hsource : s.handle.storage = .restoring source)
    (hstatus : s.files.status source = .ok (b, .dir)) (hfree : s.files.LinkFree b)
    (hnamed : s.files.Named) (hdir : s.files.status dir = .ok (d, .dir))
    (hclear : s.files.Clear b d) (h : setBaseDir dir s = .ok () s') :
    s'.handle.storage = .placed dir ∧
    (∀ rest content, s.files.treeAt source rest = some (.file content) →
      s'.files.treeAt source rest = some (.file content) ∧
        s'.files.treeAt dir rest = some (.file content)) ∧
    ∀ names content, (∀ name ∈ names, Path.IsPlain name) → names ≠ [] →
      s.files.read (source.join (.ofComponents names)) = .ok content →
      s'.files.read (source.join (.ofComponents names)) = .ok content ∧
        s'.files.read (dir.join (.ofComponents names)) = .ok content := by
  have hcase := adoptCase dir s
  rw [h] at hcase
  cases hcase with
  | placed hs => simp [hsource] at hs
  | @restored source' files count hs _ hcopy =>
    rw [hsource] at hs
    cases hs
    obtain ⟨hoverlays, hkept, hreach⟩ :=
      FileM.overlays_copyTree hstatus hdir hfree hnamed hclear hcopy
    have hgrows := (Keeps.ok (FileM.building_copyTree _ _ _) hcopy hnamed).grows
    have hstatus' := status_dir_grows hstatus hgrows
    have hdir' := status_dir_grows hdir hgrows
    have hlaid : ∀ rest content, s.files.node? (b ++ rest) = some (.file content) →
        files.node? (d ++ rest) = some (.file content) := by
      intro rest content hn
      rw [hoverlays.inside, hn, Option.some_or]
    refine ⟨rfl, fun rest content hn => ?_, fun names content hplain hne hread => ?_⟩
    · rw [treeAt_of_status hstatus] at hn
      rw [treeAt_of_status hstatus', treeAt_of_status hdir', hkept]
      exact ⟨hn, hlaid rest content hn⟩
    · have hleads := (leads_of_status hstatus).1
      have hleads' := (leads_of_status hstatus').1
      have hleadsDir := (leads_of_status hdir').1
      obtain ⟨hreachSource, hn⟩ := (read_join hleads hfree hplain hne).1 hread
      -- what has been copied could be named behind both paths
      have hreachDir := (hreach names hne (by rw [hn]; rfl)).2
      constructor
      · exact (read_join hleads' (hfree.of_same hkept) hplain hne).2
          ⟨hreachSource, by rw [hkept, hn]⟩
      · exact read_eq_ok.2 ⟨d ++ names, status_of_reachable hleadsDir hplain hne hreachDir
          (hlaid names content hn) (by simp)⟩

theorem adopted_keeps_files_sample : ∃ s',
    setBaseDir ⟨"/"⟩ ⟨Sample.waiting, Sample.kept, .byName, [], 0⟩ = .ok () s' ∧
    s'.files.read ⟨"/b/0/0_a"⟩ = .ok [1] ∧ s'.files.read ⟨"/0/0_a"⟩ = .ok [1] := by
  have hdone :
      answer (setBaseDir ⟨"/"⟩ ⟨Sample.waiting, Sample.kept, .byName, [], 0⟩) = .ok () := by
    decide +kernel
  have hclear : Sample.kept.Clear ["b"] [] := by
    refine ⟨fun down hdown => ?_, fun rest t _ => Sample.tidy_kept.free [] rest t⟩
    rw [List.nil_append] at hdown
    subst hdown
    decide +kernel
  have hwaits : Sample.waiting.storage = .restoring ⟨"/b"⟩ := rfl
  obtain ⟨-, -, hread⟩ := adopted_keeps_files hwaits (by decide +kernel)
    (Sample.tidy_kept.free _) Sample.tidy_kept.names (by decide +kernel) hclear
    (ok_of_answer hdone)
  have hplain : ∀ name ∈ ["0", "0_a"], Path.IsPlain name := by decide
  obtain ⟨hstill, hthere⟩ := hread ["0", "0_a"] [1] hplain (by decide) (by decide +kernel)
  have hold : (⟨"/b"⟩ : Path).join (.ofComponents ["0", "0_a"]) = ⟨"/b/0/0_a"⟩ := by
    decide +kernel
  have hnew : (⟨"/"⟩ : Path).join (.ofComponents ["0", "0_a"]) = ⟨"/0/0_a"⟩ := by
    decide +kernel
  rw [hold] at hstill
  rw [hnew] at hthere
  exact ⟨_, ok_of_answer hdone, hstill, hthere⟩

/-- Each file is opened for writing before it is read, also where that is the same file. -/
theorem adopted_source_emptied : ∃ s', Sample.waiting.storage = .restoring ⟨"/b"⟩ ∧
    Sample.kept.Tidy ∧ Sample.kept.isDir ⟨"/b"⟩ ∧ Sample.kept.read ⟨"/b/0/0_a"⟩ = .ok [1] ∧
    setBaseDir ⟨"/b"⟩ ⟨Sample.waiting, Sample.kept, .byName, [], 0⟩ = .ok () s' ∧
    s'.files.read ⟨"/b/0/0_a"⟩ = .ok [] := by
  have hdone :
      answer (setBaseDir ⟨"/b"⟩ ⟨Sample.waiting, Sample.kept, .byName, [], 0⟩) = .ok () := by
    decide +kernel
  exact ⟨_, rfl, Sample.tidy_kept, by decide +kernel, by decide +kernel, ok_of_answer hdone,
    by decide +kernel⟩

end HandleM

end Depot
