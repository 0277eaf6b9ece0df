import GoSignatures.Files.Tree
import GoSignatures.Proofs.Lists
import GoSignatures.Proofs.Outcome

/-!
# Writing to a file tree

A text is written to one place of a tree. Afterwards its path leads to a file with the text, and all
other files and the directories are as they were. The path is walked as before: on the way to the
place only its end has changed, from nothing to a file or from one content to another.

* `FileTree.file?_put` — the files of a tree with a content put at a place
* `FileTree.walk_put` — the way to the place
* `FileTree.Rewritten`, `FileTree.rewritten_of_write` — what writing does
-/

namespace GoSignatures.FileTree

variable {t t' : FileTree} {place p : FilePlace} {content : ByteArray} {path text : String}

theorem file?_put :
    (t.put place content).file? p = if p = place then some content else t.file? p := by
  show List.lookup p ((place, content) :: t.files.filter fun f => f.1 != place) = _
  rw [List.lookup_cons]
  by_cases hp : p = place
  · simp [hp]
  · have hbeq : (p == place) = false := by simpa using hp
    rw [hbeq, if_neg hp]
    show List.lookup p _ = List.lookup p t.files
    rw [lookup_eq_map_find?, lookup_eq_map_find?, find?_filter_eq]
    intro f _ hf
    have hname : p = f.1 := by simpa using hf
    simpa [← hname] using hp

@[simp] theorem file?_put_self : (t.put place content).file? place = some content := by
  rw [file?_put, if_pos rfl]

@[simp] theorem isDirectory_put : (t.put place content).isDirectory p = t.isDirectory p := rfl

/-- Nothing that was there is gone. -/
theorem isSome_file?_put (h : (t.file? p).isSome = true) :
    ((t.put place content).file? p).isSome = true := by
  rw [file?_put]
  split
  · rfl
  · exact h

/-- What writing to a place needs to find there: a file, or nothing in a directory. -/
def Located.LeadsTo (place : FilePlace) : Located → Prop
  | .file q _ => q = place
  | .directory => False
  | .vacant q asDirectory => q = place ∧ asDirectory = false

/-- A walk that led to a place leads to the content that was put there. -/
theorem walk_put {found : Located} (hfound : found.LeadsTo place) :
    ∀ (steps : List String) (q : FilePlace), t.walk q steps = .ok found →
      (t.put place content).walk q steps = .ok (.file place content)
  | [], q, h => by
    rw [walk] at h
    split at h
    · cases h
      obtain rfl : q = place := hfound
      rw [walk, file?_put_self]
    · cases h
      exact hfound.elim
  | step :: steps, q, h => by
    rw [walk] at h ⊢
    rw [isDirectory_put]
    split at h
    · cases h
    rename_i hdirectory
    rw [if_neg hdirectory]
    split at h
    · next hstay =>
      rw [if_pos hstay]
      exact walk_put hfound steps _ h
    rename_i hstay
    rw [if_neg hstay]
    split at h
    · next hup =>
      rw [if_pos hup]
      exact walk_put hfound steps _ h
    rename_i hup
    rw [if_neg hup]
    dsimp only at h ⊢
    rw [isDirectory_put]
    split at h
    · next hthere =>
      have hthere' : (t.isDirectory (q ++ [step]) ||
          ((t.put place content).file? (q ++ [step])).isSome) = true := by
        rw [Bool.or_eq_true] at hthere ⊢
        exact hthere.imp_right isSome_file?_put
      rw [if_pos hthere']
      exact walk_put hfound steps _ h
    · split at h
      · -- the walk ended beside a directory, at the very place
        cases h
        obtain ⟨rfl, hend⟩ : q ++ [step] = place ∧ (!steps.isEmpty) = false := hfound
        obtain rfl : steps = [] := by simpa using hend
        rw [file?_put_self, if_pos (by simp), walk, file?_put_self]
      · cases h

theorem locate_put {found : Located} (hfound : found.LeadsTo place)
    (h : t.locate path = .ok found) :
    (t.put place content).locate path = .ok (.file place content) := by
  rw [locate] at h ⊢
  split at h
  · cases h
  rename_i hempty
  rw [if_neg hempty]
  split at h
  · cases h
  rename_i hnul
  rw [if_neg hnul]
  exact walk_put hfound _ _ h

/-- Writing needs a place that the path leads to, a file or a free place in a directory. -/
theorem write_eq_ok_iff : t.write path text = .ok t' ↔
    ∃ place found, t.locate path = .ok found ∧ found.LeadsTo place ∧
      t' = t.put place text.toUTF8 := by
  rw [write, Except.bind_eq_ok_iff]
  constructor
  · rintro ⟨(⟨place, content⟩ | _ | ⟨place, _ | _⟩), hlocate, h⟩
    · cases h
      exact ⟨place, _, hlocate, rfl, rfl⟩
    · cases h
    · cases h
      exact ⟨place, _, hlocate, ⟨rfl, rfl⟩, rfl⟩
    · cases h
  · rintro ⟨place, (⟨q, content⟩ | _ | ⟨q, _ | _⟩), hlocate, hfound, rfl⟩
    · obtain rfl : q = place := hfound
      exact ⟨_, hlocate, rfl⟩
    · exact hfound.elim
    · obtain ⟨rfl, -⟩ := hfound
      exact ⟨_, hlocate, rfl⟩
    · exact absurd hfound.2 (by simp)

/-- The tree `t'` is the tree `t` with the text at the end of a path, and nothing else is changed,
added or taken away. -/
structure Rewritten (t t' : FileTree) (path text : String) : Prop where
  written : ∃ place, t'.locate path = .ok (.file place text.toUTF8) ∧
    ∀ p, p ≠ place → t'.file? p = t.file? p
  directories : t'.directories = t.directories
  workingDirectory : t'.workingDirectory = t.workingDirectory

/-- Afterwards only the content at that place differs, and the path leads to it. -/
theorem rewritten_of_write (h : t.write path text = .ok t') : t.Rewritten t' path text := by
  obtain ⟨place, found, hlocate, hfound, rfl⟩ := write_eq_ok_iff.mp h
  refine ⟨⟨place, locate_put hfound hlocate, fun p hp => ?_⟩, rfl, rfl⟩
  rw [file?_put, if_neg hp]

end GoSignatures.FileTree
