/-
# Writing files and finding them again

Writing a file changes what its own place holds and nothing else (`node?_set`).  The directories
on the way to a file are directories before and after, so a path that could be opened leads to the
same place again, and there is what was written (`openFile_set`, `read_set`).

For the program store this says what a change does to the bytes that it keeps and that nothing else
changes (`update_of_keeps`), and from that what its operations do: `truncate` empties the store,
`append` makes it grow, and `load` sees what it holds.
-/
import Ledboard.Proofs.Outcome
import Ledboard.ProgramStore

namespace Ledboard

namespace FileTree

variable {t : FileTree} {place : Place} {content : Content} {path : String}

/-! ## 1. One place -/

theorem lookup_cons_eq_ite (p q : Place) (node : Node) (rest : List (Place × Node)) :
    ((p, node) :: rest).lookup q = if q = p then some node else rest.lookup q := by
  rw [List.lookup_cons]
  by_cases hq : q = p
  · rw [if_pos hq, hq, beq_self_eq_true]
  · rw [if_neg hq, beq_false_of_ne hq]

/-- A listed place that was set holds what was set, and all others hold what they held. -/
theorem lookup_set_go (node : Node) (nodes : List (Place × Node)) (q : Place) :
    (set.go place node nodes).lookup q = if q = place then some node else nodes.lookup q := by
  induction nodes with
  | nil => rw [set.go, lookup_cons_eq_ite]
  | cons entry rest ih =>
    obtain ⟨p, n⟩ := entry
    rw [lookup_cons_eq_ite, set.go]
    split
    · rename_i hp
      rw [lookup_cons_eq_ite, hp]
      split <;> rfl
    · rename_i hp
      rw [lookup_cons_eq_ite, ih]
      split
      · rename_i hq
        rw [if_neg (fun hplace => hp (hq.symm.trans hplace))]
      · rfl

/-- **Setting a place changes what it holds and nothing else.**  What always exists cannot be
set. -/
theorem node?_set (t : FileTree) (hplace : place.isFixed = false) (node : Node) (q : Place) :
    (t.set place node).node? q = if q = place then some node else t.node? q := by
  unfold node?
  by_cases hq : q = place
  · subst hq
    rw [hplace, if_pos rfl]
    exact (lookup_set_go node t.nodes q).trans (if_pos rfl)
  · rw [if_neg hq]
    split
    · rfl
    · exact (lookup_set_go node t.nodes q).trans (if_neg hq)

/-- A place that holds no directory is not one of those that always exist. -/
theorem isFixed_of_node? (h : t.node? place ≠ some .directory) : place.isFixed = false := by
  cases hfixed : place.isFixed with
  | false => rfl
  | true => exact absurd (if_pos hfixed) h

/-! ## 2. Paths -/

/-- What a place holds, if it can be looked up. -/
theorem node?_of_find {found : Option Node} (h : t.find place = .ok found) :
    t.node? place = found := by
  unfold find at h
  split at h
  · exact Except.ok.inj h
  · split at h
    · exact absurd h (by simp)
    · exact Except.ok.inj h

/-- A place that could be looked up can be looked up in any tree. -/
theorem find_of_find {found : Option Node} (h : t.find place = .ok found) (t' : FileTree) :
    t'.find place = .ok (t'.node? place) := by
  unfold find at h ⊢
  split at h
  · rfl
  · split at h
    · exact absurd h (by simp)
    · rename_i hshort
      exact if_neg hshort

/-- Names lead to the same place when a file is written, since the directories on the way are
none. -/
theorem walk_set (hplace : t.node? place ≠ some .directory) (content : Content) {dir goal : Place}
    {names : List String} (h : t.walk dir names = .ok goal) :
    (t.set place (.file content)).walk dir names = .ok goal := by
  fun_induction walk t dir names with
  | case1 dir => exact h
  | case2 dir rest ih => rw [walk, if_pos rfl]; exact ih h
  | case3 dir rest _ ih => rw [walk, if_neg (by decide), if_pos rfl]; exact ih h
  | case4 dir name rest hdot hup next hlast =>
    rw [walk, if_neg hdot, if_neg hup, if_pos hlast]
    exact h
  | case5 => exact absurd h (by simp)
  | case6 => exact absurd h (by simp)
  | case7 => exact absurd h (by simp)
  | case8 dir name rest hdot hup next hmore hfind ih =>
    have hdirectory : t.node? next = some .directory := node?_of_find hfind
    have hother : next ≠ place := by
      rintro rfl
      exact hplace hdirectory
    have hsame : (t.set place (.file content)).find next = .ok (some .directory) := by
      rw [find_of_find hfind, node?_set t (isFixed_of_node? hplace), if_neg hother, hdirectory]
    rw [walk, if_neg hdot, if_neg hup, if_neg hmore, hsame]
    exact ih h

theorem place_set {goal : Place} (hplace : t.node? place ≠ some .directory) (content : Content)
    (h : t.place path = .ok goal) : (t.set place (.file content)).place path = .ok goal := by
  unfold FileTree.place at h ⊢
  split at h
  · exact absurd h (by simp)
  · rename_i hend
    rw [if_neg hend]
    split at h
    · exact absurd h (by simp)
    · rename_i hempty
      rw [if_neg hempty]
      split at h
      · exact absurd h (by simp)
      · rename_i hlong
        rw [if_neg hlong]
        exact walk_set hplace content h

/-! ## 3. Opening and reading -/

/-- What it takes to open a file: its path leads to its place and does not ask for a directory,
and the place can be looked up and holds the file or nothing. -/
structure Opens (t : FileTree) (path : String) (place : Place) (content : Content) : Prop where
  leads : t.place path = .ok place
  asks : asksDirectory path = false
  shows : t.find place = .ok (t.node? place)
  holds : t.node? place = some (.file content) ∨ t.node? place = none ∧ content = .empty

theorem openFile_eq_ok_iff :
    t.openFile path = .ok (place, content) ↔ Opens t path place content := by
  constructor
  · intro h
    obtain ⟨place', hplace, h⟩ := bind_eq_ok_iff.mp h
    split at h
    · exact absurd h (by simp)
    · rename_i hasks
      obtain ⟨found, hfind, h⟩ := bind_eq_ok_iff.mp h
      have hnode := node?_of_find hfind
      subst hnode
      split at h
      · rename_i hnone
        simp only [Except.ok.injEq, Prod.mk.injEq] at h
        obtain ⟨rfl, rfl⟩ := h
        exact ⟨hplace, Bool.eq_false_iff.mpr hasks, hfind, Or.inr ⟨hnone, rfl⟩⟩
      · exact absurd h (by simp)
      · rename_i held hsome
        simp only [Except.ok.injEq, Prod.mk.injEq] at h
        obtain ⟨rfl, rfl⟩ := h
        exact ⟨hplace, Bool.eq_false_iff.mpr hasks, hfind, Or.inl hsome⟩
  · rintro ⟨hplace, hasks, hfind, hsome | ⟨hnone, rfl⟩⟩
    · simp [openFile, hplace, hasks, hfind, hsome, bind, Except.bind]
    · simp [openFile, hplace, hasks, hfind, hnone, bind, Except.bind]

/-- **A file that was written can be opened again** and has the content that was written. -/
theorem Opens.set (h : Opens t path place content) (written : Content) :
    Opens (t.set place (.file written)) path place written ∧
      (t.set place (.file written)).node? place = some (.file written) := by
  have hplace : t.node? place ≠ some .directory := by
    rcases h.holds with hsome | ⟨hnone, -⟩
    · simp [hsome]
    · simp [hnone]
  have hnode : (t.set place (.file written)).node? place = some (.file written) := by
    rw [node?_set t (isFixed_of_node? hplace), if_pos rfl]
  exact ⟨⟨place_set hplace written h.leads, h.asks, find_of_find h.shows _, Or.inl hnode⟩, hnode⟩

/-- A file that can be opened and is there can be read. -/
theorem Opens.read (h : Opens t path place content)
    (hnode : t.node? place = some (.file content)) : t.read path = .ok content.toList := by
  simp [FileTree.read, h.leads, h.shows, h.asks, hnode, bind, Except.bind]

/-- A file that can be opened is changed at its place. -/
theorem Opens.update (h : Opens t path place content) (change : Content → Content) :
    t.update path change = .ok (t.set place (.file (change content))) := by
  simp [FileTree.update, openFile_eq_ok_iff.mpr h, bind, Except.bind, pure, Except.pure]

end FileTree

/-! ## 4. The program store -/

namespace ProgramStore

variable {s : ProgramStore} {files : FileTree} {bytes : List UInt8}

/-- The file of the store can be written, whether or not it is there. -/
def Writable (s : ProgramStore) (files : FileTree) : Prop :=
  ∃ place content, files.openFile s.path = .ok (place, content)

/-- The file of the store is there, can be written and has certain bytes. -/
def Holds (s : ProgramStore) (files : FileTree) (bytes : List UInt8) : Prop :=
  ∃ place content, files.openFile s.path = .ok (place, content) ∧
    files.node? place = some (.file content) ∧ content.toList = bytes

/-- Writing the store. -/
theorem holds_set {place : Place} {content : Content}
    (h : FileTree.Opens files s.path place content) (written : Content) :
    s.Holds (files.set place (.file written)) written.toList := by
  obtain ⟨hopens, hnode⟩ := h.set written
  exact ⟨place, written, FileTree.openFile_eq_ok_iff.mpr hopens, hnode, rfl⟩

/-- What the store keeps: its bytes, or none where its file is not there but can be created. -/
def Keeps (s : ProgramStore) (files : FileTree) (kept : Option (List UInt8)) : Prop :=
  ∃ place, FileTree.Opens files s.path place (.ofList (kept.getD [])) ∧
    files.node? place = kept.map (fun bytes => .file (.ofList bytes))

variable {kept kept' : Option (List UInt8)}

theorem ofList_toList (content : Content) : Content.ofList content.toList = content := by
  simp [Content.ofList, Content.toList]

theorem keeps_some_iff : s.Keeps files (some bytes) ↔ s.Holds files bytes := by
  constructor
  · rintro ⟨place, hopens, hnode⟩
    exact ⟨place, .ofList bytes, FileTree.openFile_eq_ok_iff.mpr hopens, hnode,
      Content.toList_ofList bytes⟩
  · rintro ⟨place, content, hopen, hnode, rfl⟩
    rw [← ofList_toList content] at hopen hnode
    exact ⟨place, FileTree.openFile_eq_ok_iff.mp hopen, hnode⟩

/-- A store that can be written keeps something. -/
theorem keeps_of_writable (h : s.Writable files) : ∃ kept, s.Keeps files kept := by
  obtain ⟨place, content, hopen⟩ := h
  have hopens := FileTree.openFile_eq_ok_iff.mp hopen
  rcases hopens.holds with hnode | ⟨hnode, rfl⟩
  · exact ⟨some content.toList, keeps_some_iff.mpr ⟨place, content, hopen, hnode, rfl⟩⟩
  · exact ⟨none, place, hopens, hnode⟩

/-- What a store keeps is determined; a file that is not there differs from one without bytes. -/
theorem keeps_unique (h : s.Keeps files kept) (h' : s.Keeps files kept') : kept = kept' := by
  obtain ⟨place, hopens, hnode⟩ := h
  obtain ⟨place', hopens', hnode'⟩ := h'
  obtain rfl : place = place' := Except.ok.inj (hopens.leads.symm.trans hopens'.leads)
  refine Option.map_injective ?_ (hnode.symm.trans hnode')
  intro bytes bytes' hsame
  exact List.reverse_inj.mp (Content.mk.inj (Node.file.inj hsame))

/-- What it means that certain bytes were written to the store, and nothing else. -/
structure Wrote (s : ProgramStore) (bytes : List UInt8) (before after : FileTree) : Prop where
  holds : s.Holds after bytes
  others : ∀ place, before.place s.path ≠ .ok place → after.node? place = before.node? place

/-- **A store that keeps something can be changed**, and nothing else changes with it. -/
theorem update_of_keeps (h : s.Keeps files kept) (change : Content → Content) :
    ∃ files', files.update s.path change = .ok files' ∧
      s.Wrote (change (.ofList (kept.getD []))).toList files files' := by
  obtain ⟨place, hopens, hnode⟩ := h
  refine ⟨_, hopens.update change, holds_set hopens _, ?_⟩
  intro other hother
  have hne : other ≠ place := by
    rintro rfl
    exact hother hopens.leads
  have hplace : files.node? place ≠ some .directory := by
    rw [hnode]
    cases kept <;> simp
  rw [FileTree.node?_set files (FileTree.isFixed_of_node? hplace), if_neg hne]

/-- **A store that can be written can be emptied**, whatever it held. -/
theorem truncate_spec (h : s.Writable files) :
    ∃ files', s.truncate files = .ok files' ∧ s.Holds files' [] := by
  obtain ⟨kept, hkept⟩ := keeps_of_writable h
  obtain ⟨files', hupdate, hwrote⟩ := update_of_keeps hkept (fun _ => .empty)
  refine ⟨files', ?_, hwrote.holds⟩
  rw [truncate, hupdate]
  rfl

/-- **What is appended stands behind what the store held.** -/
theorem append_spec (h : s.Holds files bytes) (more : List UInt8) :
    ∃ files', s.append files more = .ok files' ∧ s.Holds files' (bytes ++ more) := by
  obtain ⟨files', hupdate, hwrote⟩ := update_of_keeps (keeps_some_iff.mpr h) (·.append more)
  refine ⟨files', ?_, ?_⟩
  · rw [append, hupdate]
    rfl
  · have hholds := hwrote.holds
    rwa [Content.toList_append, Option.getD_some, Content.toList_ofList] at hholds

/-- What the store holds is what is loaded. -/
theorem load_of_holds (h : s.Holds files bytes) : s.load files = .ok bytes := by
  obtain ⟨place, content, hopen, hnode, rfl⟩ := h
  have hopens := FileTree.openFile_eq_ok_iff.mp hopen
  rw [load, hopens.read hnode]
  rfl

end ProgramStore

end Ledboard
