import Mathlib
import TiffDirectory.FileSystem

/-!
# Proofs/FileChanges — what becomes of the contents of a file

Names come and go, contents stay.  Who wants to change the contents of a file has to rewrite them in
place, under a name that leads to them or through an open file; a name that is removed, or that is
given to a new file, takes nothing away from them (`FileSystem.bytes_changed`).

This rests on names leading to contents that are there (`FileSystem.Sound`): a new file then never
gets the number of an old one.
-/

namespace TiffDirectory

namespace FileSystem

/-- Whatever contents a name leads to are there. -/
def Sound (fs : FileSystem) : Prop :=
  ∀ place contents, (place, .file contents) ∈ fs.nodes → contents < fs.contents.size

/-- A change that somebody makes to the files.  A file is rewritten in place under its name, or by
somebody who has it open, whether it has a name or not. -/
inductive Change where
  | write (path : String) (bytes : Bytes)
  | remove (path : String)
  | rewrite (contents : ℕ) (bytes : Bytes)

/-- The files after a change. -/
def Change.apply (fs : FileSystem) : Change → FileSystem
  | .write path bytes => fs.writeFile path bytes
  | .remove path => fs.removeFile path
  | .rewrite number bytes => { fs with contents := fs.contents.setIfInBounds number bytes }

/-- What the change puts in the place of the contents of a given number.  **A name that leads
elsewhere, or nowhere, leaves them alone.** -/
def Change.newBytes? (fs : FileSystem) (contents : ℕ) : Change → Option Bytes
  | .write path bytes => if fs.find? path = some (.file contents) then some bytes else none
  | .remove _ => none
  | .rewrite number bytes => if number = contents then some bytes else none

/-- The files after changes, one after the other. -/
def changed (fs : FileSystem) (changes : List Change) : FileSystem := changes.foldl Change.apply fs

/-- The bytes that changes leave in a file: what the last one that rewrote it put there. -/
def rewritten (contents : ℕ) : FileSystem → Bytes → List Change → Bytes
  | _, bytes, [] => bytes
  | fs, bytes, change :: rest =>
    rewritten contents (change.apply fs) ((change.newBytes? fs contents).getD bytes) rest

variable {fs : FileSystem} {contents : ℕ}

/-! ## Names that lead to contents

They do so in the empty file system, and every operation keeps it so. -/

theorem sound_empty (workingDirectory : Place) : (empty workingDirectory).Sound := by
  intro place contents h
  obtain ⟨_, -, hnode⟩ := List.mem_map.1 h
  cases hnode

theorem Sound.writeFile (h : fs.Sound) (path : String) (bytes : Bytes) :
    (fs.writeFile path bytes).Sound := by
  unfold FileSystem.writeFile
  split
  next => exact fun place contents hmem => (Array.size_setIfInBounds ..).symm ▸ h place contents hmem
  next => exact h
  next =>
    split
    next =>
      intro place contents hmem
      dsimp only [link] at hmem ⊢
      rw [Array.size_push]
      rcases List.mem_cons.1 hmem with hnew | hold
      · exact Node.file.inj (Prod.mk.inj hnew).2 ▸ Nat.lt_succ_self _
      · exact Nat.lt_succ_of_lt (h place contents hold)
    next => exact h

theorem Sound.removeFile (h : fs.Sound) (path : String) : (fs.removeFile path).Sound := by
  unfold FileSystem.removeFile
  split
  next =>
    split
    next => exact h
    next => exact fun place contents hmem => h place contents (List.mem_filter.1 hmem).1
  next => exact h

/-- A place that holds no file asks for no contents. -/
theorem Sound.link (h : fs.Sound) (place : Place) {node : Node}
    (hnode : ∀ contents, node ≠ .file contents) : (fs.link place node).Sound := by
  intro other contents hmem
  rcases List.mem_cons.1 hmem with hnew | hold
  · exact absurd (Prod.mk.inj hnew).2.symm (hnode contents)
  · exact h other contents hold

theorem Sound.makePipe (h : fs.Sound) (path : String) : (fs.makePipe path).Sound := by
  unfold FileSystem.makePipe
  split
  next place _ => exact h.link place nofun
  next => exact h

theorem Sound.enter (h : fs.Sound) (place : Place) (name : String) :
    (fs.enter place name).1.Sound := by
  unfold FileSystem.enter
  split
  next => exact h
  next =>
    split
    next => exact h.link _ nofun
    next => exact h

theorem Sound.makeDirectories (h : fs.Sound) (path : String) :
    (fs.makeDirectories path).Sound := by
  unfold FileSystem.makeDirectories
  split
  next parsed _ =>
    generalize fs.start parsed = place
    induction parsed.names generalizing fs place with
    | nil => exact h
    | cons name rest ih => exact ih (h.enter place name) _
  next => exact h

theorem Sound.lt_size (h : fs.Sound) {path : String}
    (hfound : fs.find? path = some (.file contents)) : contents < fs.contents.size := by
  obtain ⟨place, -, hnode⟩ := Option.bind_eq_some_iff.1 hfound
  obtain ⟨before, rest, hnodes, -⟩ := List.lookup_eq_some_iff.1 hnode
  refine h place contents ?_
  rw [hnodes]
  exact List.mem_append_right _ List.mem_cons_self

/-! ## Contents that are there -/

theorem bytes_writeFile (h : contents < fs.contents.size) (path : String) (new : Bytes) :
    (fs.writeFile path new).bytes contents =
      if fs.find? path = some (.file contents) then new else fs.bytes contents := by
  unfold writeFile
  split
  next number hfound =>
    simp only [bytes_setIfInBounds, hfound, Option.some.injEq, Node.file.injEq, h, and_true]
  next node hother hfound =>
    rw [hfound, if_neg]
    rintro ⟨⟩
    exact hother contents rfl
  next hfound =>
    rw [hfound, if_neg nofun]
    split
    next =>
      rw [bytes, bytes, Array.getD_eq_getD_getElem?, Array.getD_eq_getD_getElem?,
        Array.getElem?_push, if_neg h.ne]
    next => rfl

/-- No change takes contents away… -/
theorem lt_size_apply (h : contents < fs.contents.size) (change : Change) :
    contents < (change.apply fs).contents.size := by
  have hset : ∀ number new, contents < (fs.contents.setIfInBounds number new).size :=
    fun _ _ => (Array.size_setIfInBounds ..).symm ▸ h
  cases change with
  | write path bytes =>
    rw [Change.apply, writeFile]
    split
    next => exact hset _ _
    next => exact h
    next =>
      split
      next => exact (Array.size_push ..).symm ▸ Nat.lt_succ_of_lt h
      next => exact h
  | remove path =>
    rw [Change.apply, removeFile]
    split
    next => split <;> exact h
    next => exact h
  | rewrite number bytes => exact hset _ _

/-- …and **only who rewrites them changes them.** -/
theorem bytes_apply (h : contents < fs.contents.size) (change : Change) :
    (change.apply fs).bytes contents =
      (change.newBytes? fs contents).getD (fs.bytes contents) := by
  cases change with
  | write path bytes =>
    rw [Change.apply, Change.newBytes?, bytes_writeFile h]
    split <;> rfl
  | remove path => rw [Change.apply, Change.newBytes?, bytes_removeFile, Option.getD_none]
  | rewrite number bytes =>
    simp only [Change.apply, Change.newBytes?, bytes_setIfInBounds, h, and_true]
    split <;> rfl

theorem bytes_changed (h : contents < fs.contents.size) (changes : List Change) :
    (fs.changed changes).bytes contents = rewritten contents fs (fs.bytes contents) changes := by
  induction changes generalizing fs with
  | nil => rfl
  | cons change rest ih =>
    rw [rewritten, ← bytes_apply h]
    exact ih (lt_size_apply h change)

end FileSystem

end TiffDirectory
